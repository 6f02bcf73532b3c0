import WasmContract.Leb128.Unsigned
import WasmContract.Text.Utf8

/-!
# Writing counted and sized items

The bytes of items that announce their extent by an integer in front. Integers are written in their
shortest form. A number of entries or bytes that exceeds 32 bits cannot be announced; the result is
meaningful below that.
-/

namespace WasmContract.Writer

variable {α : Type}

/-- The number of entries, then the entries. -/
def vec (item : α → List UInt8) (entries : List α) : List UInt8 :=
  Leb128.encode entries.length.toUInt32 ++ entries.flatMap item

/-- The number of bytes, then the bytes. -/
def sized (bytes : List UInt8) : List UInt8 := Leb128.encode bytes.length.toUInt32 ++ bytes

/-- A text behind the number of its bytes. -/
def name (text : String) : List UInt8 := sized (Text.Utf8.encode text)

/-- A frame: an identifier, then the payload behind its size. -/
def frame (id : UInt8) (payload : List UInt8) : List UInt8 := id :: sized payload

example : frame 8 [5] = [0x08, 0x01, 0x05] := by decide

end WasmContract.Writer
