import WasmContract.Leb128.Unsigned
import WasmContract.Text.Utf8

/-!
# Counted and sized items

Readers for items that announce their extent by an integer in front: vectors, which start with the
number of their entries, and runs of bytes and names, which start with their size in bytes.
-/

namespace WasmContract.Reader

variable {α : Type}

/-- Reads the number of entries, then the entries. -/
def vec (item : Reader α) : Reader (List α) := do
  let count ← Leb128.u32
  many item count.toNat

/-- Reads a size, then that many bytes. -/
def sized : Reader (List UInt8) := do
  let size ← Leb128.u32
  bytes size.toNat

/-- Reads a size, then that many bytes as text. -/
def name : Reader String := Text.Utf8.decode <$> sized

end WasmContract.Reader
