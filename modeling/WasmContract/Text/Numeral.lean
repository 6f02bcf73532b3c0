/-!
# Numerals

The written forms of numbers in messages and listings: hexadecimal with a leading `0x`, decimal in a
column of fixed width, and bytes as a bracketed list of decimals.
-/

namespace WasmContract.Text

/-- Fills a text up to a width with copies of a character on its left. -/
def padLeft (width : Nat) (fill : Char) (text : String) : String :=
  String.ofList (List.replicate (width - text.length) fill) ++ text

/-- A number in lowercase hexadecimal behind `0x`, with at least `digits` digits. -/
def hex (n : Nat) (digits : Nat := 1) : String :=
  "0x" ++ padLeft digits '0' (String.ofList (Nat.toDigits 16 n))

/-- A number in decimal, at the right end of a column of a given width. -/
def column (width n : Nat) : String :=
  padLeft width ' ' (toString n)

/-- Bytes as decimals between brackets, such as `[0, 97, 115, 109]`. -/
def byteList (bytes : List UInt8) : String :=
  "[" ++ ", ".intercalate (bytes.map fun b => toString b.toNat) ++ "]"

example : hex 11 = "0xb" := by decide

example : hex 11 2 = "0x0b" := by decide

example : column 2 7 = " 7" := by decide

end WasmContract.Text
