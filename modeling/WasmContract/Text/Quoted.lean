import WasmContract.Text.DefaultIgnorable
import WasmContract.Text.GraphemeExtend
import WasmContract.Text.Unprintable

/-!
# Quoted text

A text between double quotes on a single line. Quotes, backslashes and the common control
characters are written behind a backslash; every other character that cannot be read where it stands
is written as its number in `\u{…}`.
-/

namespace WasmContract.Text

/-- The halfwidth marks of voiced and of half-voiced sounds. They extend the character before them,
but take a place of their own on the line. -/
def HalfwidthSoundMark (c : Char) : Prop := c = '\uff9e' ∨ c = '\uff9f'

instance (c : Char) : Decidable (HalfwidthSoundMark c) := inferInstanceAs (Decidable (_ ∨ _))

/-- A character cannot be read where it stands: it has no shape, it shows nothing, or it merges with
the character before it. -/
def Illegible (c : Char) : Prop :=
  Unprintable c ∨ DefaultIgnorable c ∨ GraphemeExtend c ∧ ¬HalfwidthSoundMark c

instance (c : Char) : Decidable (Illegible c) := inferInstanceAs (Decidable (_ ∨ _))

/-- A character by its number in hexadecimal. -/
def numbered (c : Char) : List Char :=
  ['\\', 'u', '\x7b'] ++ Nat.toDigits 16 c.toNat ++ ['\x7d']

/-- A character as it stands within quotes. -/
def quotedChar (c : Char) : List Char :=
  match c with
  | '\x00' => ['\\', '0']
  | '\t' => ['\\', 't']
  | '\r' => ['\\', 'r']
  | '\n' => ['\\', 'n']
  | '\\' => ['\\', '\\']
  | '"' => ['\\', '"']
  | c => if Illegible c then numbered c else [c]

/-- A text between double quotes. -/
def quoted (text : String) : String :=
  String.ofList ('"' :: text.toList.flatMap quotedChar ++ ['"'])

example : quoted "\"\n" = "\"\\\"\\n\"" := by decide

example : numbered '\u0301' = ['\\', 'u', '\x7b', '3', '0', '1', '\x7d'] := by decide

example : Illegible '\u0301' ∧ Illegible '\uffa0' ∧ ¬Illegible '\uff9e' := by decide +kernel

end WasmContract.Text
