import WasmContract.Text.Ranges

/-!
# Characters that show nothing

The code points with the property `Default_Ignorable_Code_Point`, which a display leaves out when it
has no better use for them, as ranges of the Unicode character database, version 17. Most of them
are format characters; the fillers of Hangul syllables are letters.
-/

namespace WasmContract.Text

/-- The ranges of default-ignorable code points, ends included, in ascending order. -/
def defaultIgnorableRanges : List (Nat × Nat) :=
  [(0xad, 0xad), (0x34f, 0x34f), (0x61c, 0x61c), (0x115f, 0x1160), (0x17b4, 0x17b5),
  (0x180b, 0x180f), (0x200b, 0x200f), (0x202a, 0x202e), (0x2060, 0x206f), (0x3164, 0x3164),
  (0xfe00, 0xfe0f), (0xfeff, 0xfeff), (0xffa0, 0xffa0), (0xfff0, 0xfff8), (0x1bca0, 0x1bca3),
  (0x1d173, 0x1d17a), (0xe0000, 0xe0fff)]

/-- A character shows nothing unless a display gives it a special role. -/
def DefaultIgnorable (c : Char) : Prop := InRanges defaultIgnorableRanges c

instance (c : Char) : Decidable (DefaultIgnorable c) := inferInstanceAs (Decidable (InRanges _ c))

example : Ascending defaultIgnorableRanges := by decide

example : DefaultIgnorable '\u1160' ∧ ¬DefaultIgnorable '\u1161' := by decide

end WasmContract.Text
