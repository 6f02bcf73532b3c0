import Mathlib.Algebra.Group.Int.Defs
import Mathlib.Algebra.Group.Nat.Defs
import WasmContract.Leb128.Unsigned
import WasmContract.Leb128.Signed

/-!
# The integers that groups spell

`natValue` and `intValue` give the exact integer that a run of groups stands for, without any bound
on its size: the groups are the digits of the integer to base 128, lowest digit first, and a signed
integer is negative when bit 6 of its last group is set. `Terminated` says where a run ends. The
readers of machine words are measured against these.
-/

namespace WasmContract.Leb128

/-- The bytes are one run of groups: each but the last says that another group follows. -/
inductive Terminated : List UInt8 → Prop where
  /-- A group after which none follows ends the run. -/
  | last {b : UInt8} : ¬Continues b → Terminated [b]
  /-- A group after which another follows goes before a run. -/
  | next {b : UInt8} {rest : List UInt8} : Continues b → Terminated rest → Terminated (b :: rest)

/-- The natural number whose digits to base 128 are the groups, lowest first. -/
def natValue : List UInt8 → Nat
  | [] => 0
  | b :: rest => (group b).toNat + 128 * natValue rest

/-- A run of groups spells a number below the power of 128 that its length gives. -/
theorem natValue_lt (bytes : List UInt8) : natValue bytes < 128 ^ bytes.length := by
  induction bytes with
  | nil => simp [natValue]
  | cons b rest ih =>
    have := group_lt b
    rw [natValue, List.length_cons, Nat.pow_succ]
    omega

/-- The last group has the sign bit set. -/
def EndsNegative (bytes : List UInt8) : Prop := ∃ b ∈ bytes.getLast?, Negative b

instance (bytes : List UInt8) : Decidable (EndsNegative bytes) :=
  inferInstanceAs (Decidable (∃ b ∈ _, _))

/-- The integer whose digits to base 128 in two's complement are the groups, lowest first. -/
def intValue (bytes : List UInt8) : Int :=
  if EndsNegative bytes then natValue bytes - 128 ^ bytes.length else natValue bytes

example : natValue [0xe5, 0x8e, 0x26] = 624485 := by decide

example : intValue [0x80, 0x7f] = -128 := by decide

end WasmContract.Leb128
