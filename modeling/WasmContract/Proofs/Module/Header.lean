import Mathlib.Algebra.Group.Nat.Defs
import WasmContract.Module.Header
import WasmContract.Proofs.Reader.Lawful

/-!
# Headers in streams

A header is read from the first eight bytes of a stream alone.
-/

namespace WasmContract

open Reader

/-- Every success of a reader uses up exactly `n` bytes. -/
def Reader.Takes {α : Type} (r : Reader α) (n : Nat) : Prop :=
  ∀ ⦃input rest : List UInt8⦄ ⦃a : α⦄, r input = .ok (a, rest) → input.length = n + rest.length

namespace Reader.Takes

variable {α β : Type} {r : Reader α} {f : α → Reader β} {m n : Nat}

protected theorem pure (a : α) : (pure a : Reader α).Takes 0 := by
  intro input rest _ h
  cases h
  exact (Nat.zero_add _).symm

protected theorem bind (hr : r.Takes m) (hf : ∀ a, (f a).Takes n) : (r >>= f).Takes (m + n) := by
  intro input rest b h
  obtain ⟨a, middle, h₁, h₂⟩ := bind_eq_ok_iff.mp h
  have hm := hr h₁
  have hn := hf a h₂
  omega

protected theorem check {p : Prop} [Decidable p] {e : DecodeError} {k : Unit → Reader α}
    (hk : (k ()).Takes n) : (if p then throw e >>= k else k ()).Takes n := by
  intro input rest a h
  split at h
  · cases h
  · exact hk h

protected theorem byte : byte.Takes 1 := by
  intro input rest b h
  cases input with
  | nil => cases h
  | cons c left =>
    cases h
    rw [List.length_cons, Nat.add_comm]

protected theorem bytes (n : Nat) : (bytes n).Takes n := by
  intro input rest front h
  unfold bytes at h
  split at h
  · cases h
    rw [List.length_drop]
    omega
  · cases h

protected theorem word32 : word32.Takes 4 :=
  Takes.byte.bind fun _ => Takes.byte.bind fun _ => Takes.byte.bind fun _ =>
    Takes.byte.bind fun _ => .pure _

end Reader.Takes

theorem Reader.Lawful.word32 : Lawful word32 :=
  Lawful.byte.bind fun _ => Lawful.byte.bind fun _ => Lawful.byte.bind fun _ =>
    Lawful.byte.bind fun _ => .pure _

namespace Header

theorem lawful_reader : Lawful reader :=
  (Lawful.bytes 4).bind fun _ => .check trivial (Lawful.word32.bind fun _ => .pure _)

/-- A header takes eight bytes, four for the magic number and four for the version. -/
theorem takes_reader : reader.Takes size := by
  refine Takes.bind (m := 4) (n := 4) (.bytes 4) fun found => ?_
  exact .check (Takes.bind (m := 4) (n := 0) .word32 fun _ => .pure _)

/-- A header takes up all of the bytes that it is read from. -/
theorem length_of_reads {front : List UInt8} {header : Header} (h : reader.Reads front header) :
    front.length = size := by
  have hsum := takes_reader (h [])
  rwa [List.append_nil] at hsum

/-- A header that was read stands in the first eight bytes, and is read from them whatever
follows. -/
theorem reads_take_of_reader_eq_ok {bytes body : List UInt8} {header : Header}
    (h : reader bytes = .ok (header, body)) :
    reader.Reads (bytes.take size) header ∧ body = bytes.drop size ∧ size ≤ bytes.length := by
  obtain ⟨front, rfl, hfront⟩ := lawful_reader.ok h
  have hlength := length_of_reads hfront
  rw [List.take_left' hlength, List.drop_left' hlength, List.length_append]
  exact ⟨hfront, rfl, by omega⟩

/-- A number is put together again from its four lowest bytes. -/
theorem join_bytes {n : Nat} (hn : n < 2 ^ 32) :
    n % 2 ^ 8 ||| (((n >>> 8) % 2 ^ 8) <<< 8) % 2 ^ 32 |||
      (((n >>> 16) % 2 ^ 8) <<< 16) % 2 ^ 32 ||| (((n >>> 24) % 2 ^ 8) <<< 24) % 2 ^ 32 = n := by
  refine Nat.eq_of_testBit_eq fun i => ?_
  simp only [Nat.testBit_or, Nat.testBit_mod_two_pow, Nat.testBit_shiftLeft, Nat.testBit_shiftRight]
  by_cases hi : i < 32
  · grind
  · have hhigh : n.testBit i = false :=
      Nat.testBit_lt_two_pow (Nat.lt_of_lt_of_le hn (Nat.pow_le_pow_right (by decide) (by omega)))
    grind

/-- A number of 32 bits is read back from its bytes, the lowest first. -/
theorem reads_word32 (value : UInt32) : word32.Reads [value.toUInt8, (value >>> 8).toUInt8,
    (value >>> 16).toUInt8, (value >>> 24).toUInt8] value := by
  have hjoin : value.toUInt8.toUInt32 ||| (value >>> 8).toUInt8.toUInt32 <<< 8 |||
      (value >>> 16).toUInt8.toUInt32 <<< 16 ||| (value >>> 24).toUInt8.toUInt32 <<< 24 = value :=
    UInt32.toNat_inj.mp (join_bytes value.toNat_lt)
  intro rest
  exact congrArg (fun v => Except.ok (v, rest)) hjoin

/-- A header is read back. -/
theorem reads_encode (header : Header) : reader.Reads header.encode header :=
  (Reads.bytes magic).bind <| .check (by simp) <| (reads_word32 header.version).last _

end Header

end WasmContract
