import Mathlib.Algebra.Group.Nat.Defs
import WasmContract.Text.Utf8

/-!
# Texts and their bytes

Reading bytes as text is the inverse of encoding a text (`decode_encode`), and it is lossy only
where it says so: bytes that are read without a replacement character are the encoding of what is
read, so no other bytes read as the same text (`decode_eq_iff`).

Both come down to single sequences. `Unfinished.Completes` says which bytes complete a sequence that
has begun and what number it spells then: they hold the last bits of the number, six each, and the
first bits are those of the sequence (`completes_iff`). The complete sequences behind a leading byte
are exactly the encodings of the characters outside ASCII (`utf8EncodeChar_of_completes`,
`exists_completes_of_valid`).
-/

namespace WasmContract.Text.Utf8

/-! ### Complete sequences -/

/-- The bytes complete the sequence, which then spells the number. -/
inductive Unfinished.Completes : Unfinished → List UInt8 → Nat → Prop where
  /-- The last byte that is needed. -/
  | last {s : Unfinished} {b : UInt8} : s.low ≤ b ∧ b ≤ s.high → s.needed ≤ 1 →
      Completes s [b] (s.extend b)
  /-- A byte after which others are needed. -/
  | next {s : Unfinished} {b : UInt8} {later : List UInt8} {n : Nat} : s.low ≤ b ∧ b ≤ s.high →
      ¬s.needed ≤ 1 → Completes ⟨s.needed - 1, 0x80, 0xbf, s.extend b⟩ later n →
      Completes s (b :: later) n

variable {s : Unfinished} {b : UInt8} {bytes later rest : List UInt8} {n : Nat}

/-- A sequence that is completed is read as the character of its number. -/
theorem decodeFrom_of_completes (h : s.Completes bytes n) (rest : List UInt8) :
    decodeFrom (some s) (bytes ++ rest) = Char.ofNat n :: decodeFrom none rest := by
  induction h with
  | last hbounds hneeded =>
    rw [List.singleton_append, decodeFrom, if_pos hbounds, if_pos hneeded]
  | next hbounds hneeded _ ih =>
    rw [List.cons_append, decodeFrom, if_pos hbounds, if_neg hneeded, ih]

/-- A sequence that is not completed leaves a replacement character. -/
theorem exists_completes (h : replacement ∉ decodeFrom (some s) bytes) :
    ∃ front rest n, bytes = front ++ rest ∧ s.Completes front n := by
  induction bytes generalizing s with
  | nil => exact absurd (List.mem_singleton.mpr rfl) h
  | cons b left ih =>
    rw [decodeFrom] at h
    split at h
    · rename_i hbounds
      split at h
      · rename_i hneeded
        exact ⟨[b], left, _, rfl, .last hbounds hneeded⟩
      · rename_i hneeded
        obtain ⟨front, rest, n, rfl, hfront⟩ := ih h
        exact ⟨b :: front, rest, n, rfl, .next hbounds hneeded hfront⟩
    · exact absurd List.mem_cons_self h

/-! ### The bytes that complete a sequence -/

/-- The last `k` bytes of a character outside ASCII: six bits each, the most significant first. -/
def continuation (n : Nat) : Nat → List UInt8
  | 0 => []
  | k + 1 => .ofNat (n / 64 ^ k % 64 + 0x80) :: continuation n k

/-- Six bits and the mark of a continuation fit into a byte. -/
theorem toNat_continuation (m : Nat) : (UInt8.ofNat (m % 64 + 0x80)).toNat = m % 64 + 0x80 :=
  UInt8.toNat_ofNat_of_lt' (by show _ < 256; omega)

namespace Unfinished

/-- A sequence as it is under way: some byte is missing, and the next one continues a sequence. -/
structure Regular (s : Unfinished) : Prop where
  /-- There is a byte to come. -/
  needed : s.needed ≠ 0
  /-- It is at least the least that continues a sequence. -/
  low : 0x80 ≤ s.low.toNat
  /-- It is at most the greatest that continues a sequence. -/
  high : s.high.toNat ≤ 0xbf

/-- The number begins as the sequence does, and its next byte lies within the bounds. -/
structure LeadsTo (s : Unfinished) (n : Nat) : Prop where
  /-- The bits that have been read. -/
  number : n / 64 ^ s.needed = s.number
  /-- The lower bound on the next byte. -/
  low : s.low.toNat ≤ n / 64 ^ (s.needed - 1) % 64 + 0x80
  /-- The upper bound on the next byte. -/
  high : n / 64 ^ (s.needed - 1) % 64 + 0x80 ≤ s.high.toNat

/-- Behind the second byte the bounds exclude nothing. -/
theorem leadsTo_iff {k m : Nat} : LeadsTo ⟨k, 0x80, 0xbf, m⟩ n ↔ n / 64 ^ k = m := by
  have hless : n / 64 ^ (k - 1) % 64 ≤ 0x3f := Nat.le_of_lt_succ (Nat.mod_lt _ (by decide))
  exact ⟨LeadsTo.number, fun h => ⟨h, Nat.le_add_left _ _, Nat.add_le_add_right hless _⟩⟩

theorem Regular.next {m : Nat} (h : ¬s.needed ≤ 1) :
    Regular ⟨s.needed - 1, 0x80, 0xbf, m⟩ where
  needed := by
    dsimp only
    omega
  low := Nat.le_refl _
  high := Nat.le_refl _

/-- A byte within the bounds adds six bits to the number of a sequence. -/
theorem Regular.extend_eq_iff {k : Nat} (hs : s.Regular) (hk : s.needed = k + 1) :
    ((s.low ≤ b ∧ b ≤ s.high) ∧ n / 64 ^ k = s.extend b) ↔
      s.LeadsTo n ∧ b = .ofNat (n / 64 ^ k % 64 + 0x80) := by
  have hlow := hs.low
  have hhigh := hs.high
  have hdiv : n / 64 ^ (k + 1) = n / 64 ^ k / 64 := by rw [Nat.pow_succ, Nat.div_div_eq_div_mul]
  have hext : s.extend b = s.number * 64 + (b.toNat - 0x80) := rfl
  rw [UInt8.le_iff_toNat_le, UInt8.le_iff_toNat_le, ← UInt8.toNat_inj, toNat_continuation, hext]
  constructor
  · rintro ⟨hbounds, hnumber⟩
    refine ⟨⟨?_, ?_, ?_⟩, ?_⟩
    · rw [hk, hdiv]
      omega
    · rw [hk, Nat.add_sub_cancel]
      omega
    · rw [hk, Nat.add_sub_cancel]
      omega
    · omega
  · rintro ⟨⟨hnumber, hlow', hhigh'⟩, hb⟩
    rw [hk, hdiv] at hnumber
    rw [hk, Nat.add_sub_cancel] at hlow' hhigh'
    omega

end Unfinished

/-- **Completing a sequence**: the bytes are the last ones of a number that begins so. -/
theorem completes_iff (hs : s.Regular) :
    s.Completes bytes n ↔ s.LeadsTo n ∧ bytes = continuation n s.needed := by
  constructor
  · -- along the bytes, whose bits become those of the number behind the ones already read
    intro h
    induction h with
    | @last s b hbounds hneeded =>
      have hone : s.needed = 0 + 1 := Nat.le_antisymm hneeded (Nat.pos_of_ne_zero hs.needed)
      have hextend : s.extend b / 64 ^ 0 = s.extend b := Nat.div_one _
      obtain ⟨hleads, hb⟩ := (hs.extend_eq_iff hone).mp ⟨hbounds, hextend⟩
      rw [hone, continuation, ← hb]
      exact ⟨hleads, rfl⟩
    | @next s b later n hbounds hneeded _ ih =>
      obtain ⟨k, hk⟩ := Nat.exists_eq_add_one_of_ne_zero hs.needed
      obtain ⟨hlater, hbytes⟩ := ih (.next hneeded)
      simp only [hk, Nat.add_sub_cancel] at hlater hbytes
      obtain ⟨hleads, hb⟩ := (hs.extend_eq_iff hk).mp ⟨hbounds, hlater.number⟩
      rw [hk, continuation, ← hb, hbytes]
      exact ⟨hleads, rfl⟩
  · -- on the number of bytes that are needed; each of them leaves a sequence that needs one less
    rintro ⟨h, rfl⟩
    induction hk : s.needed generalizing s with
    | zero => exact absurd hk hs.needed
    | succ k ih =>
      rw [continuation]
      generalize hb : UInt8.ofNat (n / 64 ^ k % 64 + 0x80) = b
      obtain ⟨hbounds, hnumber⟩ := (hs.extend_eq_iff hk).mpr ⟨h, hb.symm⟩
      by_cases hneeded : s.needed ≤ 1
      · obtain rfl : k = 0 := by omega
        have hn : n = s.extend b := (Nat.div_one n).symm.trans hnumber
        rw [hn]
        exact .last hbounds hneeded
      · have hlater : s.needed - 1 = k := by rw [hk, Nat.add_sub_cancel]
        have hleads : Unfinished.LeadsTo ⟨s.needed - 1, 0x80, 0xbf, s.extend b⟩ n :=
          Unfinished.leadsTo_iff.mpr (by rw [hlater, hnumber])
        exact .next hbounds hneeded (ih (.next hneeded) hleads hlater)

/-! ### Leading bytes -/

/-- What a leading byte adds to the first bits of a number, by how many bytes follow it. -/
def mark : Nat → Nat
  | 0 => 0
  | 1 => 0xc0
  | 2 => 0xe0
  | _ => 0xf0

/-- A sequence as it is begun by a leading byte: it takes two, three or four bytes in all, and the
bounds on the second byte are narrower after some leading bytes. -/
def Unfinished.Begun (s : Unfinished) : Prop :=
  (s.needed = 1 ∧ 2 ≤ s.number ∧ s.number < 0x20 ∧ s.low.toNat = 0x80 ∧ s.high.toNat = 0xbf) ∨
  (s.needed = 2 ∧ s.number < 0x10 ∧ s.low.toNat = (if s.number = 0 then 0xa0 else 0x80) ∧
    s.high.toNat = if s.number = 0xd then 0x9f else 0xbf) ∨
  (s.needed = 3 ∧ s.number < 5 ∧ s.low.toNat = (if s.number = 0 then 0x90 else 0x80) ∧
    s.high.toNat = if s.number = 4 then 0x8f else 0xbf)

instance (s : Unfinished) : Decidable s.Begun :=
  inferInstanceAs (Decidable (_ ∨ _))

/-- A byte that begins a sequence shows the length of the sequence and the first bits of its number.
This is checked for all bytes. -/
theorem begun_of_begin? (h : begin? b = some s) :
    s.Begun ∧ b.toNat = mark s.needed + s.number := by
  have hall : ∀ n : Fin 256, ∀ s ∈ begin? (.ofFin n), s.Begun ∧ n = mark s.needed + s.number := by
    decide +kernel
  exact hall b.toFin s h

/-- The bytes from 0xc2 to 0xf4 begin sequences; those before would spell too little, and those
behind too much. -/
theorem exists_begin? (hlow : 0xc2 ≤ b.toNat) (hhigh : b.toNat < 0xf5) :
    ∃ s, begin? b = some s := by
  have h : ∀ n : Fin 256, 0xc2 ≤ n.val → n.val < 0xf5 → (begin? (.ofFin n)).isSome := by
    decide +kernel
  exact Option.isSome_iff_exists.mp (h b.toFin hlow hhigh)

theorem Unfinished.Begun.regular (h : s.Begun) : s.Regular := by
  rcases h with ⟨hneeded, -, -, hlow, hhigh⟩ | ⟨hneeded, -, hlow, hhigh⟩ |
    ⟨hneeded, -, hlow, hhigh⟩
  · exact ⟨by omega, by omega, by omega⟩
  all_goals exact ⟨by omega, by split at hlow <;> omega, by split at hhigh <;> omega⟩

/-- How many bytes follow the first one in the encoding of a character. -/
def trailing (n : Nat) : Nat :=
  if n ≤ 0x7f then 0 else if n ≤ 0x7ff then 1 else if n ≤ 0xffff then 2 else 3

/-- The first byte in the encoding of a character. -/
def lead (n : Nat) : Nat := mark (trailing n) + n / 64 ^ trailing n

/-- Characters by the number of bytes that follow the first one. -/
theorem trailing_cases (n : Nat) : (n ≤ 0x7f ∧ trailing n = 0 ∧ lead n = n) ∨
    (0x80 ≤ n ∧ n ≤ 0x7ff ∧ trailing n = 1 ∧ lead n = 0xc0 + n / 64) ∨
    (0x800 ≤ n ∧ n ≤ 0xffff ∧ trailing n = 2 ∧ lead n = 0xe0 + n / 4096) ∨
    (0x10000 ≤ n ∧ trailing n = 3 ∧ lead n = 0xf0 + n / 262144) := by
  have hlead : ∀ k, trailing n = k → lead n = mark k + n / 64 ^ k := by
    rintro k rfl
    rfl
  by_cases hone : n ≤ 0x7f
  · have h : trailing n = 0 := if_pos hone
    refine .inl ⟨hone, h, ?_⟩
    rw [hlead 0 h, mark, Nat.pow_zero, Nat.div_one, Nat.zero_add]
  by_cases htwo : n ≤ 0x7ff
  · have h : trailing n = 1 := by rw [trailing, if_neg hone, if_pos htwo]
    exact .inr (.inl ⟨Nat.lt_of_not_le hone, htwo, h, hlead 1 h⟩)
  by_cases hthree : n ≤ 0xffff
  · have h : trailing n = 2 := by rw [trailing, if_neg hone, if_neg htwo, if_pos hthree]
    exact .inr (.inr (.inl ⟨Nat.lt_of_not_le htwo, hthree, h, hlead 2 h⟩))
  · have h : trailing n = 3 := by rw [trailing, if_neg hone, if_neg htwo, if_neg hthree]
    exact .inr (.inr (.inr ⟨Nat.lt_of_not_le hthree, h, hlead 3 h⟩))

/-- The encoding of the character with a given number: its first byte, and six bits in each of those
that follow. -/
theorem utf8EncodeChar_ofNat (h : n.isValidChar) :
    String.utf8EncodeChar (Char.ofNat n) = .ofNat (lead n) :: continuation n (trailing n) := by
  have hval : (Char.ofNat n).val.toNat = n := by
    rw [Char.ofNat, dif_pos h]
    rfl
  have hmax : n < 0x110000 := by
    unfold Nat.isValidChar at h
    omega
  simp only [String.utf8EncodeChar, hval]
  rcases trailing_cases n with ⟨hn, htrailing, hlead⟩ | ⟨hlow, hhigh, htrailing, hlead⟩ |
    ⟨hlow, hhigh, htrailing, hlead⟩ | ⟨hlow, htrailing, hlead⟩ <;> rw [htrailing, hlead]
  · rw [if_pos hn]
    rfl
  · have hlead : n / 64 % 32 + 192 = 0xc0 + n / 64 := by omega
    rw [if_neg (by omega), if_pos hhigh, hlead]
    simp [continuation]
  · have hlead : n / 4096 % 16 + 224 = 0xe0 + n / 4096 := by omega
    rw [if_neg (by omega), if_neg (by omega), if_pos hhigh, hlead]
    simp [continuation]
  · have hlead : n / 262144 % 8 + 240 = 0xf0 + n / 262144 := by omega
    rw [if_neg (by omega), if_neg (by omega), if_neg (by omega), hlead]
    simp [continuation]

/-- A sequence that has just begun leads to the characters that need as many bytes and start with
the same bits: the narrower bounds keep out overlong forms, surrogates and what is too large. -/
theorem Unfinished.Begun.leadsTo_iff (h : s.Begun) : s.LeadsTo n ↔
    0x80 ≤ n ∧ n.isValidChar ∧ trailing n = s.needed ∧ n / 64 ^ s.needed = s.number := by
  have htrailing := trailing_cases n
  unfold Nat.isValidChar
  constructor
  · rintro ⟨hnumber, hlow, hhigh⟩
    rcases h with ⟨hneeded, htwo, hless, hlow', hhigh'⟩ | ⟨hneeded, hless, hlow', hhigh'⟩ |
      ⟨hneeded, hless, hlow', hhigh'⟩ <;>
      simp only [hneeded, Nat.reduceSub, Nat.reducePow] at hnumber hlow hhigh ⊢
    · omega
    · -- at least 0xa0 follows 0xe0, which keeps out overlong forms, and at most 0x9f follows 0xed,
      -- which keeps out surrogates
      have hrange : 0x800 ≤ n ∧ ¬(0xd800 ≤ n ∧ n ≤ 0xdfff) := by
        split at hlow' <;> split at hhigh' <;> omega
      omega
    · -- likewise 0xf0 and overlong forms, 0xf4 and numbers that are no code points
      have hrange : 0x10000 ≤ n ∧ n < 0x110000 := by
        split at hlow' <;> split at hhigh' <;> omega
      omega
  · rintro ⟨hn, hvalid, htrail, hnumber⟩
    have hbounds : s.low.toNat ≤ n / 64 ^ (s.needed - 1) % 64 + 0x80 ∧
        n / 64 ^ (s.needed - 1) % 64 + 0x80 ≤ s.high.toNat := by
      rcases h with ⟨hneeded, -, -, hlow', hhigh'⟩ | ⟨hneeded, -, hlow', hhigh'⟩ |
        ⟨hneeded, -, hlow', hhigh'⟩ <;>
        simp only [hneeded, Nat.reduceSub, Nat.reducePow] at hnumber htrail ⊢
      · omega
      all_goals split at hlow' <;> split at hhigh' <;> omega
    exact ⟨hnumber, hbounds.1, hbounds.2⟩

/-! ### Single characters -/

/-- **A complete sequence** is the encoding of the character that it spells. -/
theorem utf8EncodeChar_of_completes (hb : begin? b = some s) (h : s.Completes later n) :
    String.utf8EncodeChar (Char.ofNat n) = b :: later := by
  obtain ⟨hbegun, hlead⟩ := begun_of_begin? hb
  obtain ⟨hleads, rfl⟩ := (completes_iff hbegun.regular).mp h
  obtain ⟨-, hvalid, htrailing, hnumber⟩ := hbegun.leadsTo_iff.mp hleads
  rw [utf8EncodeChar_ofNat hvalid, lead, htrailing, hnumber, ← hlead, UInt8.ofNat_toNat]

/-- The encoding of a character outside ASCII is a complete sequence behind its leading byte. -/
theorem exists_completes_of_valid (hn : 0x80 ≤ n) (hvalid : n.isValidChar) :
    ∃ b s later, String.utf8EncodeChar (Char.ofNat n) = b :: later ∧ begin? b = some s ∧
      s.Completes later n := by
  have hcases := trailing_cases n
  have hmax : n < 0x110000 := by
    unfold Nat.isValidChar at hvalid
    omega
  have hb : (UInt8.ofNat (lead n)).toNat = lead n :=
    UInt8.toNat_ofNat_of_lt' (by show _ < 256; omega)
  obtain ⟨s, hs⟩ := exists_begin? (b := .ofNat (lead n)) (by omega) (by omega)
  obtain ⟨hbegun, hlead⟩ := begun_of_begin? hs
  rw [hb] at hlead
  -- the leading bytes of sequences of different lengths do not meet
  have hneeded : trailing n = s.needed ∧ n / 64 ^ s.needed = s.number := by
    rcases hbegun with ⟨hneeded, h⟩ | ⟨hneeded, h⟩ | ⟨hneeded, h⟩ <;> rw [hneeded] at hlead ⊢ <;>
      simp only [mark, Nat.reducePow] at hlead ⊢ <;> omega
  have hleads := hbegun.leadsTo_iff.mpr ⟨hn, hvalid, hneeded⟩
  refine ⟨_, s, _, utf8EncodeChar_ofNat hvalid, hs, ?_⟩
  rw [hneeded.1]
  exact (completes_iff hbegun.regular).mpr ⟨hleads, rfl⟩

/-! ### Texts -/

theorem begin?_of_lt (h : b < 0x80) : begin? b = none := by
  rw [begin?, if_pos (UInt8.lt_trans h (by decide))]

theorem single_of_begin? (h : begin? b = some s) : single b = [] := by
  have hb : ¬b < 0x80 := by
    intro hlt
    rw [begin?_of_lt hlt] at h
    cases h
  rw [single, if_neg hb, h]
  rfl

theorem decodeFrom_ascii (h : b < 0x80) (rest : List UInt8) :
    decodeFrom none (b :: rest) = Char.ofNat b.toNat :: decodeFrom none rest := by
  rw [decodeFrom, single, if_pos h, begin?_of_lt h]
  rfl

theorem utf8EncodeChar_ascii (h : n < 0x80) :
    String.utf8EncodeChar (Char.ofNat n) = [.ofNat n] := by
  have hcases := trailing_cases n
  rw [utf8EncodeChar_ofNat (by unfold Nat.isValidChar; omega),
    show trailing n = 0 by omega, show lead n = n by omega, continuation]

/-- One encoded character is read from the front of some bytes. -/
theorem decodeFrom_utf8EncodeChar (c : Char) (rest : List UInt8) :
    decodeFrom none (String.utf8EncodeChar c ++ rest) = c :: decodeFrom none rest := by
  have hc : Char.ofNat c.toNat = c := Char.ofNat_toNat c
  by_cases hascii : c.toNat < 0x80
  · have hb : (UInt8.ofNat c.toNat).toNat = c.toNat :=
      UInt8.toNat_ofNat_of_lt' (by show _ < 256; omega)
    rw [← hc, utf8EncodeChar_ascii hascii, List.singleton_append, decodeFrom_ascii, hb, hc]
    rw [UInt8.lt_iff_toNat_lt, hb]
    exact hascii
  · obtain ⟨b, s, later, hencode, hs, hlater⟩ :=
      exists_completes_of_valid (Nat.le_of_not_lt hascii) c.valid
    rw [hc] at hencode
    rw [hencode, List.cons_append, decodeFrom, single_of_begin? hs, hs,
      decodeFrom_of_completes hlater, hc]
    rfl

/-- **Every text survives its way through bytes.** -/
theorem decode_encode (text : String) : decode (encode text) = text := by
  have h : ∀ chars : List Char, decodeFrom none (chars.flatMap String.utf8EncodeChar) = chars := by
    intro chars
    induction chars with
    | nil => rfl
    | cons c later ih => rw [List.flatMap_cons, decodeFrom_utf8EncodeChar, ih]
  rw [decode, encode, h, String.ofList_toList]

/-- Bytes that are read without replacement are the encoding of what is read. -/
theorem encode_decodeFrom (h : replacement ∉ decodeFrom none bytes) :
    (decodeFrom none bytes).flatMap String.utf8EncodeChar = bytes := by
  induction hlength : bytes.length using Nat.strongRecOn generalizing bytes with
  | ind k ih =>
    cases bytes with
    | nil => rfl
    | cons b left =>
      subst hlength
      by_cases hascii : b < 0x80
      · rw [decodeFrom_ascii hascii] at h ⊢
        have hleft := ih left.length (Nat.lt_succ_self _) (mt (List.mem_cons_of_mem _) h) rfl
        rw [List.flatMap_cons, utf8EncodeChar_ascii (UInt8.lt_iff_toNat_lt.mp hascii), hleft,
          UInt8.ofNat_toNat]
        rfl
      · cases hs : begin? b with
        | none =>
          -- a byte that begins no sequence is replaced
          rw [decodeFrom, single, if_neg hascii, hs] at h
          exact absurd List.mem_cons_self h
        | some s =>
          have hfrom : decodeFrom none (b :: left) = decodeFrom (some s) left := by
            rw [decodeFrom, single_of_begin? hs, hs]
            rfl
          rw [hfrom] at h ⊢
          obtain ⟨front, rest, n, rfl, hfront⟩ := exists_completes h
          rw [decodeFrom_of_completes hfront] at h ⊢
          have hlength : rest.length < (b :: (front ++ rest)).length := by
            rw [List.length_cons, List.length_append]
            omega
          have hrest := ih rest.length hlength (mt (List.mem_cons_of_mem _) h) rfl
          rw [List.flatMap_cons, utf8EncodeChar_of_completes hs hfront, hrest]
          rfl

/-- **Only its encoding reads as a text** without replacement characters. -/
theorem decode_eq_iff {text : String} (h : replacement ∉ text.toList) :
    decode bytes = text ↔ bytes = encode text := by
  constructor
  · rintro rfl
    rw [decode, String.toList_ofList] at h
    rw [encode, decode, String.toList_ofList, encode_decodeFrom h]
  · rintro rfl
    exact decode_encode text

/-! ### ASCII -/

/-- The bytes of a text in ASCII, one for each character. -/
def ascii (text : String) : List UInt8 := text.toList.map fun c => .ofNat c.toNat

/-- All characters of the text are in ASCII. -/
def IsAscii (text : String) : Prop := ∀ c ∈ text.toList, c.toNat < 0x80

instance (text : String) : Decidable (IsAscii text) :=
  List.decidableBAll (fun c : Char => c.toNat < 0x80) text.toList

/-- A text in ASCII is written in as many bytes as it has characters. -/
theorem encode_eq_ascii {text : String} (h : IsAscii text) : encode text = ascii text := by
  have hchars : ∀ chars : List Char, (∀ c ∈ chars, c.toNat < 0x80) →
      chars.flatMap String.utf8EncodeChar = chars.map fun c => .ofNat c.toNat := by
    intro chars hchars
    induction chars with
    | nil => rfl
    | cons c later ih =>
      obtain ⟨hc, hlater⟩ := List.forall_mem_cons.mp hchars
      have hencode := utf8EncodeChar_ascii hc
      rw [Char.ofNat_toNat] at hencode
      rw [List.flatMap_cons, hencode, ih hlater, List.map_cons, List.singleton_append]
  exact hchars text.toList h

/-- **Only one spelling reads as a text in ASCII**: bytes that are no part of a text never do. -/
theorem decode_eq_ascii_iff {text : String} (h : IsAscii text) :
    decode bytes = text ↔ bytes = ascii text := by
  have hreplacement : replacement ∉ text.toList := fun hmem => absurd (h _ hmem) (by decide)
  rw [decode_eq_iff hreplacement, encode_eq_ascii h]

end WasmContract.Text.Utf8
