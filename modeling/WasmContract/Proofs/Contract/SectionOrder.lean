import Mathlib.Data.List.FinRange
import Mathlib.Data.List.Sort
import Mathlib.Order.Fin.Basic
import WasmContract.Contract.Validity
import WasmContract.Proofs.Contract.Bytes
import WasmContract.Proofs.Section.Spelled

/-!
# The order of sections

Sections of different kinds do not influence each other when a module is read. So the sections of a
stream may be rearranged as long as those of one kind keep their order: the module is read to the
same contract, and the pieces of its canonical bytes are rearranged alike
(`sections_may_be_rearranged`).

A list is rearranged in this way when the elements of each key are the same as before, and in the
same order (`Rearranged`). What is made of the sections of a single kind is the same for both lists,
and each export section comes after the same export sections as before.
-/

namespace WasmContract

/-! ### Rearranged lists -/

section Rearranged

variable {α β κ : Type} [DecidableEq κ] {key : α → κ} {l l' l'' : List α}

/-- The second list is the first one in another order, in which elements of the same key stand as
before. -/
def Rearranged (key : α → κ) (l l' : List α) : Prop :=
  ∀ k, l'.filter (key · = k) = l.filter (key · = k)

/-- A permutation of the places rearranges a list if it keeps the order of the places that hold
elements of the same key. -/
theorem rearranged_ofFn {n : ℕ} (f : Fin n → α) {σ : Equiv.Perm (Fin n)}
    (hσ : ∀ i j, i < j → key (f (σ i)) = key (f (σ j)) → σ i < σ j) :
    Rearranged key (List.ofFn f) (List.ofFn (f ∘ σ)) := by
  intro k
  -- both lists of places have the same members, and both are increasing
  have hplaces : ((List.finRange n).map σ).filter (fun i => key (f i) = k) =
      (List.finRange n).filter fun i => key (f i) = k := by
    refine List.Perm.eq_of_pairwise' (r := (· < ·)) ?_ ((List.pairwise_lt_finRange n).filter _)
      (σ.map_finRange_perm.filter _)
    rw [List.pairwise_filter, List.pairwise_map]
    refine (List.pairwise_lt_finRange n).imp fun hij hi hj => hσ _ _ hij ?_
    exact (of_decide_eq_true hi).trans (of_decide_eq_true hj).symm
  rw [List.ofFn_eq_map, List.ofFn_eq_map, ← List.map_map, List.filter_map (f := f),
    List.filter_map (f := f)]
  exact congrArg (List.map f) hplaces

theorem Rearranged.trans (h : Rearranged key l l') (h' : Rearranged key l' l'') :
    Rearranged key l l'' :=
  fun k => (h' k).trans (h k)

theorem Rearranged.symm (h : Rearranged key l l') : Rearranged key l' l :=
  fun k => (h k).symm

theorem Rearranged.map {key : β → κ} {g : α → β} (h : Rearranged (key ∘ g) l l') :
    Rearranged key (l.map g) (l'.map g) := by
  intro k
  rw [List.filter_map, List.filter_map]
  exact congrArg (List.map g) (h k)

/-- Rearranging keeps the elements. -/
theorem Rearranged.mem_iff (h : Rearranged key l l') {a : α} : a ∈ l' ↔ a ∈ l := by
  have hmem : a ∈ l'.filter (key · = key a) ↔ a ∈ l.filter (key · = key a) := by rw [h (key a)]
  simpa only [List.mem_filter, decide_true, and_true] using hmem

/-- Where the keys stand as before, nothing is rearranged. -/
theorem Rearranged.eq_of_map_eq (h : Rearranged key l l') (hkeys : l'.map key = l.map key) :
    l' = l := by
  induction l generalizing l' with
  | nil => exact List.map_eq_nil_iff.mp hkeys
  | cons a later ih =>
    obtain ⟨b, later', rfl, hb, hlater⟩ := List.map_eq_cons_iff.mp hkeys
    have hhead := h (key a)
    simp only [List.filter_cons, hb, decide_true, if_true] at hhead
    obtain ⟨rfl, -⟩ := List.cons.inj hhead
    refine congrArg (b :: ·) (ih (fun k => ?_) hlater)
    have hk := h k
    rw [List.filter_cons, List.filter_cons] at hk
    split at hk
    · exact (List.cons.inj hk).2
    · exact hk

/-- Where elements of one key alone contribute, all others may be left out. -/
theorem flatMap_filter_key {f : α → List β} {k : κ} (hf : ∀ a, key a ≠ k → f a = [])
    (l : List α) : (l.filter (key · = k)).flatMap f = l.flatMap f := by
  induction l with
  | nil => rfl
  | cons a later ih =>
    rw [List.flatMap_cons, List.filter_cons, ← ih]
    split
    · rw [List.flatMap_cons]
    · rename_i ha
      rw [hf a fun heq => ha (decide_eq_true heq), List.nil_append]

/-- What the elements of a single key contribute is the same in both lists. -/
theorem Rearranged.flatMap_eq (h : Rearranged key l l') {f : α → List β} {k : κ}
    (hf : ∀ a, key a ≠ k → f a = []) : l'.flatMap f = l.flatMap f := by
  rw [← flatMap_filter_key hf l', ← flatMap_filter_key hf l, h k]

/-- A list is the function that takes its places to its elements. -/
theorem exists_ofFn_eq {n : ℕ} (h : l.length = n) : ∃ f : Fin n → α, l = List.ofFn f := by
  subst h
  exact ⟨l.get, (List.ofFn_get l).symm⟩

end Rearranged

/-! ### Modules -/

/-- Each view sees the sections of one kind alone. -/
theorem Section.entries_of_kind_ne (s : Section) :
    (s.kind ≠ .types → s.entries types? = []) ∧ (s.kind ≠ .imports → s.entries imports? = []) ∧
      (s.kind ≠ .functions → s.entries functions? = []) ∧
      (s.kind ≠ .exports → s.entries exports? = []) := by
  cases s <;> simp [entries, kind, types?, imports?, functions?, exports?]

/-- A module of the same sections, where those of each kind stand in the same order, makes the same
contract. -/
theorem Contract.ofModule_rearranged {m m' : Module}
    (h : Rearranged Section.kind m.sections m'.sections) (bytes : List UInt8) :
    ofModule m' bytes = ofModule m bytes := by
  have htypes := h.flatMap_eq fun s => (Section.entries_of_kind_ne s).1
  have himports := h.flatMap_eq fun s => (Section.entries_of_kind_ne s).2.1
  have hfunctions := h.flatMap_eq fun s => (Section.entries_of_kind_ne s).2.2.1
  have hexports := h.flatMap_eq fun s => (Section.entries_of_kind_ne s).2.2.2
  have hhas : ∀ kind, m'.Has kind ↔ m.Has kind := fun kind => by simp only [Module.Has, h.mem_iff]
  simp only [ofModule, Module.entries, htypes, himports, hfunctions, hexports, hhas]

/-! ### What remains of the sections -/

namespace FramedSection

variable {kept kept' : List Export} {p : FramedSection} {parts : List FramedSection}

/-- The kind of the section in a frame. -/
def kind (p : FramedSection) : SectionKind := p.content.kind

/-- The sections with what remains of them. -/
def withRemainders (kept : List Export) (parts : List FramedSection) :
    List (FramedSection × Option FramedSection) :=
  parts.zip (remainders kept parts)

theorem newExports_of_kind_ne (h : p.kind ≠ .exports) : p.content.newExports kept = [] := by
  rw [Section.newExports, (Section.entries_of_kind_ne p.content).2.2.2 h]
  rfl

/-- The exports kept before matter only to export sections. -/
theorem remainder_of_kind_ne (h : p.kind ≠ .exports) : p.remainder kept = p.remainder kept' := by
  rw [remainder, remainder]
  cases hp : p.content with
  | exports entries => exact absurd (congrArg Section.kind hp) h
  | _ => rfl

theorem withRemainders_cons (kept : List Export) (p : FramedSection) (later : List FramedSection) :
    withRemainders kept (p :: later) =
      (p, p.remainder kept) :: withRemainders (kept ++ p.content.newExports kept) later := rfl

/-- Without export sections, the exports kept before do not matter. -/
theorem withRemainders_of_kind_ne (h : ∀ p ∈ parts, p.kind ≠ .exports) :
    withRemainders kept parts = withRemainders kept' parts := by
  induction parts with
  | nil => rfl
  | cons p later ih =>
    have hp := h p List.mem_cons_self
    rw [withRemainders_cons, withRemainders_cons, newExports_of_kind_ne hp,
      newExports_of_kind_ne hp, List.append_nil, List.append_nil,
      ih fun q hq => h q (List.mem_cons_of_mem p hq), remainder_of_kind_ne hp]

/-- What remains of the sections of one kind does not depend on sections of other kinds. -/
theorem filter_withRemainders (kept : List Export) (parts : List FramedSection)
    (kind : SectionKind) :
    (withRemainders kept parts).filter (·.1.kind = kind) =
      withRemainders kept (parts.filter (·.kind = kind)) := by
  induction parts generalizing kept with
  | nil => rfl
  | cons p later ih =>
    rw [withRemainders_cons, List.filter_cons, List.filter_cons, ih]
    by_cases hp : p.kind = kind
    · rw [if_pos (decide_eq_true hp), if_pos (decide_eq_true hp), withRemainders_cons]
    · have hskip : ¬decide (p.kind = kind) = true := mt of_decide_eq_true hp
      rw [if_neg hskip, if_neg hskip]
      -- either `p` keeps no exports, or the others are of no kind that exports matter to
      by_cases hexports : p.kind = .exports
      · refine withRemainders_of_kind_ne fun q hq hq' => hp ?_
        rw [hexports, ← hq', of_decide_eq_true (List.mem_filter.mp hq).2]
      · rw [newExports_of_kind_ne hexports, List.append_nil]

theorem map_fst_withRemainders (kept : List Export) (parts : List FramedSection) :
    (withRemainders kept parts).map Prod.fst = parts :=
  List.map_fst_zip (length_remainders kept parts).ge

theorem map_snd_withRemainders (kept : List Export) (parts : List FramedSection) :
    (withRemainders kept parts).map Prod.snd = remainders kept parts :=
  List.map_snd_zip (length_remainders kept parts).le

/-- The remainders of sections are rearranged with them. -/
theorem remainders_rearranged {n : ℕ} {p : Fin n → FramedSection}
    {remainder : Fin n → Option FramedSection} {σ : Equiv.Perm (Fin n)}
    (hremainder : remainders kept (List.ofFn p) = List.ofFn remainder)
    (hσ : ∀ i j, i < j → (p (σ i)).kind = (p (σ j)).kind → σ i < σ j) :
    remainders kept (List.ofFn (p ∘ σ)) = List.ofFn (remainder ∘ σ) := by
  let both i := (p i, remainder i)
  have hboth : List.ofFn both = withRemainders kept (List.ofFn p) := by
    rw [withRemainders, hremainder]
    exact List.zip_of_prod (List.map_ofFn ..) (List.map_ofFn ..)
  -- the pairs, rearranged, and the rearranged sections with what remains of them
  have hpairs : Rearranged (fun q => q.1.kind) (withRemainders kept (List.ofFn p))
      (List.ofFn (both ∘ σ)) := hboth ▸ rearranged_ofFn both hσ
  have hsections : Rearranged (fun q => q.1.kind) (withRemainders kept (List.ofFn p))
      (withRemainders kept (List.ofFn (p ∘ σ))) := by
    intro k
    rw [filter_withRemainders, filter_withRemainders, rearranged_ofFn p hσ k]
  have hkinds : (withRemainders kept (List.ofFn (p ∘ σ))).map (fun q => q.1.kind) =
      (List.ofFn (both ∘ σ)).map fun q => q.1.kind := by
    have hfst := congrArg (List.map kind) (map_fst_withRemainders kept (List.ofFn (p ∘ σ)))
    rw [List.map_map, List.map_ofFn] at hfst
    rw [List.map_ofFn]
    exact hfst
  rw [← map_snd_withRemainders, (hpairs.symm.trans hsections).eq_of_map_eq hkinds, List.map_ofFn]
  rfl

end FramedSection

/-! ### Streams -/

variable {bytes : List UInt8} {header : Header} {n : ℕ} {p : Fin n → FramedSection}
  {remainder : Fin n → Option FramedSection} {σ : Equiv.Perm (Fin n)}

/-- The identifier of a frame that was decoded is the code of its section. -/
theorem FramedSection.Exact.id_eq {p : FramedSection} (h : p.Exact) : p.frame.id = p.kind.code :=
  Frame.id_of_decode h.decode

/-- Sections in another order are read to the same contract, with the pieces of its canonical bytes
in that order. -/
theorem Contract.read_rearranged (hstream : ExactStream bytes (header, List.ofFn p))
    (hremainder : FramedSection.remainders [] (List.ofFn p) = List.ofFn remainder)
    (hσ : ∀ i j, i < j → (p (σ i)).frame.id = (p (σ j)).frame.id → σ i < σ j) :
    read (bytes.take Header.size ++ FramedSection.join (List.ofFn (p ∘ σ))) =
      .ok (ofModule (.ofStream (header, List.ofFn p)) (bytes.take Header.size ++
        (List.ofFn (FramedSection.piece ∘ remainder ∘ σ)).flatten)) := by
  have hexact : ∀ i, (p i).Exact := List.forall_mem_ofFn_iff.mp hstream.exact
  have hkinds : ∀ i j, i < j → (p (σ i)).kind = (p (σ j)).kind → σ i < σ j := by
    intro i j hij hkind
    refine hσ i j hij ?_
    rw [(hexact _).id_eq, (hexact _).id_eq, hkind]
  have hstream' : ExactStream (bytes.take Header.size ++ FramedSection.join (List.ofFn (p ∘ σ)))
      (header, List.ofFn (p ∘ σ)) :=
    hstream.replace (List.forall_mem_ofFn_iff.mpr fun i => hexact (σ i))
  refine read_eq_ok_iff.mpr ⟨_, hstream', ?_⟩
  have hsections : Rearranged Section.kind (Module.ofStream (header, List.ofFn p)).sections
      (Module.ofStream (header, List.ofFn (p ∘ σ))).sections :=
    (rearranged_ofFn p hkinds).map
  rw [List.take_left' hstream.length_take, FramedSection.canonical,
    FramedSection.remainders_rearranged hremainder hkinds, ofModule_rearranged hsections,
    ← FramedSection.flatten_map_piece, List.map_ofFn]

/-- **The order of sections.** A module that is read strictly consists of a header and frames, and
its canonical bytes of the header and one piece for each frame. The frames may be rearranged as long
as those of the same identifier keep their order: the module is read to the same contract, the
pieces are rearranged alike, and validation comes to the same result. -/
theorem sections_may_be_rearranged {c : Contract} (h : Contract.read bytes = .ok c) :
    let opening := bytes.take Header.size
    let framing := Framing.ofBytes (bytes.drop Header.size)
    let frames := framing.frames
    framing.failure = none ∧
    ∃ (m : Module) (piece : Fin frames.length → List UInt8), Module.decode bytes = .ok m ∧
      List.Forall₂ (fun p piece => IsPiece p.1 p.2 piece)
        (frames.zip (Section.remainders [] m.sections)) (List.ofFn piece) ∧
      c.bytes = opening ++ (List.ofFn piece).flatten ∧
      ∀ σ : Equiv.Perm (Fin frames.length),
        (∀ i j, i < j → (frames.get (σ i)).id = (frames.get (σ j)).id → σ i < σ j) →
        let c' := { c with bytes := opening ++ (List.ofFn fun i => piece (σ i)).flatten }
        Contract.read (opening ++ (List.ofFn fun i => (frames.get (σ i)).bytes).flatten) = .ok c' ∧
        ∀ options, c'.validate options = c.validate options := by
  intro opening framing frames
  obtain ⟨⟨header, parts⟩, hstream, rfl⟩ := Contract.read_eq_ok_iff.mp h
  have hframing : framing = ⟨parts.map (·.frame), none⟩ := hstream.ofBytes_drop
  have hframes : frames = parts.map (·.frame) := congrArg Framing.frames hframing
  have hlength : parts.length = frames.length := by rw [hframes, List.length_map]
  obtain ⟨p, rfl⟩ := exists_ofFn_eq hlength
  obtain ⟨remainder, hremainder⟩ :=
    exists_ofFn_eq ((FramedSection.length_remainders [] (List.ofFn p)).trans hlength)
  have hget : ∀ i, frames.get i = (p i).frame := by
    intro i
    rw [List.get_eq_getElem, List.getElem_of_eq hframes, List.getElem_map, List.getElem_ofFn]
  have hpieces := FramedSection.forall₂_isPiece .nil (List.ofFn p)
  rw [hremainder, ← hframes, List.map_ofFn (f := remainder)] at hpieces
  refine ⟨congrArg Framing.failure hframing, .ofStream (header, List.ofFn p),
    FramedSection.piece ∘ remainder, hstream.decode_eq_ok, hpieces, ?_, ?_⟩
  · rw [← List.map_ofFn, FramedSection.flatten_map_piece, ← hremainder]
    rfl
  · intro σ hσ c'
    simp only [hget] at hσ ⊢
    refine ⟨?_, fun options => rfl⟩ -- no rule looks at the canonical bytes
    have hread := Contract.read_rearranged hstream hremainder hσ
    rwa [FramedSection.join, List.flatMap_def, List.map_ofFn] at hread

/-- Two export sections, the second of which exports `main` again, with a custom section and a
section of types between them; the types change places with the first export section. -/
theorem sections_may_be_rearranged_two_export_sections :
    let opening : List UInt8 := Header.magic ++ [0x01, 0x00, 0x00, 0x00]
    let main : List UInt8 := [0x07, 0x08, 0x01, 0x04, 0x6d, 0x61, 0x69, 0x6e, 0x00, 0x00]
    let custom : List UInt8 := [0x00, 0x82, 0x00, 0x01, 0x78]
    let types : List UInt8 := [0x01, 0x04, 0x01, 0x60, 0x00, 0x00]
    let both : List UInt8 := [0x07, 0x11, 0x02, 0x04, 0x6d, 0x61, 0x69, 0x6e, 0x00, 0x01,
      0x06, 0x6d, 0x65, 0x6d, 0x6f, 0x72, 0x79, 0x02, 0x00]
    let memory : List UInt8 := [0x07, 0x0a, 0x01, 0x06, 0x6d, 0x65, 0x6d, 0x6f, 0x72, 0x79,
      0x02, 0x00]
    let c : Contract := {
      types := [{}]
      exports := [⟨"main", .func, 0⟩, ⟨"memory", .memory, 0⟩]
      hasCustom := true
      bytes := opening ++ main ++ types ++ memory }
    let c' : Contract := { c with bytes := opening ++ types ++ main ++ memory }
    Contract.read (opening ++ main ++ custom ++ types ++ both) = .ok c ∧
      Contract.read (opening ++ types ++ custom ++ main ++ both) = .ok c' ∧
      ∀ options, c'.validate options = c.validate options := by
  intro opening main custom types both memory c c'
  have hread : Contract.read (opening ++ main ++ custom ++ types ++ both) = .ok c := by
    decide +kernel
  have hframes : (Framing.ofBytes ((opening ++ main ++ custom ++ types ++ both).drop
      Header.size)).frames =
      [⟨7, main.drop 2, main⟩, ⟨0, custom.drop 3, custom⟩, ⟨1, types.drop 2, types⟩,
        ⟨7, both.drop 2, both⟩] := by
    decide +kernel
  have hm : Module.decode (opening ++ main ++ custom ++ types ++ both) =
      .ok { sections := [.exports [⟨"main", .func, 0⟩], .custom (.raw "x" []), .types [{}],
        .exports [⟨"main", .func, 1⟩, ⟨"memory", .memory, 0⟩]] } := by
    decide +kernel
  have h := sections_may_be_rearranged hread
  dsimp only at h
  rw [hframes] at h
  obtain ⟨-, m, piece, hdecode, hpieces, -, hσ⟩ := h
  cases hm.symm.trans hdecode
  have hremainders : Section.remainders [] [.exports [⟨"main", .func, 0⟩], .custom (.raw "x" []),
      .types [{}], .exports [⟨"main", .func, 1⟩, ⟨"memory", .memory, 0⟩]] =
      [some (.exports [⟨"main", .func, 0⟩]), none, some (.types [{}]),
        some (.exports [⟨"memory", .memory, 0⟩])] := by
    decide
  rw [hremainders] at hpieces
  have hmain : Exports.encode [⟨"main", .func, 0⟩] = .ok main := by decide +kernel
  have hmemory : Exports.encode [⟨"memory", .memory, 0⟩] = .ok memory := by decide +kernel
  simp only [List.zip_cons_cons, List.zip_nil_left, List.ofFn_succ, List.ofFn_zero,
    List.forall₂_cons, IsPiece, hmain, hmemory, Except.ok.injEq] at hpieces
  obtain ⟨hfirst, hsecond, hthird, hfourth, -⟩ := hpieces
  have hlist : List.ofFn piece = [main, [], types, memory] := by
    simp only [List.ofFn_succ, List.ofFn_zero, ← hfirst, hsecond, hthird, ← hfourth]
  obtain rfl : piece = [main, [], types, memory].get :=
    List.ofFn_injective (hlist.trans (List.ofFn_get _).symm)
  exact ⟨hread, hσ (Equiv.swap 0 2) (by decide)⟩

end WasmContract
