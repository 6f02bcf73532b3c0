import Mathlib.Data.List.Basic
import WasmContract.Command.Disk
import WasmContract.Proofs.Except

/-!
# Places on a disk

Where paths lead and what writing a file changes. A path to a file that can be read ends in the name
of that file (`Disk.WellFormed.exists_name_of_read`), and behind a directory's path that name leads
to a place in the directory (`Disk.resolve_join`). A file that is written is the only thing that
changes (`Disk.put`).
-/

namespace WasmContract

/-! ### The components of a path -/

namespace Path

variable {path component directory name : String}

/-- What stands between two separators has no separator, and its items are items of the whole. -/
theorem mem_of_mem_splitOn {α : Type} [BEq α] [LawfulBEq α] {separator x : α} {xs part : List α}
    (h : part ∈ xs.splitOn separator) (hx : x ∈ part) : x ∈ xs ∧ x ≠ separator := by
  induction xs generalizing part with
  | nil =>
    rw [List.splitOn_nil, List.mem_singleton] at h
    subst h
    cases hx
  | cons y later ih =>
    rw [List.splitOn_cons_eq_if_modifyHead] at h
    obtain ⟨first, others, hsplit⟩ :=
      List.exists_cons_of_ne_nil (List.splitOn_ne_nil separator later)
    have hlater : ∀ part ∈ first :: others, x ∈ part → x ∈ y :: later ∧ x ≠ separator :=
      fun part hpart hx =>
        have := ih (hsplit ▸ hpart) hx
        ⟨List.mem_cons_of_mem y this.1, this.2⟩
    rw [hsplit] at h
    split at h
    case isTrue =>
      rcases List.mem_cons.mp h with rfl | h
      · cases hx
      · exact hlater part h hx
    case isFalse hy =>
      rcases List.mem_cons.mp h with rfl | h
      · rcases List.mem_cons.mp hx with rfl | hx
        · exact ⟨List.mem_cons_self, fun h => hy (beq_iff_eq.mpr h)⟩
        · exact hlater first List.mem_cons_self hx
      · exact hlater part (List.mem_cons_of_mem first h) hx

/-- The characters of a component are those of the path, slashes apart. -/
theorem mem_of_mem_components (h : component ∈ components path) {c : Char}
    (hc : c ∈ component.toList) : c ∈ path.toList ∧ c ≠ '/' := by
  obtain ⟨part, hpart, rfl⟩ := List.mem_map.mp h
  rw [String.toList_ofList] at hc
  exact mem_of_mem_splitOn hpart hc

theorem components_ne_nil (path : String) : components path ≠ [] :=
  fun h => List.splitOn_ne_nil '/' path.toList (List.map_eq_nil_iff.mp h)

/-- A text can be the name of a file. -/
structure IsName (name : String) : Prop where
  /-- It does not go on to another component. -/
  slash : '/' ∉ name.toList
  /-- It can stand in a path. -/
  nul : '\x00' ∉ name.toList
  /-- It is a step. -/
  ne_empty : name ≠ ""
  /-- It is a step away. -/
  ne_dot : name ≠ "."
  /-- It is a step down. -/
  ne_dots : name ≠ ".."
  /-- It is not too long. -/
  size : name.utf8ByteSize ≤ maxComponentSize

theorem components_of_slash_notMem (h : '/' ∉ name.toList) : components name = [name] := by
  rw [components, List.splitOn_eq_singleton h, List.map_singleton, String.ofList_toList]

/-- A file's path behind a directory's path. Where the directory's path ends in a slash, the blank
component behind it is replaced. -/
theorem components_join (directory : String) (h : '/' ∉ name.toList) :
    ∃ above, (components directory = above ∨ components directory = above ++ [""]) ∧
      components (join directory name) = above ++ [name] := by
  have hname := components_of_slash_notMem h
  rw [join]
  split
  case isTrue hslash =>
    obtain ⟨front, hfront⟩ := List.getLast?_eq_some_iff.mp hslash
    refine ⟨(front.splitOn '/').map String.ofList, .inr ?_, ?_⟩
    · rw [components, hfront, List.splitOn_append_cons_self, List.map_append]
      rfl
    · rw [components, String.toList_append, hfront, List.append_assoc, List.singleton_append,
        List.splitOn_append_cons_self, List.map_append, ← components, hname]
  case isFalse =>
    refine ⟨components directory, .inl rfl, ?_⟩
    have hslash : (directory ++ "/" ++ name).toList = directory.toList ++ '/' :: name.toList := by
      rw [String.toList_append, String.toList_append, List.append_assoc]
      rfl
    rw [components, hslash, List.splitOn_append_cons_self, List.map_append, ← components,
      ← components, hname]

theorem isAbsolute_join (h : directory ≠ "") (name : String) :
    IsAbsolute (join directory name) ↔ IsAbsolute directory := by
  have hdirectory : directory.toList ≠ [] := by simpa using h
  obtain ⟨c, later, hc⟩ := List.exists_cons_of_ne_nil hdirectory
  rw [IsAbsolute, IsAbsolute, join]
  split <;> simp [hc]

theorem nul_notMem_join (hdirectory : '\x00' ∉ directory.toList) (hname : '\x00' ∉ name.toList) :
    '\x00' ∉ (join directory name).toList := by
  rw [join]
  split <;> simp [hdirectory, hname]

end Path

/-! ### Following a path -/

namespace Disk

variable {d : Disk} {path file out name : String} {place above dir : List String}
  {content : List UInt8}

/-- The directories of a disk make up a tree, whose files are other places than its directories. -/
structure WellFormed (d : Disk) : Prop where
  /-- What is above a directory is one. -/
  above : ∀ place, d.IsDirectory place → d.IsDirectory place.dropLast
  /-- A directory is no file. -/
  apart : ∀ place, d.IsDirectory place → d.file? place = none

/-- To be a tree is a matter of the directories that are listed, and of the root. -/
theorem wellFormed_iff : d.WellFormed ↔
    ∀ place ∈ [] :: d.directories, d.IsDirectory place.dropLast ∧ d.file? place = none := by
  simp only [List.mem_cons]
  exact ⟨fun h place hplace => ⟨h.above place hplace, h.apart place hplace⟩,
    fun h => ⟨fun place hplace => (h place hplace).1, fun place hplace => (h place hplace).2⟩⟩

instance (d : Disk) : Decidable d.WellFormed := decidable_of_iff _ wellFormed_iff.symm

/-- **Following a path** is following its first steps and then the others. -/
theorem follow_append (place steps later : List String) :
    d.follow place (steps ++ later) = (d.follow place steps).bind (d.follow · later) := by
  induction steps generalizing place with
  | nil => rfl
  | cons step others ih =>
    simp only [List.cons_append, follow, ih]
    repeat' split
    all_goals rfl

/-- A blank component before a step changes nothing. -/
theorem follow_blank_cons (place : List String) (step : String) (later : List String) :
    d.follow place ("" :: step :: later) = d.follow place (step :: later) := by
  simp only [follow, true_or, if_true]
  split <;> rfl

/-- A name leads from a directory to the place of that name in it, be there anything or not. -/
theorem follow_name (h : Path.IsName name) (hplace : d.IsDirectory place) :
    d.follow place [name] = .ok (place ++ [name]) := by
  have hblank : ¬(name = "" ∨ name = ".") := not_or.mpr ⟨h.ne_empty, h.ne_dot⟩
  rw [follow, if_pos hplace, if_neg hblank, if_neg h.ne_dots, if_neg (Nat.not_lt.mpr h.size)]
  rfl

/-- A step leads from a directory to another directory or, by a name, to a place below. -/
theorem WellFormed.step_cases (hd : d.WellFormed) (h : d.follow above [name] = .ok place) :
    d.IsDirectory place ∨ place = above ++ [name] ∧ name ≠ "" ∧ name ≠ "." ∧ name ≠ ".." ∧
      name.utf8ByteSize ≤ Path.maxComponentSize := by
  rw [follow] at h
  split at h
  case isTrue habove =>
    split at h
    case isTrue =>
      cases h
      exact .inl habove
    case isFalse hblank =>
      split at h
      case isTrue =>
        cases h
        exact .inl (hd.above above habove)
      case isFalse hdots =>
        split at h
        case isTrue => cases h
        case isFalse hsize =>
          cases h
          obtain ⟨hempty, hdot⟩ := not_or.mp hblank
          exact .inr ⟨rfl, hempty, hdot, hdots, Nat.not_lt.mp hsize⟩
  case isFalse =>
    split at h <;> cases h

/-- The place at which a path starts. -/
def start (d : Disk) (path : String) : List String :=
  if Path.IsAbsolute path then [] else d.workingDirectory

/-- Resolving a path checks the path, and then follows its components. -/
theorem resolve_eq (d : Disk) (path : String) : d.resolve path =
    if '\x00' ∈ path.toList then .error .nulInPath
    else if Path.maxSize < path.utf8ByteSize then .error .nameTooLong
    else d.follow (d.start path) (Path.components path) := by
  rw [resolve, start]
  rfl

/-- A path leads to a place if it can be passed on and its components can be followed. -/
theorem resolve_eq_ok_iff : d.resolve path = .ok place ↔
    '\x00' ∉ path.toList ∧ path.utf8ByteSize ≤ Path.maxSize ∧
      d.follow (d.start path) (Path.components path) = .ok place := by
  rw [resolve_eq]
  split
  case isTrue hnul => exact iff_of_false nofun fun h => h.1 hnul
  case isFalse hnul =>
    split
    case isTrue hsize => exact iff_of_false nofun fun h => Nat.not_le.mpr hsize h.2.1
    case isFalse hsize => exact ⟨fun h => ⟨hnul, Nat.not_lt.mp hsize, h⟩, fun h => h.2.2⟩

theorem read_eq_ok_iff : d.read path = .ok content ↔
    ∃ place, d.resolve path = .ok place ∧ d.file? place = some content := by
  refine Except.bind_eq_ok_iff.trans (exists_congr fun place => and_congr_right fun _ => ?_)
  cases d.file? place with
  | some found => 
    exact ⟨fun h => congrArg some (Except.ok.inj h), fun h => congrArg _ (Option.some.inj h)⟩
  | none =>
    dsimp only
    split <;> exact iff_of_false nofun nofun

/-- **The name of a file.** A path to a file that can be read ends in a name, and so does the place
of the file. -/
theorem WellFormed.exists_name_of_read (hd : d.WellFormed) (h : d.read file = .ok content) :
    ∃ above name, Path.IsName name ∧ Path.fileName? file = some name ∧
      d.resolve file = .ok (above ++ [name]) := by
  obtain ⟨place, hresolve, hplace⟩ := read_eq_ok_iff.mp h
  obtain ⟨hnul, -, hfollow⟩ := resolve_eq_ok_iff.mp hresolve
  obtain ⟨front, name, hcomponents⟩ :=
    (List.eq_nil_or_concat' _).resolve_left (Path.components_ne_nil file)
  rw [hcomponents, follow_append] at hfollow
  obtain ⟨above, -, hlast⟩ := Except.bind_eq_ok_iff.mp hfollow
  have hname : name ∈ Path.components file := hcomponents ▸ List.mem_append_right front (.head [])
  rcases hd.step_cases hlast with hdirectory | ⟨rfl, hempty, hdot, hdots, hsize⟩
  · -- a directory is no file that could have been read
    cases (hd.apart place hdirectory).symm.trans hplace
  · refine ⟨above, name, ⟨?_, ?_, hempty, hdot, hdots, hsize⟩, ?_, hresolve⟩
    · exact fun h => (Path.mem_of_mem_components hname h).2 rfl
    · exact fun h => hnul (Path.mem_of_mem_components hname h).1
    · have hfilter : [name].filter (fun c => c ≠ "" ∧ c ≠ ".") = [name] := by
        simp [hempty, hdot]
      rw [Path.fileName?, hcomponents, List.filter_append, hfilter, List.getLast?_concat]
      split
      case h_1 h => exact absurd (Option.some.inj h) hdots
      case h_2 => rfl

/-- A name behind a path to a directory leads to a place in the directory. -/
theorem resolve_join (hout : out ≠ "") (hresolve : d.resolve out = .ok dir)
    (hdir : d.IsDirectory dir) (hname : Path.IsName name)
    (hsize : (Path.join out name).utf8ByteSize ≤ Path.maxSize) :
    d.resolve (Path.join out name) = .ok (dir ++ [name]) := by
  obtain ⟨hnul, -, hfollow⟩ := resolve_eq_ok_iff.mp hresolve
  refine resolve_eq_ok_iff.mpr ⟨Path.nul_notMem_join hnul hname.nul, hsize, ?_⟩
  have hstart : d.start (Path.join out name) = d.start out :=
    by simp only [start, Path.isAbsolute_join hout name]
  obtain ⟨above, hout, hjoin⟩ := Path.components_join out hname.slash
  have hbehind : d.follow (d.start out) (Path.components out ++ [name]) =
      d.follow (d.start out) (above ++ [name]) := by
    rcases hout with h | h
    · rw [h]
    · rw [h, List.append_assoc, follow_append, follow_append]
      exact congrArg _ (funext fun place => follow_blank_cons place name [])
  rw [hstart, hjoin, ← hbehind, follow_append, hfollow]
  exact follow_name hname hdir

/-! ### Writing a file -/

/-- The disk after the file at a place has been given a content. -/
def put (d : Disk) (place : List String) (content : List UInt8) : Disk :=
  { d with files := (place, content) :: d.files.filter fun file => file.1 ≠ place }

/-- Writing to a place that is no directory puts a file there. -/
theorem write_eq (hresolve : d.resolve path = .ok place) (hplace : ¬d.IsDirectory place)
    (content : List UInt8) : d.write path content = .ok (d.put place content) := by
  rw [write, hresolve]
  exact if_neg hplace

/-- A write fails, or gives the file at some place a content. -/
theorem write_cases (d : Disk) (path : String) (content : List UInt8) :
    (∃ cause, d.write path content = .error cause) ∨
      ∃ place, ¬d.IsDirectory place ∧ d.write path content = .ok (d.put place content) := by
  cases hresolve : d.resolve path with
  | error cause =>
    left
    refine ⟨cause, ?_⟩
    rw [write, hresolve]
    rfl
  | ok place =>
    by_cases hplace : d.IsDirectory place
    · left
      refine ⟨.isDirectory, ?_⟩
      rw [write, hresolve]
      exact if_pos hplace
    · exact .inr ⟨place, hplace, write_eq hresolve hplace content⟩

theorem lookup_filter_ne {other : List String} (h : other ≠ place)
    (files : List (List String × List UInt8)) :
    (files.filter fun file => file.1 ≠ place).lookup other = files.lookup other := by
  induction files with
  | nil => rfl
  | cons file later ih =>
    by_cases hfile : file.1 = place
    · rw [List.filter_cons_of_neg (by simpa using hfile), ih, List.lookup_cons,
        beq_false_of_ne (hfile ▸ h)]
    · rw [List.filter_cons_of_pos (by simpa using hfile), List.lookup_cons, List.lookup_cons, ih]

/-- The content that was put is there, and all other files are as before. -/
theorem file?_put (d : Disk) (place : List String) (content : List UInt8) (other : List String) :
    (d.put place content).file? other = if other = place then some content else d.file? other := by
  rw [file?, put, List.lookup_cons]
  split
  case h_1 h => rw [if_pos (beq_iff_eq.mp h)]
  case h_2 h =>
    have hother : other ≠ place := beq_eq_false_iff_ne.mp h
    rw [if_neg hother, lookup_filter_ne hother, file?]

/-- A file that is no directory leaves the tree of directories as it is. -/
theorem WellFormed.put (hd : d.WellFormed) (hplace : ¬d.IsDirectory place)
    (content : List UInt8) : (d.put place content).WellFormed where
  above := hd.above
  apart other hother := by
    have hne : other ≠ place := fun h => hplace (h ▸ hother)
    rw [file?_put, if_neg hne]
    exact hd.apart other hother

/-- The files below a place with their contents, each under the names that lead to it from there. -/
def filesBelow (d : Disk) (place : List String) : List (List String × List UInt8) :=
  d.files.filterMap fun file => (place.isPrefixOf? file.1).map (·, file.2)

/-- There is nothing below a place. -/
structure EmptyAt (d : Disk) (place : List String) : Prop where
  /-- There are no files. -/
  files : d.filesBelow place = []
  /-- There are no directories. -/
  directories : ∀ steps, d.IsDirectory (place ++ steps) → steps = []

/-- A file that is written below an empty place is the only file there. -/
theorem EmptyAt.filesBelow_put (h : d.EmptyAt place) (name : String) (content : List UInt8) :
    (d.put (place ++ [name]) content).filesBelow place = [([name], content)] := by
  have hnew : place.isPrefixOf? (place ++ [name]) = some [name] :=
    List.isPrefixOf?_eq_some_iff_append_eq.mpr rfl
  have hold : ∀ file ∈ d.files, (place.isPrefixOf? file.1).map (·, file.2) = none :=
    List.filterMap_eq_nil_iff.mp h.files
  have hothers : (d.files.filter fun file => file.1 ≠ place ++ [name]).filterMap
      (fun file => (place.isPrefixOf? file.1).map (·, file.2)) = [] :=
    List.filterMap_eq_nil_iff.mpr fun file hfile => hold file (List.mem_of_mem_filter hfile)
  rw [filesBelow, put, List.filterMap_cons, hothers, hnew]
  rfl

/-- There is a directory that can take a file of the same name as a given file. -/
structure Accepts (d : Disk) (file out : String) (dir : List String) : Prop where
  /-- Its path leads to a place. -/
  resolve : d.resolve out = .ok dir
  /-- There is a directory at this place. -/
  isDirectory : d.IsDirectory dir
  /-- The name is not taken by another directory. -/
  free : ∀ name, Path.fileName? file = some name → ¬d.IsDirectory (dir ++ [name])
  /-- The path of the new file is not too long. -/
  size : ∀ name, Path.fileName? file = some name →
    (Path.join out name).utf8ByteSize ≤ Path.maxSize

/-- A directory that accepts the file takes it under its name. -/
theorem Accepts.write (h : d.Accepts file out dir) (hout : out ≠ "") (hname : Path.IsName name)
    (hfile : Path.fileName? file = some name) (content : List UInt8) :
    d.write (Path.join out name) content = .ok (d.put (dir ++ [name]) content) :=
  write_eq (resolve_join hout h.resolve h.isDirectory hname (h.size name hfile)) (h.free name hfile)
    content

end Disk

end WasmContract
