import WasmContract.Command.Arguments
import WasmContract.Proofs.Except

/-!
# Parsed commands

A command that has been parsed has no empty path (`Command.empty_notMem_paths_of_parse`).
`Progress.Named` says so of the values that have been checked in the middle of the arguments: one
argument preserves it (`Progress.Named.of_take`), and so do all of them
(`Progress.Named.of_foldlM`).
-/

namespace WasmContract.Command

variable {p q : Progress} {verb : Verb} {command : Command} {value : Option String}
  {text name path : String} {arguments : List String}

namespace Progress

/-- No value that has been checked is empty. -/
structure Named (p : Progress) : Prop where
  /-- The file is not. -/
  file : p.file ≠ some ""
  /-- The value of `--out` is not. -/
  out : p.out ≠ some ""

/-- What is pending is checked before it is taken, so nothing empty is. -/
theorem Named.of_settle (hp : p.Named) (h : p.settle = .ok q) : q.Named := by
  rcases hpending : p.pending with _ | path | _ | path <;> simp only [settle, hpending] at h
  · cases h
    exact ⟨hp.file, hp.out⟩
  · split at h
    case isTrue => cases h
    case isFalse hpath =>
      cases h
      exact ⟨fun h => hpath (Option.some.inj h), hp.out⟩
  · cases h
  · split at h
    case isTrue => cases h
    case isFalse =>
      split at h
      case isTrue => cases h
      case isFalse hpath =>
        cases h
        exact ⟨hp.file, fun h => hpath (Option.some.inj h)⟩

/-- A file that is found is left pending, and only what was pending before it is taken. -/
theorem Named.of_takeFile (hp : p.Named) (h : p.takeFile path = .ok q) : q.Named := by
  unfold takeFile at h
  split at h
  case isTrue => cases h
  case isFalse =>
    obtain ⟨settled, hsettle, hq⟩ := Except.bind_eq_ok_iff.mp h
    cases hq
    exact ⟨(hp.of_settle hsettle).file, (hp.of_settle hsettle).out⟩

/-- An option takes what was pending before it, and a value of its own if this stands behind `=`. -/
theorem Named.of_takeOption (hp : p.Named) (h : p.takeOption verb name value = .ok q) :
    q.Named := by
  unfold takeOption at h
  split at h
  case h_1 =>
    -- a request for help is never an interim result
    split at h
    case isTrue => cases h
    case isFalse =>
      obtain ⟨-, -, h⟩ := Except.bind_eq_ok_iff.mp h
      cases h
  case h_2 =>
    split at h
    case isTrue => cases h
    case isFalse =>
      obtain ⟨settled, hsettle, h⟩ := Except.bind_eq_ok_iff.mp h
      split at h
      case isTrue => cases h
      case isFalse =>
        cases h
        exact ⟨(hp.of_settle hsettle).file, (hp.of_settle hsettle).out⟩
  case h_3 =>
    obtain ⟨settled, hsettle, h⟩ := Except.bind_eq_ok_iff.mp h
    have hsettled := hp.of_settle hsettle
    have hnext : Named { settled with pending := some (.out value) } :=
      ⟨hsettled.file, hsettled.out⟩
    split at h
    case isTrue => exact hnext.of_settle h
    case isFalse =>
      cases h
      exact hnext
  case h_4 => cases h

/-- One argument leaves no empty value behind. -/
theorem Named.of_take (hp : p.Named) (h : p.take verb text = .ok q) : q.Named := by
  unfold take at h
  split at h
  case isTrue => exact hp.of_takeFile h
  case isFalse =>
    split at h
    case h_1 =>
      cases h
      exact ⟨hp.file, hp.out⟩
    case h_2 => exact hp.of_takeOption h
    case h_3 => exact hp.of_takeOption h
    case h_4 => cases h
    case h_5 =>
      split at h
      case isTrue =>
        cases h
        exact ⟨hp.file, hp.out⟩
      case isFalse => exact hp.of_takeFile h

theorem Named.of_foldlM (hp : p.Named) (h : arguments.foldlM (take verb) p = .ok q) : q.Named := by
  induction arguments generalizing p with
  | nil =>
    cases h
    exact hp
  | cons text later ih =>
    rw [List.foldlM_cons] at h
    obtain ⟨next, hnext, hlater⟩ := Except.bind_eq_ok_iff.mp h
    exact ih (hp.of_take hnext) hlater

end Progress

/-- The paths that a command is given. -/
def paths : Command → List String
  | dump file => [file]
  | validate file out _ => [file, out]

/-- A command has the paths that were checked, or the default for `--out`. -/
theorem Progress.Named.empty_notMem_paths (hp : p.Named) (h : p.finish verb = .ok command) :
    "" ∉ command.paths := by
  obtain ⟨settled, hsettle, h⟩ := Except.bind_eq_ok_iff.mp h
  have hsettled := hp.of_settle hsettle
  rcases hfile : settled.file with _ | file <;> simp only [hfile] at h
  · cases h
  · have hfile' : "" ≠ file := fun h => hsettled.file (by rw [hfile, h])
    cases verb with
    | dump =>
      cases h
      exact List.not_mem_cons_of_ne_of_not_mem hfile' List.not_mem_nil
    | validate =>
      cases h
      have hout : "" ≠ settled.out.getD defaultOut := by
        intro h
        rcases hout : settled.out with _ | out <;> rw [hout] at h
        · exact absurd h (by decide)
        · exact hsettled.out (hout.trans (congrArg some h.symm))
      exact List.not_mem_cons_of_ne_of_not_mem hfile'
        (List.not_mem_cons_of_ne_of_not_mem hout List.not_mem_nil)

theorem empty_notMem_paths_of_parseArguments (h : parseArguments verb arguments = .ok command) :
    "" ∉ command.paths := by
  obtain ⟨progress, hprogress, hfinish⟩ := Except.bind_eq_ok_iff.mp h
  have hstart : ({} : Progress).Named := ⟨nofun, nofun⟩
  exact (hstart.of_foldlM hprogress).empty_notMem_paths hfinish

/-- **A parsed command has no empty path**, neither a file nor a directory. -/
theorem empty_notMem_paths_of_parse (h : parse arguments = .ok command) :
    "" ∉ command.paths := by
  unfold parse at h
  split at h
  case h_1 => cases h
  case h_2 first later =>
    split at h
    case h_1 =>
      split at h
      case h_1 => cases h
      case h_2 => split at h <;> cases h
    case h_7 =>
      -- only the names of the two commands are followed by arguments
      split at h
      case h_1 => exact empty_notMem_paths_of_parseArguments h
      case h_2 => exact empty_notMem_paths_of_parseArguments h
      case h_3 => cases h
      case h_4 => cases h
    all_goals cases h

end WasmContract.Command
