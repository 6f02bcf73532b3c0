import WasmContract.Proofs.Command.Run
import WasmContract.Proofs.Text.Lines

/-!
# The lines of a dump

A dump should have one line for the header, one for the number of sections, and one for each section
and each item that is listed of it (`Module.dumpLength`). Numbers, kinds, types and quoted names
keep to their lines. The names of exports, of a module and of its functions are printed without
quotes (`Module.plainNames`) and bring their own line breaks (`Command.dump_line_breaks`).
-/

namespace WasmContract

open Text

/-! ### Single lines -/

theorem SectionKind.lineBreaks_name (kind : SectionKind) : lineBreaks kind.name = 0 := by
  cases kind <;> decide

theorem ExternalKind.lineBreaks_name (kind : ExternalKind) : lineBreaks kind.name = 0 := by
  cases kind <;> decide

theorem ValueType.lineBreaks_name (type : ValueType) : lineBreaks type.name = 0 := by
  cases type <;> decide

/-- Names of types have no line breaks, so a list of them has none either. -/
theorem FuncType.lineBreaks_groupText {heading : String} (h : lineBreaks heading = 0)
    (types : List ValueType) : lineBreaks (groupText heading types) = 0 := by
  have hlisted : lineBreaks (types.foldr (fun t text => " " ++ t.name ++ text) ")") = 0 := by
    induction types with
    | nil => decide
    | cons t later ih => simp +decide [ih, ValueType.lineBreaks_name]
  rw [groupText]
  split
  · decide
  · simp +decide [h, hlisted]

theorem FuncType.lineBreaks_text (t : FuncType) : lineBreaks t.text = 0 := by
  have hparams := lineBreaks_groupText (by decide : lineBreaks "param" = 0) t.params
  have hresults := lineBreaks_groupText (by decide : lineBreaks "result" = 0) t.results
  simp +decide [text, ValueType.lineBreaks_name, hparams, hresults]

namespace Section

theorem lineBreaks_headline (s : Section) : lineBreaks s.headline = 0 := by
  simp +decide [headline, SectionKind.lineBreaks_name]

theorem lineBreaks_typeLine (type : FuncType) (index : Nat) :
    lineBreaks (typeLine type index) = 0 := by
  simp +decide [typeLine, FuncType.lineBreaks_text]

/-- Both names of an import are printed in quotes, so it keeps to its line. -/
theorem lineBreaks_importLine (i : Import) : lineBreaks (importLine i) = 0 := by
  rcases i with ⟨moduleName, fieldName, desc⟩
  cases desc <;> simp +decide [importLine, ImportDesc.kind, ExternalKind.lineBreaks_name]

/-- The name of an export stands in its line as it is. -/
theorem lineBreaks_exportLine (e : Export) : lineBreaks (exportLine e) = lineBreaks e.name := by
  have hopening : lineBreaks "    export " = 0 := by decide
  have hspace : lineBreaks " " = 0 := by decide
  have hindex : lineBreaks " @" = 0 := by decide
  simp [exportLine, ExternalKind.lineBreaks_name, hopening, hspace, hindex]

/-- The names of a module and of its functions stand in their lines as they are. -/
theorem map_lineBreaks_nameLines (names : NameSection) :
    (nameLines names).map lineBreaks = (names.moduleName.toList ++
      names.functionNames.map (·.name)).map lineBreaks := by
  have hmodule : lineBreaks "    module name: " = 0 := by decide
  have hfunc : lineBreaks "    func[" = 0 := by decide
  have hcolon : lineBreaks "]: " = 0 := by decide
  simp [nameLines, Function.comp_def, hmodule, hfunc, hcolon]

/-! ### The lines of a section -/

/-- The number of items that a dump lists of a section. -/
def listed : Section → Nat
  | types entries => entries.length
  | imports entries => entries.length
  | exports entries => entries.length
  | start _ => 1
  | custom (.names names) => names.moduleName.toList.length + names.functionNames.length
  | custom (.raw _ _) => 1
  | _ => 0

/-- The names that a dump prints without quotes. -/
def plainNames : Section → List String
  | exports entries => entries.map (·.name)
  | custom (.names names) => names.moduleName.toList ++ names.functionNames.map (·.name)
  | _ => []

theorem length_itemLines (s : Section) : s.itemLines.length = s.listed := by
  rcases s with ((_ | _) | _) <;> simp [itemLines, listed, nameLines]

/-- The lines of a section have the line breaks of the names that are not quoted. -/
theorem sum_lineBreaks_itemLines (s : Section) :
    (s.itemLines.map lineBreaks).sum = (s.plainNames.map lineBreaks).sum := by
  cases s with
  | types entries =>
    refine sum_lineBreaks_eq_zero_iff.mpr fun line hline => lineBreaks_eq_zero_iff.mp ?_
    obtain ⟨index, hindex, rfl⟩ := List.mem_mapIdx.mp hline
    exact lineBreaks_typeLine entries[index] index
  | imports entries =>
    refine sum_lineBreaks_eq_zero_iff.mpr fun line hline => lineBreaks_eq_zero_iff.mp ?_
    obtain ⟨i, -, rfl⟩ := List.mem_map.mp hline
    exact lineBreaks_importLine i
  | exports entries => simp [itemLines, plainNames, Function.comp_def, lineBreaks_exportLine]
  | start function => simp +decide [itemLines, plainNames]
  | custom content =>
    cases content with
    | names names => rw [itemLines, map_lineBreaks_nameLines, plainNames]
    | raw name content => simp +decide [itemLines, plainNames]
  | _ => rfl

end Section

/-! ### The dump of a module -/

namespace Module

/-- The names that a dump prints without quotes. -/
def plainNames (m : Module) : List String := m.sections.flatMap Section.plainNames

/-- The number of lines that a dump should have: one for the header, one for the number of sections,
and one for each section and each item that is listed of it. -/
def dumpLength (m : Module) : Nat := 2 + (m.sections.map fun s => 1 + s.listed).sum

/-- A dump has the lines that it should have, before line breaks are counted. -/
theorem length_dumpLines (m : Module) : m.dumpLines.length = m.dumpLength := by
  have hsection (s : Section) : (s.headline :: s.itemLines).length = 1 + s.listed := by
    rw [List.length_cons, s.length_itemLines, Nat.add_comm]
  rw [dumpLines, List.length_cons, List.length_cons, List.length_flatMap, dumpLength]
  simp only [hsection]
  omega

/-- **The line breaks within the lines of a dump** are those of the names without quotes. -/
theorem sum_lineBreaks_dumpLines (m : Module) :
    (m.dumpLines.map lineBreaks).sum = (m.plainNames.map lineBreaks).sum := by
  have hsections : ((m.sections.flatMap fun s => s.headline :: s.itemLines).map lineBreaks).sum =
      (m.plainNames.map lineBreaks).sum := by
    rw [plainNames]
    induction m.sections with
    | nil => rfl
    | cons s later ih =>
      rw [List.flatMap_cons, List.map_append, List.sum_append, ih, List.map_cons, List.sum_cons,
        s.lineBreaks_headline, s.sum_lineBreaks_itemLines, List.flatMap_cons, List.map_append,
        List.sum_append, Nat.zero_add]
  have hmagic : lineBreaks (byteList Header.magic) = 0 := by decide
  have hheader : lineBreaks
      s!"module header: magic={byteList Header.magic} version={m.header.version.toNat}" = 0 := by
    simp +decide [hmagic]
  have hcount : lineBreaks s!"#sections: {m.sections.length}" = 0 := by simp +decide
  rw [dumpLines, List.map_cons, List.map_cons, List.sum_cons, List.sum_cons, hheader, hcount,
    hsections, Nat.zero_add, Nat.zero_add]

end Module

namespace Command

variable {d : Disk} {file : String} {content : List UInt8} {m : Module}

/-- Lines are printed behind those that there are. -/
theorem printLines_onDisk (d : Disk) (lines : List String) :
    (lines.forM fun line => (liftM (MonadFiles.printLine (m := DiskM) line) :
      ExceptT CommandError DiskM Unit)).run.run d =
      (.ok (), { d with printed := d.printed ++ lines }) := by
  induction lines generalizing d with
  | nil => rw [List.append_nil]; rfl
  | cons line later ih =>
    have hprint : (MonadFiles.printLine (m := DiskM) line).run d =
      ((), { d with printed := d.printed ++ [line] }) := rfl
    refine (run_lift_bind (MonadFiles.printLine line) _ d).trans ?_
    rw [hprint, ih, List.append_assoc, List.singleton_append]

/-- A dump prints the lines of a module, or fails and prints nothing. -/
theorem dump_onDisk (d : Disk) (file : String) : onDisk (.dump file) d =
    match d.read file with
    | .ok content =>
      match Module.decode content with
      | .ok m => (.ok (), { d with printed := d.printed ++ m.dumpLines })
      | .error cause => (.error (.decode file cause), d)
    | .error cause => (.error (.readFile file cause), d) := by
  rw [onDisk, run, runDump, contentOf_bind_onDisk]
  cases d.read file with
  | error cause => rfl
  | ok content =>
    dsimp only
    cases Module.decode content with
    | error cause => rfl
    | ok m => exact printLines_onDisk d m.dumpLines

/-- **The lines of a dump.** A dump has a line for the header, for the number of sections, and for
each section and each item listed of it, and besides these the line breaks of the names that are
printed without quotes. So the lines are all the program's own just if no export, no name of the
module and no name of a function has a line break. -/
theorem dump_line_breaks (hread : d.read file = .ok content)
    (hdecode : Module.decode content = .ok m) :
    onDisk (.dump file) d = (.ok (), { d with printed := d.printed ++ m.dumpLines }) ∧
    lineBreaks (ofLines m.dumpLines) = m.dumpLength + (m.plainNames.map lineBreaks).sum ∧
    (lineBreaks (ofLines m.dumpLines) = m.dumpLength ↔
      ∀ name ∈ m.plainNames, '\n' ∉ name.toList) := by
  have hcount : lineBreaks (ofLines m.dumpLines) =
      m.dumpLength + (m.plainNames.map lineBreaks).sum := by
    rw [lineBreaks_ofLines, m.length_dumpLines, m.sum_lineBreaks_dumpLines]
  refine ⟨?_, hcount, ?_⟩
  · rw [dump_onDisk, hread]
    dsimp only
    rw [hdecode]
  · rw [hcount, Nat.add_eq_left, sum_lineBreaks_eq_zero_iff]

/-- Of an import and an export with a line break in their names, only the export is on two lines. -/
theorem dump_line_breaks_import_and_export :
    let bytes : List UInt8 := [0x00, 0x61, 0x73, 0x6d, 0x01, 0x00, 0x00, 0x00,
      0x02, 0x09, 0x01, 0x03, 0x61, 0x0a, 0x62, 0x01, 0x66, 0x00, 0x00,
      0x07, 0x06, 0x01, 0x02, 0x67, 0x0a, 0x00, 0x00]
    let d : Disk := { files := [(["input.wasm"], bytes)] }
    let m : Module := {
      sections := [.imports [⟨"a\nb", "f", .func 0⟩], .exports [⟨"g\n", .func, 0⟩]]
    }
    d.read "input.wasm" = .ok bytes ∧ Module.decode bytes = .ok m ∧ m.dumpLength = 6 ∧
      lineBreaks (ofLines (onDisk (.dump "input.wasm") d).2.printed) = 7 := by
  intro bytes d m
  have hread : d.read "input.wasm" = .ok bytes := by decide +kernel
  have hdecode : Module.decode bytes = .ok m := by decide +kernel
  have hnames : (m.plainNames.map lineBreaks).sum = 1 := by decide +kernel
  have hlength : m.dumpLength = 6 := by decide +kernel
  obtain ⟨hrun, hcount, -⟩ := dump_line_breaks hread hdecode
  refine ⟨hread, hdecode, hlength, ?_⟩
  rw [hrun, List.nil_append, hcount, hnames, hlength]

/-- A name without quotes forges a line: the dump of this module, whose one section has one export,
has five lines and not four. -/
theorem dump_line_breaks_forged :
    let bytes : List UInt8 := [0x00, 0x61, 0x73, 0x6d, 0x01, 0x00, 0x00, 0x00,
      0x07, 0x07, 0x01, 0x03, 0x61, 0x0a, 0x62, 0x00, 0x00]
    let d : Disk := { files := [(["input.wasm"], bytes)] }
    let m : Module := { sections := [.exports [⟨"a\nb", .func, 0⟩]] }
    d.read "input.wasm" = .ok bytes ∧ Module.decode bytes = .ok m ∧ m.dumpLength = 4 ∧
      lineBreaks (ofLines (onDisk (.dump "input.wasm") d).2.printed) = 5 := by
  decide +kernel

end Command

end WasmContract
