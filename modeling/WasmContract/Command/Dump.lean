import WasmContract.Module.Basic

/-!
# Dumps

The summary of a module that the `dump` command prints: one line for the header, one for the number
of sections, and for each section one line followed by a line for each listed item. Names of imports
and of uninterpreted custom sections are quoted; names of exports and of functions are not.
-/

namespace WasmContract

namespace Section

/-- The line that names a section. -/
def headline (s : Section) : String :=
  s!"section: {Text.column 2 s.kind.code.toNat} ({s.kind.name}) {s.size} entries"

/-- The line of a function type, given its index. -/
def typeLine (type : FuncType) (index : Nat) : String := s!"    type[{index}]: {type.text}"

/-- The line of an import. -/
def importLine (i : Import) : String :=
  let desc :=
    match i.desc with
    | .func typeIndex => s!"type {typeIndex.toNat}"
    | other => other.kind.name
  s!"    import {Text.quoted i.moduleName}.{Text.quoted i.fieldName} {desc}"

/-- The line of an export. -/
def exportLine (e : Export) : String := s!"    export {e.name} {e.kind.name} @{e.index.toNat}"

/-- The lines of a name section. -/
def nameLines (names : NameSection) : List String :=
  names.moduleName.toList.map (fun name => s!"    module name: {name}") ++
    names.functionNames.map fun f => s!"    func[{f.index.toNat}]: {f.name}"

/-- The lines for the items that a dump lists of a section. -/
def itemLines : Section → List String
  | types entries => entries.mapIdx fun index type => typeLine type index
  | imports entries => entries.map importLine
  | exports entries => entries.map exportLine
  | start function => [s!"    start: {function.toNat}"]
  | custom (.names names) => nameLines names
  | custom (.raw name content) =>
    [s!"    name: {Text.quoted name}, size: {content.length}"]
  | _ => []

end Section

/-- The lines of the dump of a module. -/
def Module.dumpLines (m : Module) : List String :=
  s!"module header: magic={Text.byteList Header.magic} version={m.header.version.toNat}" ::
    s!"#sections: {m.sections.length}" ::
    m.sections.flatMap fun s => s.headline :: s.itemLines

end WasmContract
