import ResourceTables.CommandLine

/-!
# Footprints

The paths that a run looks at, as far as a tree shows them. A run on a tree that lacks some of these
files needs them; with them in the tree the next footprint may show more, because a manifest names
definitions, definitions name data, and the output of a definition is known when its data is.

## Main definitions

* `Manifest.candidates`: the files that a manifest may be in.
* `Document.dataPaths`: the files and directories that a definition names.
* `Invocation.footprint`: the paths that an invocation looks at.
-/

namespace ResourceTables

/-- The files that a manifest may be in: the path itself, or the path with an extension. -/
def Manifest.candidates (path : Path) : List Path :=
  let extended :=
    match path.steps.getLast? with
    | some (_, length) =>
      ["toml", "json"].map fun name => (⟨(path.upTo length).text ++ "." ++ name⟩ : Path)
    | none => []
  path :: extended

/-- The files and directories that a definition may name: the texts where data is expected, taken
relative to the directory of the definition. -/
def Document.dataPaths (document : Document) : List Path :=
  let versions :=
    match document.get? "versions" with
    | some (.map entries) => entries.map (·.2)
    | _ => []
  ((document.get? "data").toList ++ versions).filterMap fun value =>
    match value with
    | .string text => some ((directoryOf document.file).join ⟨text⟩)
    | _ => none

/-- The definitions that an invocation compiles. -/
def Invocation.units (invocation : Invocation) (manifest : Manifest) : List (Path × Mode) :=
  match invocation.command with
  | .inspect definition mode => [(definition, mode)]
  | _ => manifest.units

/-- The paths that an invocation looks at, as far as a tree shows them. -/
def Invocation.footprint (invocation : Invocation) (environment : Environment) (tree : Tree) :
    List Path :=
  let candidates := Manifest.candidates invocation.manifest
  match Manifest.load tree environment invocation.manifest with
  | .error _ => candidates
  | .ok manifest =>
    let compiler := Compiler.ofManifest manifest
    candidates ++ (invocation.units manifest).flatMap fun (definition, mode) =>
      let file := compiler.configuration.resolve definition
      let dataPaths :=
        match Document.read tree file with
        | .ok document => document.dataPaths
        | .error _ => []
      let outputs :=
        match compiler.compileUnit tree definition mode with
        | .ok unit => [unit.output]
        | .error _ => []
      file :: dataPaths ++ outputs

end ResourceTables
