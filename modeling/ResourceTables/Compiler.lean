import ResourceTables.Definition.Loading
import ResourceTables.GeneratedModule.Rendering
import ResourceTables.Manifest

/-!
# Compiling definitions

A compiler takes a definition file to the description of a module, and a description to a file below
the output directory. It changes nothing.

## Main definitions

* `Compiler`: a configuration, naming decisions and a writer.
* `Compiler.describeFile`: the module of a definition file.
* `RenderedUnit`: a generated file that is not written yet.
* `Compiler.compileUnit`: the generated file of a definition file.
-/

namespace ResourceTables

/-- What definitions are compiled with. -/
structure Compiler where
  configuration : Configuration
  naming : Naming
  writer : Writer := .source

/-- A generated file that is not written yet. -/
structure RenderedUnit where
  definition : Path
  output : Path
  content : String
deriving DecidableEq

namespace Compiler

/-- The compiler of a run. -/
def ofManifest (manifest : Manifest) : Compiler where
  configuration := manifest.configuration
  naming := manifest.naming

/-- What definitions are loaded with. -/
def loading (compiler : Compiler) (tree : Tree) : Loading where
  naming := compiler.naming
  namespaceRoot := compiler.configuration.namespaceSegments
  tree := tree

/-- The module of a definition file. -/
def describeFile (compiler : Compiler) (tree : Tree) (path : Path) (mode : Mode) :
    Checked GeneratedModule := do
  let file := compiler.configuration.resolve path
  describe compiler.naming (← loadDefinition (compiler.loading tree) file mode)

/-- The generated file of a module. -/
def renderUnit (compiler : Compiler) (definition : Path) (generated : GeneratedModule) :
    RenderedUnit where
  definition := definition
  output := compiler.configuration.outputDirectory.join (compiler.writer.relativePath generated)
  content := compiler.writer.content generated

/-- The generated file of a definition file. -/
def compileUnit (compiler : Compiler) (tree : Tree) (path : Path) (mode : Mode) :
    Checked RenderedUnit := do
  return compiler.renderUnit path (← compiler.describeFile tree path mode)

end Compiler

end ResourceTables
