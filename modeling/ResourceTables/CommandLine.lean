import ResourceTables.Checking
import ResourceTables.Document.Json.Printer
import ResourceTables.GeneratedModule.Value

/-!
# The command line

The arguments of a run and what it prints. Options stand before the command they belong to or after
its name; after `--` everything is an operand.

## Main definitions

* `Command`, `Invocation`: what is asked for.
* `Invocation.ofArguments?`: the meaning of arguments, if they have one.
* `Report`: what a run prints and the code it ends with.
* `Invocation.run`: carries an invocation out.
* `runArguments`: carries arguments out.
-/

namespace ResourceTables

/-- What is asked for. -/
inductive Command where
  | generate
  | check
  | inspect (definition : Path) (mode : Mode)
deriving DecidableEq

/-- A command on a manifest. -/
structure Invocation where
  manifest : Path
  verbose : Bool
  command : Command
deriving DecidableEq

namespace Invocation

/-- An argument that is written as an option. -/
def isOption (argument : String) : Bool :=
  argument.toList.head? = some '-' && argument != "-"

/-- The mode with a name. -/
def modeOfName? (name : String) : Option Mode :=
  [Mode.constants, .values].find? fun mode => mode.name = name

/-- Operands and options of `inspect`: at most one definition, and at most one mode. -/
structure InspectArguments where
  definition? : Option String := none
  mode? : Option Mode := none

/-- Takes a definition down. -/
def InspectArguments.withDefinition? (given : InspectArguments) (definition : String) :
    Option InspectArguments :=
  if given.definition?.isSome ∨ definition = "" then none
  else some { given with definition? := some definition }

/-- Takes a mode down. -/
def InspectArguments.withMode? (given : InspectArguments) (name : String) :
    Option InspectArguments :=
  if given.mode?.isSome then none
  else (modeOfName? name).map fun mode => { given with mode? := some mode }

/-- The value that is written in one argument with the name of the mode option. -/
def attachedMode? (argument : String) : Option String :=
  match Text.afterStart? "--mode=".toList argument.toList with
  | some value => some (String.ofList value)
  | none =>
    match argument.toList with
    | '-' :: 'm' :: '=' :: value => some (String.ofList value)
    | '-' :: 'm' :: c :: value => some (String.ofList (c :: value))
    | _ => none

/-- The arguments of `inspect`. The flag tells that `--` has been passed. -/
def inspectArguments? (given : InspectArguments) : Bool → List String → Option InspectArguments
  | _, [] => some given
  | true, argument :: rest => do
    inspectArguments? (← given.withDefinition? argument) true rest
  | false, [argument] =>
    if argument = "--" then some given
    else if isOption argument then (attachedMode? argument).bind given.withMode?
    else given.withDefinition? argument
  | false, argument :: value :: rest =>
    if argument = "--" then inspectArguments? given true (value :: rest)
    else if argument = "--mode" ∨ argument = "-m" then
      if isOption value then none
      else do inspectArguments? (← given.withMode? value) false rest
    else if isOption argument then do
      inspectArguments? (← (attachedMode? argument).bind given.withMode?) false (value :: rest)
    else do
      inspectArguments? (← given.withDefinition? argument) false (value :: rest)

/-- The command that a name and the arguments after it ask for. -/
def command? (name : String) (arguments : List String) : Option Command :=
  match name with
  | "generate" => if arguments = [] ∨ arguments = ["--"] then some .generate else none
  | "check" => if arguments = [] ∨ arguments = ["--"] then some .check else none
  | "inspect" => do
    let given ← inspectArguments? {} false arguments
    return .inspect ⟨← given.definition?⟩ (given.mode?.getD .values)
  | _ => none

/-- The names of the commands. -/
def commandNames : List String := ["generate", "check", "inspect"]

/-- The meaning of arguments, given what is known from earlier ones. -/
def ofArgumentsFrom? (manifest? : Option String) (verbose : Bool) :
    List String → Option Invocation
  | [] => none
  | argument :: rest =>
    if commandNames.contains argument then do
      return ⟨⟨← manifest?⟩, verbose, ← command? argument rest⟩
    else if argument = "-v" ∨ argument = "--verbose" then
      if verbose then none else ofArgumentsFrom? manifest? true rest
    else if isOption argument ∨ argument = "" ∨ manifest?.isSome then none
    else ofArgumentsFrom? (some argument) verbose rest

/-- The meaning of arguments, if they have one. -/
def ofArguments? (arguments : List String) : Option Invocation :=
  ofArgumentsFrom? none false arguments

end Invocation

/-- What a run prints and the code it ends with. -/
structure Report where
  exitCode : Nat
  output : List String := []
  errors : List String := []
deriving DecidableEq

/-- The line about a definition that failed. -/
def Failure.line (failure : Failure) : String :=
  "failed " ++ failure.definition.text ++ " (" ++ failure.mode.name ++ "): " ++
    failure.fault.message

/-- The name of a kind of drift. -/
def DriftKind.name : DriftKind → String
  | .missing => "Missing"
  | .stale => "Stale"
  | .handEdited => "HandEdited"

/-- What is printed about a file that is out of date. -/
def Drift.lines (drift : Drift) (verbose : Bool) : List String :=
  (drift.kind.name ++ ": " ++ drift.output.text ++ " (+" ++ toString drift.insertions ++ " -" ++
      toString drift.deletions ++ ")") ::
    (if verbose then [drift.difference] else [])

/-- The wording of a fault that ends a run: the reason for a refused step on the tree is told
twice. -/
def Fault.chain (fault : Fault) : String :=
  match fault with
  | .tree _ cause => fault.message ++ ": " ++ cause.message
  | _ => fault.message

/-- What is printed about a fault that ends a run. -/
def Report.ofFault (fault : Fault) : Report where
  exitCode := 1
  errors := ["Error: " ++ fault.chain]

/-- What is printed about a run. -/
def RunReport.report (report : RunReport) : Report where
  exitCode := if report.isSuccess then 0 else 1
  output := report.written.map (fun path => "wrote " ++ path.text) ++
    [toString report.written.length ++ " written, " ++ toString report.unchanged.length ++
      " unchanged, " ++ toString report.failures.length ++ " failed"]
  errors := report.failures.map Failure.line

/-- What is printed about a check. -/
def CheckReport.report (report : CheckReport) (verbose : Bool) : Report where
  exitCode := if report.isClean then 0 else 1
  output := report.drift.flatMap (fun drift => drift.lines verbose) ++
    (if report.isClean then [toString report.upToDate.length ++ " files up to date"] else [])
  errors := report.failures.map Failure.line

/-- Carries an invocation out. -/
def Invocation.run (invocation : Invocation) (environment : Environment) (tree : Tree) :
    Tree × Report :=
  match Manifest.load tree environment invocation.manifest with
  | .error fault => (tree, .ofFault fault)
  | .ok manifest =>
    let compiler := Compiler.ofManifest manifest
    match invocation.command with
    | .generate =>
      let (changed, report) := generate compiler tree manifest
      (changed, report.report)
    | .check => (tree, (check compiler tree manifest).report invocation.verbose)
    | .inspect definition mode =>
      match compiler.describeFile tree definition mode with
      | .error fault => (tree, .ofFault fault)
      | .ok generated => (tree, { exitCode := 0, output := [generated.toValue.toJson] })

/-- Carries arguments out; arguments without a meaning end the run with code 2. -/
def runArguments (arguments : List String) (environment : Environment) (tree : Tree) :
    Tree × Report :=
  match Invocation.ofArguments? arguments with
  | none => (tree, { exitCode := 2, errors := ["error: invalid arguments"] })
  | some invocation => invocation.run environment tree

end ResourceTables
