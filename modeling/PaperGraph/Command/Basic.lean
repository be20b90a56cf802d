import PaperGraph.Command.Arguments
import PaperGraph.Project.Basic

/-!
# Commands

What the program can be told to do, and how it is told.

* `Command.signature?`: the arguments of a command;
* `CommandLine.parse`: the command that some arguments denote.
-/

namespace PaperGraph

/-- Where a project is, and what goes before its manifest. -/
structure ProjectOptions where
  /-- The directory of the project. -/
  root : Path := ⟨"."⟩
  /-- What goes before its manifest. -/
  overrides : Overrides := {}
deriving DecidableEq, Repr, Inhabited

/-- What the program is told to do. -/
inductive Command where
  /-- Make the outputs and the publication. -/
  | build (project : ProjectOptions)
  /-- Find out what a build would tell; warnings count if the check is
      strict. -/
  | check (project : ProjectOptions) (strict : Bool)
  /-- Build again whenever sources change and then nothing happens for some
      milliseconds. -/
  | watch (project : ProjectOptions) (quiet : Nat)
  /-- Show what the store knows of an IRI. -/
  | inspect (iri : String) (json : Bool) (project : ProjectOptions)
  /-- Write a manifest, in place of an older one if that is forced. -/
  | init (root : Path) (force : Bool)
  /-- Write what a shell needs to complete command lines. -/
  | completions (shell : String)
deriving DecidableEq, Repr

namespace Command

/-- The position for the directory of a project. -/
def rootPosition : Parameter := { name := "path", value := some .path }

/-- The options of the commands on a project. -/
def projectOptions : List Parameter :=
  [{ name := "texdir", value := some .path },
    { name := "export-path", value := some .path },
    { name := "export-format", value := some (.word ["turtle", "ntriples"]) },
    { name := "backend", value := some .text },
    { name := "store", value := some .path },
    { name := "media-root", value := some .path },
    { name := "timeout-ms", value := some .number }]

/-- The shells for which there are completions. -/
def shells : List String :=
  ["bash", "elvish", "fish", "powershell", "zsh"]

/-- The names of the commands. -/
def names : List String :=
  ["build", "check", "watch", "inspect", "init", "completions"]

/-- The arguments of the command of that name. -/
def signature? : String → Option Signature
  | "build" => some { options := projectOptions, positions := [rootPosition] }
  | "check" =>
    some { options := projectOptions ++ [{ name := "strict" }], positions := [rootPosition] }
  | "watch" =>
    some
      { options := projectOptions ++ [{ name := "quiet-ms", value := some .number }]
        positions := [rootPosition] }
  | "inspect" =>
    some
      { options := { name := "json" } :: projectOptions
        positions := [{ name := "iri", value := some .text }, rootPosition]
        required := ["iri"] }
  | "init" => some { options := [{ name := "force" }], positions := [rootPosition] }
  | "completions" =>
    some
      { options := []
        positions := [{ name := "shell", value := some (.word shells) }]
        required := ["shell"] }
  | _ => none

end Command

namespace Arguments

/-- The value that is given for a name. -/
def value? (a : Arguments) (name : String) : Option String :=
  a.given.lookup name

/-- The path that is given for a name. -/
def path? (a : Arguments) (name : String) : Option Path :=
  (a.value? name).map Path.mk

/-- Whether a flag is given. -/
def has (a : Arguments) (name : String) : Bool :=
  (a.value? name).isSome

/-- The directory of a project that is given. -/
def root (a : Arguments) : Path :=
  (a.path? "path").getD ⟨"."⟩

/-- What is given for a project. -/
def project (a : Arguments) : ProjectOptions where
  root := a.root
  overrides :=
    { papers := a.path? "texdir"
      exportPath := a.path? "export-path"
      format := (a.value? "export-format").bind Format.ofName?
      backend := a.value? "backend"
      store := a.path? "store"
      media := a.path? "media-root"
      timeout := (a.value? "timeout-ms").bind number64? }

end Arguments

namespace Command

/-- For how many milliseconds nothing has to happen before the next build. -/
def defaultQuiet : Nat := 150

/-- The command of that name with what is given. -/
def ofArguments? (name : String) (a : Arguments) : Option Command :=
  match name with
  | "build" => some (.build a.project)
  | "check" => some (.check a.project (a.has "strict"))
  | "watch" =>
    some (.watch a.project (((a.value? "quiet-ms").bind number64?).getD defaultQuiet))
  | "inspect" => some (.inspect ((a.value? "iri").getD "") (a.has "json") a.project)
  | "init" => some (.init a.root (a.has "force"))
  | "completions" => some (.completions ((a.value? "shell").getD ""))
  | _ => none

end Command

/-- What the program is called with. -/
structure CommandLine where
  /-- How often verbosity is asked for. -/
  verbose : Nat
  /-- What is to be done. -/
  command : Command
deriving DecidableEq, Repr

namespace CommandLine

/-- A flag before the command, told by a letter. -/
def letter (verbose : Nat) (c : Char) : Except UsageFault Nat :=
  match c with
  | 'v' => .ok (min Arguments.mostVerbose (verbose + 1))
  | 'h' => .error .displayHelp
  | 'V' => .error .displayVersion
  | _ => .error .unknownArgument

/-- A flag before the command, told by its name. -/
def long (verbose : Nat) (name : String) (value : Option String) : Except UsageFault Nat :=
  let letter? := [("verbose", 'v'), ("help", 'h'), ("version", 'V')].lookup name
  match letter?, value with
  | none, _ => .error .unknownArgument
  | some _, some _ => .error .tooManyValues
  | some c, none => letter verbose c

/-- What is wrong where no command is given. -/
def missing (verbose : Nat) : UsageFault :=
  if verbose = 0 then .displayHelpOnMissingArgumentOrSubcommand else .missingSubcommand

/-- Whether a word is a command, among them that for help. -/
def isCommand (word : String) : Bool :=
  word = "help" || word ∈ Command.names

/-- The command for help, which takes at most the name of a command. -/
def help : List String → UsageFault
  | [] => .displayHelp
  | [word] => if isCommand word then .displayHelp else .invalidSubcommand
  | _ => .invalidSubcommand

/-- The command of that name with its arguments. If these ask for verbosity,
    what was asked before does not count. -/
def ofName (verbose : Nat) (name : String) (arguments : List String) :
    Except UsageFault CommandLine :=
  if name = "help" then .error (help arguments)
  else match Command.signature? name with
    | none => .error .invalidSubcommand
    | some signature => do
      let a ← signature.read arguments
      match Command.ofArguments? name a with
      | none => throw .invalidSubcommand
      | some command =>
        return { verbose := if a.verbose = 0 then verbose else a.verbose, command }

/-- The command that some arguments denote after flags that ask for
    verbosity. -/
def parseAfter (verbose : Nat) : List String → Except UsageFault CommandLine
  | [] => .error (missing verbose)
  | argument :: rest =>
    match ArgumentForm.of argument with
    | .separator =>
      match rest with
      | [] => .error (missing verbose)
      | word :: _ => .error (if isCommand word then .unknownArgument else .invalidSubcommand)
    | .long name value => do
      let verbose ← long verbose name value
      parseAfter verbose rest
    | .short letters => do
      let verbose ← letters.foldlM letter verbose
      parseAfter verbose rest
    | .word word => ofName verbose word rest

/-- The command that some arguments denote. -/
def parse (arguments : List String) : Except UsageFault CommandLine :=
  parseAfter 0 arguments

end CommandLine

end PaperGraph
