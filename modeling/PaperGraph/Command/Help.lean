import PaperGraph.Command.Basic
import PaperGraph.Failure

/-!
# Help

What the program tells about itself, when it is asked or when it is called in a
way that it does not take.

* `Command.overview`: the commands and what they do;
* `UsageFault.message`: what is told of arguments that are not taken;
* `Command.completionScript`: what a shell needs to complete the names of the
  commands;
* `Failure.report`: what is told of a failure.
-/

namespace PaperGraph

namespace Command

/-- The name by which the program is called. -/
def program : String := "rdftex"

/-- What the command of that name does. -/
def purpose : String → String
  | "build" => "Process all papers and write the export document"
  | "check" => "Process everything without writing any file"
  | "watch" => "Rebuild whenever a source changes"
  | "inspect" => "Show what the knowledge store knows about a content node"
  | "init" => "Describe the project in " ++ Failure.manifestName
  | "completions" => "Write shell completions"
  | _ => ""

/-- The commands and what they do. -/
def overview : String :=
  "Usage: " ++ program ++ " [-v]... <command> [arguments]\n\n" ++
    String.join (names.map fun name => "  " ++ name ++ ": " ++ purpose name ++ "\n")

/-- What a shell needs to complete the names of the commands. -/
def completionScript (shell : String) : String :=
  let words := " ".intercalate names
  let quoted := ", ".intercalate (names.map fun name => "'" ++ name ++ "'")
  match shell with
  | "bash" => "complete -W '" ++ words ++ "' " ++ program ++ "\n"
  | "elvish" =>
    "set edit:completion:arg-completer[" ++ program ++ "] = \x7b|@_| put " ++ words ++ " \x7d\n"
  | "fish" => "complete -c " ++ program ++ " -f -a '" ++ words ++ "'\n"
  | "powershell" =>
    "Register-ArgumentCompleter -Native -CommandName " ++ program ++
      " -ScriptBlock \x7b " ++ quoted ++ " \x7d\n"
  | "zsh" => "compctl -k '(" ++ words ++ ")' " ++ program ++ "\n"
  | _ => ""

end Command

/-- Whether arguments are not taken because the program is asked to tell about
    itself. -/
def UsageFault.isQuestion : UsageFault → Bool
  | .displayHelp => true
  | .displayVersion => true
  | _ => false

/-- What is told of arguments that are not taken. -/
def UsageFault.message : UsageFault → String
  | .unknownArgument => "error: unexpected argument\n"
  | .tooManyValues => "error: unexpected value for a flag\n"
  | .invalidValue => "error: missing or invalid value for an argument\n"
  | .valueValidation => "error: a value is not a number\n"
  | .argumentConflict => "error: an argument cannot be used multiple times\n"
  | .missingRequiredArgument => "error: a required argument was not provided\n"
  | .missingSubcommand => "error: a command is required\n"
  | .invalidSubcommand => "error: unrecognized command\n"
  | .displayHelp => Command.overview
  | .displayVersion => Command.program ++ "\n"
  | .displayHelpOnMissingArgumentOrSubcommand => Command.overview

/-- What is told of a failure. -/
def Failure.report (f : Failure) : String :=
  f.code ++ "\n  " ++ f.message ++ "\n" ++
    match f.help? with
    | some help => "  help: " ++ help ++ "\n"
    | none => ""

end PaperGraph
