import PaperGraph.Export.Publication
import PaperGraph.Text.Digits
import PaperGraph.Text.Search

/-!
# Arguments of a command

A command has *options*, which are told by their names, and *positions*, which
are told by their order. An option is a flag or takes a value, after an equality
sign or as the next argument. After `--` all arguments are positions. Every
command has a flag to ask for help and one to be more verbose, which can be
given more than once.

An option that takes the next argument, and a position, is settled only when
something else comes or the arguments end (`Arguments.settle`): only then its
value is checked, and only then it is seen that an option was given before.

* `Signature`: the options and positions of a command;
* `Signature.read`: what is given by some arguments, or what is wrong with the
  first one that is seen to be wrong.
-/

namespace PaperGraph

open Text

/-- Why arguments are not taken. -/
inductive UsageFault where
  /-- There is no such option or position. -/
  | unknownArgument
  /-- A flag is given a value. -/
  | tooManyValues
  /-- An option lacks its value, or the value is none of those there are. -/
  | invalidValue
  /-- A value is no number. -/
  | valueValidation
  /-- An option is given twice. -/
  | argumentConflict
  /-- A required position is missing. -/
  | missingRequiredArgument
  /-- No command is given. -/
  | missingSubcommand
  /-- There is no such command. -/
  | invalidSubcommand
  /-- Help is asked for. -/
  | displayHelp
  /-- The version is asked for. -/
  | displayVersion
  /-- Nothing is given at all. -/
  | displayHelpOnMissingArgumentOrSubcommand
deriving DecidableEq, Repr, Inhabited

/-- What can be given as a value. -/
inductive ValueKind where
  /-- Any text. -/
  | text
  /-- A path, which is not empty. -/
  | path
  /-- A natural number of 64 bits. -/
  | number
  /-- One of some words. -/
  | word (words : List String)
deriving DecidableEq, Repr

/-- The natural number of 64 bits that a text denotes. A plus sign may stand
    before the digits. -/
def number64? (text : String) : Option Nat :=
  let digits := (stripStart? ['+'] text.toList).getD text.toList
  (number? 10 digits).filter (· < Nat.pow 2 64)

/-- Refuses what cannot be given as a value. -/
def ValueKind.check (kind : ValueKind) (value : String) : Except UsageFault Unit :=
  match kind with
  | .text => .ok ()
  | .path => if value = "" then .error .invalidValue else .ok ()
  | .number => if (number64? value).isSome then .ok () else .error .valueValidation
  | .word words => if value ∈ words then .ok () else .error .invalidValue

/-- An option or a position. -/
structure Parameter where
  /-- Its name. -/
  name : String
  /-- What is given as its value, unless it is a flag. -/
  value : Option ValueKind := none
deriving DecidableEq, Repr

/-- The options and positions of a command. -/
structure Signature where
  /-- The options. -/
  options : List Parameter
  /-- The positions, in their order. -/
  positions : List Parameter
  /-- The names of the positions that have to be given. -/
  required : List String := []
deriving DecidableEq, Repr

/-- How an argument is meant by its form. -/
inductive ArgumentForm where
  /-- The end of the options. -/
  | separator
  /-- An option by its name, with a value if there is an equality sign. -/
  | long (name : String) (value : Option String)
  /-- Flags by letters. -/
  | short (letters : List Char)
  /-- Neither of these. -/
  | word (text : String)
deriving DecidableEq, Repr

/-- How an argument is meant by its form. -/
def ArgumentForm.of (argument : String) : ArgumentForm :=
  match argument.toList with
  | ['-', '-'] => .separator
  | '-' :: '-' :: rest =>
    match cutAt? '=' rest with
    | some (name, value) => .long (String.ofList name) (some (String.ofList value))
    | none => .long (String.ofList rest) none
  | '-' :: c :: rest => .short (c :: rest)
  | _ => .word argument

/-- What is known after some arguments. -/
structure Arguments where
  /-- What is given: names with their values, which are empty for flags. -/
  given : List (String × String) := []
  /-- How often verbosity is asked for. -/
  verbose : Nat := 0
  /-- What is not settled yet, with its value if that has come. -/
  pending : Option (Parameter × Option String) := none
  /-- The positions that have not come yet. -/
  positions : List Parameter
  /-- Whether only positions can come. -/
  closed : Bool := false
deriving DecidableEq, Repr

namespace Arguments

/-- Takes up an option or a position, with its value. -/
def take (a : Arguments) (p : Parameter) (value : Option String) : Except UsageFault Arguments := do
  if p.value.isSome ∧ value = none then throw .invalidValue
  if a.given.any (·.1 = p.name) then throw .argumentConflict
  match p.value, value with
  | some kind, some value => kind.check value
  | _, _ => pure ()
  return { a with given := a.given ++ [(p.name, value.getD "")] }

/-- Takes up what is not settled yet. -/
def settle (a : Arguments) : Except UsageFault Arguments :=
  match a.pending with
  | none => .ok a
  | some (p, value) => { a with pending := none }.take p value

/-- The greatest count of requests for verbosity. -/
def mostVerbose : Nat := 255

/-- One more request for verbosity. -/
def moreVerbose (a : Arguments) : Except UsageFault Arguments := do
  let a ← a.settle
  return { a with verbose := min mostVerbose (a.verbose + 1) }

/-- Help is asked for. -/
def help (a : Arguments) : Except UsageFault Arguments := do
  let _ ← a.settle
  throw .displayHelp

/-- An option of the command. -/
def option (a : Arguments) (p : Parameter) (value : Option String) :
    Except UsageFault Arguments := do
  match p.value, value with
  | none, some _ => throw .tooManyValues
  | some _, none => return { ← a.settle with pending := some (p, none) }
  | _, value => (← a.settle).take p value

/-- A flag told by a letter. -/
def letter (a : Arguments) (c : Char) : Except UsageFault Arguments :=
  if c = 'v' then a.moreVerbose
  else if c = 'h' then a.help
  else .error .unknownArgument

/-- A word: the value that is waited for, or a position. -/
def word (a : Arguments) (text : String) : Except UsageFault Arguments :=
  match a.pending, a.closed, a.positions with
  | some (p, none), false, _ => .ok { a with pending := some (p, some text) }
  | _, _, [] => .error .unknownArgument
  | _, _, p :: rest => do
    return { ← a.settle with pending := some (p, some text), positions := rest }

end Arguments

namespace Signature

/-- An option told by its name. -/
def long (s : Signature) (a : Arguments) (name : String) (value : Option String) :
    Except UsageFault Arguments :=
  match name, value with
  | "verbose", none => a.moreVerbose
  | "help", none => a.help
  | "verbose", some _ => .error .tooManyValues
  | "help", some _ => .error .tooManyValues
  | name, value =>
    match s.options.find? (·.name = name) with
    | some p => a.option p value
    | none => .error .unknownArgument

/-- What is known after one more argument. -/
def step (s : Signature) (a : Arguments) (argument : String) : Except UsageFault Arguments :=
  if a.closed then a.word argument
  else match ArgumentForm.of argument with
    | .separator => .ok { a with closed := true }
    | .long name value => s.long a name value
    | .short letters => letters.foldlM Arguments.letter a
    | .word text => a.word text

/-- What is given by some arguments. -/
def read (s : Signature) (arguments : List String) : Except UsageFault Arguments := do
  let a ← (← arguments.foldlM s.step { positions := s.positions }).settle
  if s.required.all fun name => a.given.any (·.1 = name) then return a
  else throw .missingRequiredArgument

end Signature

end PaperGraph
