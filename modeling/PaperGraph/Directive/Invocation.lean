import PaperGraph.Directive.Basic
import PaperGraph.Directive.Groups
import PaperGraph.Directive.ShortForms

/-!
# Invocations

An invocation is one occurrence of a directive with its arguments, in which the
short forms are resolved. The arguments are the groups that follow the command.

* `Invocation.read`: the invocation at the start of a text;
* `Invocation.hasArity`: whether it has as many arguments as its directive
  asks for.
-/

namespace PaperGraph

open Text

/-- An occurrence of a directive with its arguments. -/
structure Invocation where
  /-- The directive. -/
  directive : Directive
  /-- The arguments, short forms resolved. -/
  arguments : List String
  /-- The number of the line it stands on. -/
  line : Nat
  /-- Where its last group ends in the line, in bytes. -/
  endOffset : Nat
deriving DecidableEq, Repr

/-- An argument that is not closed, and where in the line it opens, in bytes. -/
structure Unbalanced where
  /-- The place of its opening brace. -/
  offset : Nat
deriving DecidableEq, Repr

/-- The wording of the complaint. -/
def Unbalanced.message (u : Unbalanced) : String :=
  "unbalanced braces: argument opened at byte " ++ toString u.offset ++ " is never closed"

namespace Invocation

/-- Whether it has as many arguments as its directive asks for. -/
def hasArity (i : Invocation) : Bool :=
  i.arguments.length = i.directive.arity

/-- The invocation whose text was split, at a place of its line. -/
def ofSplit (d : Directive) (forms : Dictionary) (line offset : Nat) (s : Groups.Split) :
    Invocation where
  directive := d
  arguments := s.groups.map fun g => String.ofList (ShortForms.resolve forms g)
  line := line
  endOffset := offset + utf8Size s.consumed

/-- The invocation at the start of a text, which stands at a place of its
    line. -/
def read (d : Directive) (forms : Dictionary) (line offset : Nat) (text : List Char) :
    Except Unbalanced Invocation :=
  match Groups.split text with
  | .ok s => .ok (ofSplit d forms line offset s)
  | .error u => .error ⟨offset + utf8Size u.before⟩

end Invocation

end PaperGraph
