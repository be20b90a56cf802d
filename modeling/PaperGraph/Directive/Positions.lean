import PaperGraph.Directive.Invocation
import PaperGraph.Text.Slices

/-!
# Groups told by positions

The groups of a text are found in one pass over its characters, which counts open
braces and keeps the byte at which the last group starts. The texts of the groups
are slices of the text, so every position is one that has been counted.

* `Groups.scan`, `Groups.scanned`: the groups of a text and how far they go, or
  the byte at which a group opens that is not closed;
* `Invocation.readAt`: the invocation at a byte of a line.
-/

namespace PaperGraph

open Text

/-- The groups of `source`, of which `cs` is still to be scanned. `depth` braces are
    open, the last group starts at byte `start`, and `cs` at byte `index`. -/
def Groups.scan (source : List Char) (depth start : Nat) (groups : List (List Char))
    (index : Nat) : (cs : List Char) → Except Slip (Except Nat (List (List Char) × Nat))
  | [] =>
    if 0 < depth then do return .error (← predecessor start)
    else return .ok (groups, utf8Size source)
  | c :: cs =>
    let next := index + c.utf8Size
    if c = '\x7b' then
      scan source (depth + 1) (if depth = 0 then next else start) groups next cs
    else if c = '\x7d' ∧ 0 < depth then
      if depth = 1 then do
        let groups := groups ++ [← slice start index source]
        -- Nothing may stand between a group and the next one.
        if cs.head? = some '\x7b' then scan source 0 start groups next cs
        else return .ok (groups, next)
      else scan source (depth - 1) start groups next cs
    else scan source depth start groups next cs

/-- The groups of a text and the byte at which the last of them ends, or the byte at
    which a group opens that is not closed. -/
def Groups.scanned (source : List Char) : Except Slip (Except Nat (List (List Char) × Nat)) :=
  scan source 0 0 [] 0 source

/-- The invocation that starts at byte `start` of a line. -/
def Invocation.readAt (d : Directive) (forms : Dictionary) (number : Nat) (line : List Char)
    (start : Nat) : Except Slip (Except Unbalanced Invocation) := do
  match ← Groups.scanned (← sliceFrom start line) with
  | .error offset => return .error ⟨start + offset⟩
  | .ok (groups, consumed) =>
    return .ok
      { directive := d
        arguments := groups.map fun g => String.ofList (ShortForms.resolve forms g)
        line := number
        endOffset := start + consumed }

end PaperGraph
