import PaperGraph.Directive.Positions
import PaperGraph.Run.Handling

/-!
# Passes over a line

The properties of a line are taken one after the other. A cursor tells how far the
line is done with; every pass looks for a property behind it, and ends the loop or
puts the cursor forward.

* `Pass`: where the loop stands;
* `Pass.turn`: what a pass comes to.
-/

namespace PaperGraph.Property

open Text

/-- Where the loop over a line has got to. -/
structure Pass where
  /-- The byte up to which the line is done with. -/
  cursor : Nat := 0
  /-- What has become of the line up to there. -/
  output : List Char := []
  /-- The properties up to there. -/
  properties : List Property := []
deriving DecidableEq, Repr, Inhabited

/-- What a pass comes to. -/
inductive Turn where
  /-- There are no more properties. -/
  | finished (text : List Char) (properties : List Property)
  /-- A property cannot be taken. -/
  | refused (complaint : Diagnostic)
  /-- A property has been taken. -/
  | goesOn (next : Pass)
deriving DecidableEq, Repr

/-- Looks for the next property of the line and takes it. -/
def Pass.turn (forms : Dictionary) (place : Place) (line : List Char) (pass : Pass) :
    Except Slip Turn := do
  let rest ← sliceFrom pass.cursor line
  match Directive.property.offset? rest with
  | none => return .finished (pass.output ++ rest) pass.properties
  | some found =>
    let start := pass.cursor + found
    match ← Invocation.readAt .property forms place.line line start with
    | .error u => return .refused (Invocation.unclosedError .property u place)
    | .ok i =>
      match ofInvocation i place with
      | .error complaint => return .refused complaint
      | .ok p =>
        return .goesOn
          { cursor := i.endOffset
            output := pass.output ++ (← slice pass.cursor start line) ++ p.object.toList
            properties := pass.properties ++ [p] }

end PaperGraph.Property
