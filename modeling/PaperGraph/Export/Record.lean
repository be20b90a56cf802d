import PaperGraph.Contribution.Snippet

/-!
# Export records

What a paper exports is collected in records: under a name, pairs of a
predicate and an object, in the order in which the paper states them. The
records of a run stand in the order in which they are first mentioned.

* `Facts.flatten`: for every predicate its last object, at the place where the
  predicate is first stated;
* `Record.declaredKind?`: the last statement on the kind of the contribution;
* `Exports.append`: pairs added to a record, which is made if need be.
-/

namespace PaperGraph

/-- Facts with `object` for `predicate`, in its place if it has one, otherwise
    at the end. -/
def Facts.set (facts : Facts) (predicate object : String) : Facts :=
  match facts with
  | [] => [(predicate, object)]
  | (p, o) :: rest =>
    if p = predicate then (p, object) :: rest else (p, o) :: Facts.set rest predicate object

/-- The last object of every predicate, in the order in which the predicates
    are first stated. -/
def Facts.flatten (facts : Facts) : Facts :=
  facts.foldl (fun flat fact => flat.set fact.1 fact.2) []

/-- An export: what a paper states under a name. -/
structure Record where
  /-- The name. -/
  name : String
  /-- The pairs of predicate and object, in the order of the paper. -/
  pairs : Facts := []
deriving DecidableEq, Repr, Inhabited

/-- The object of the last pair that tells the kind of the contribution. -/
def Record.declaredKind? (r : Record) : Option String :=
  (r.pairs.reverse.find? (·.1 = Vocabulary.type)).map (·.2)

/-- The exports of a run, in the order in which they are first mentioned. -/
abbrev Exports := List Record

namespace Exports

/-- The exports with pairs added to the record of that name, which comes last
    if it is new. -/
def append (exports : Exports) (name : String) (pairs : Facts) : Exports :=
  match exports with
  | [] => [{ name, pairs }]
  | r :: rest =>
    if r.name = name then { r with pairs := r.pairs ++ pairs } :: rest
    else r :: append rest name pairs

/-- The record of that name. -/
def get? (exports : Exports) (name : String) : Option Record :=
  exports.find? (·.name = name)

end Exports

end PaperGraph
