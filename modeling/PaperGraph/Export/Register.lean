import PaperGraph.Export.Record

/-!
# Registers

A register holds the exports of a run together with an index, which tells by a
name at which place its record stands, so that no record is looked for.

* `Register.append`: pairs added to a record, which comes last if it is new;
* `Register.get?`: the record of a name.
-/

namespace PaperGraph

/-- Exports with an index. -/
structure Register where
  /-- The records, in the order in which they are first mentioned. -/
  records : Exports := []
  /-- The places of the records, by their names. -/
  index : List (String × Nat) := []
deriving DecidableEq, Repr, Inhabited

namespace Register

/-- The place of the record of that name, and the register with that record,
    which is made if need be. -/
def place (r : Register) (name : String) : Nat × Register :=
  match r.index.lookup name with
  | some position => (position, r)
  | none =>
    (r.records.length,
      { records := r.records ++ [{ name }], index := (name, r.records.length) :: r.index })

/-- The register with pairs added to the record of that name. -/
def append (r : Register) (name : String) (pairs : Facts) : Register :=
  let (position, r) := r.place name
  { r with
    records := r.records.modify position fun record =>
      { record with pairs := record.pairs ++ pairs } }

/-- The record of that name. -/
def get? (r : Register) (name : String) : Option Record :=
  (r.index.lookup name).bind (r.records[·]?)

end Register

end PaperGraph
