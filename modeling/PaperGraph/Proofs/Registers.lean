import Mathlib.Data.List.Nodup
import PaperGraph.Export.Register
import PaperGraph.Proofs.Collecting

/-!
# Registers and their records

A record keeps its place once it is made: later ones are put after it, and pairs are added to it
where it stands. So the index never has to be mended, and stays right as long as a new record is
entered with the place that it is about to get.

* `Register.Indexed`: the index tells the places of the names, and no others;
* `Register.Indexed.records_append`, `Register.Indexed.append`: then the pairs are added to the
  record of their name, and the index tells the places afterwards, too;
* `Register.records_collect`: a register that was empty at first has the records that are
  collected without an index;
* `Register.keeps_collect`: what it keeps of all that was added to it.
-/

namespace PaperGraph

namespace Exports

variable {exports : Exports} {name : String} {pairs : Facts} {position : Nat}

/-- The first record of a name is the one that pairs are added to. -/
theorem append_eq_modify (hdistinct : (exports.map (·.name)).Nodup)
    (h : (exports.map (·.name))[position]? = some name) : exports.append name pairs =
      exports.modify position fun r => { r with pairs := r.pairs ++ pairs } := by
  induction exports generalizing position with
  | nil => simp at h
  | cons r rest ih =>
    rw [List.map_cons, List.nodup_cons] at hdistinct
    rw [append]
    cases position with
    | zero =>
      obtain rfl : r.name = name := by simpa using h
      rw [if_pos rfl, List.modify_zero_cons]
    | succ position =>
      rw [List.map_cons, List.getElem?_cons_succ] at h
      have hne : r.name ≠ name := fun he => hdistinct.1 (he ▸ List.mem_of_getElem? h)
      rw [if_neg hne, List.modify_succ_cons, ih hdistinct.2 h]

/-- The record of a new name comes last. -/
theorem append_of_not_mem (h : name ∉ exports.map (·.name)) :
    exports.append name pairs = exports ++ [({ name, pairs } : Record)] := by
  induction exports with
  | nil => rfl
  | cons r rest ih =>
    rw [List.map_cons, List.mem_cons, not_or] at h
    rw [append, if_neg (Ne.symm h.1), ih h.2]
    rfl

/-- Where names are not repeated, the record of a name is the one at its place. -/
theorem get?_eq_getElem? (hdistinct : (exports.map (·.name)).Nodup)
    (h : (exports.map (·.name))[position]? = some name) :
    exports.get? name = exports[position]? := by
  induction exports generalizing position with
  | nil => simp at h
  | cons r rest ih =>
    rw [List.map_cons, List.nodup_cons] at hdistinct
    rw [get?_cons]
    cases position with
    | zero =>
      obtain rfl : r.name = name := by simpa using h
      rw [if_pos rfl, List.getElem?_cons_zero]
    | succ position =>
      rw [List.map_cons, List.getElem?_cons_succ] at h
      have hne : r.name ≠ name := fun he => hdistinct.1 (he ▸ List.mem_of_getElem? h)
      rw [if_neg hne, List.getElem?_cons_succ, ih hdistinct.2 h]

end Exports

theorem getElem?_concat_iff {α : Type} {l : List α} {a b : α} {position : Nat} :
    (l ++ [a])[position]? = some b ↔ l[position]? = some b ∨ position = l.length ∧ a = b := by
  rcases Nat.lt_trichotomy position l.length with hlt | rfl | hgt
  · simp [List.getElem?_append_left hlt, Nat.ne_of_lt hlt]
  · simp
  · have hend : (l ++ [a]).length ≤ position := by
      rw [List.length_append]
      exact hgt
    simp only [List.getElem?_eq_none hend, List.getElem?_eq_none (Nat.le_of_lt hgt)]
    simp [Nat.ne_of_gt hgt]

namespace Register

variable {r : Register} {name other : String} {pairs : Facts} {position : Nat}

/-- Pairs are added to a record where the index has its name. -/
theorem append_of_some (h : r.index.lookup name = some position) : r.append name pairs =
    { r with records := r.records.modify position fun record =>
        { record with pairs := record.pairs ++ pairs } } := by
  rw [append, place, h]

/-- A new record comes last and is entered with the place that it gets. -/
theorem append_of_none (h : r.index.lookup name = none) : r.append name pairs =
    { records := r.records ++ [{ name, pairs }]
      index := (name, r.records.length) :: r.index } := by
  have hlast : (r.records ++ [({ name } : Record)]).modify r.records.length
      (fun record => { record with pairs := record.pairs ++ pairs }) =
        r.records ++ [({ name, pairs } : Record)] := by
    rw [List.modify_eq_take_cons_drop (by simp)]
    simp
  rw [append, place, h]
  simp only [hlast]

/-- The index of a register tells the places of its records. -/
structure Indexed (r : Register) : Prop where
  /-- No two records have the same name. -/
  distinct : (r.records.map (·.name)).Nodup
  /-- A name is entered with the place of its record, and there are no other entries. -/
  lookup_eq_some_iff : ∀ name position,
    r.index.lookup name = some position ↔ (r.records.map (·.name))[position]? = some name

namespace Indexed

theorem empty : Indexed {} where
  distinct := .nil
  lookup_eq_some_iff _ _ := by simp

theorem lookup_eq_none_iff (h : r.Indexed) :
    r.index.lookup name = none ↔ name ∉ r.records.map (·.name) := by
  rw [← not_iff_not, not_not, ← ne_eq, Option.ne_none_iff_exists', List.mem_iff_getElem?]
  exact exists_congr (h.lookup_eq_some_iff name)

/-- Pairs are added to the record of their name. -/
theorem records_append (h : r.Indexed) (name : String) (pairs : Facts) :
    (r.append name pairs).records = r.records.append name pairs := by
  cases hlookup : r.index.lookup name with
  | some position =>
    rw [append_of_some hlookup]
    exact (Exports.append_eq_modify h.distinct ((h.lookup_eq_some_iff _ _).1 hlookup)).symm
  | none =>
    rw [append_of_none hlookup, Exports.append_of_not_mem (h.lookup_eq_none_iff.1 hlookup)]

/-- The index is right afterwards. -/
theorem append (h : r.Indexed) (name : String) (pairs : Facts) : (r.append name pairs).Indexed := by
  have hnames : (r.append name pairs).records.map (·.name) =
      if name ∈ r.records.map (·.name) then r.records.map (·.name)
      else r.records.map (·.name) ++ [name] := by
    rw [h.records_append, Exports.names_append]
  cases hlookup : r.index.lookup name with
  | some position =>
    -- Nothing is entered, and no name is new.
    have hmem : name ∈ r.records.map (·.name) :=
      List.mem_of_getElem? ((h.lookup_eq_some_iff _ _).1 hlookup)
    have hindex : (r.append name pairs).index = r.index := by rw [append_of_some hlookup]
    rw [if_pos hmem] at hnames
    exact ⟨by rw [hnames]; exact h.distinct,
      fun other position => by rw [hindex, hnames]; exact h.lookup_eq_some_iff other position⟩
  | none =>
    have hnew : name ∉ r.records.map (·.name) := h.lookup_eq_none_iff.1 hlookup
    have hindex : (r.append name pairs).index = (name, r.records.length) :: r.index := by
      rw [append_of_none hlookup]
    rw [if_neg hnew] at hnames
    refine ⟨?_, fun other position => ?_⟩
    · rw [hnames]
      exact h.distinct.append (List.nodup_singleton name) (by simpa using hnew)
    · rw [hindex, hnames, List.lookup_cons, getElem?_concat_iff, ← h.lookup_eq_some_iff,
        List.length_map]
      by_cases hother : other = name
      · rw [hother, hlookup]
        simp [eq_comm]
      · simp [beq_false_of_ne hother, Ne.symm hother]

/-- A record is found by its name. -/
theorem get?_eq (h : r.Indexed) (name : String) : r.get? name = r.records.get? name := by
  rw [get?]
  cases hlookup : r.index.lookup name with
  | some position =>
    have hplace := (h.lookup_eq_some_iff _ _).1 hlookup
    exact (Exports.get?_eq_getElem? h.distinct hplace).symm
  | none =>
    refine (List.find?_eq_none.2 fun record hrecord hname => ?_).symm
    refine h.lookup_eq_none_iff.1 hlookup ?_
    rw [← of_decide_eq_true hname]
    exact List.mem_map_of_mem hrecord

end Indexed

/-! ## Runs of additions -/

/-- The register after pairs were added under names one after the other. -/
def collect (mentions : List (String × Facts)) : Register :=
  mentions.foldl (fun r m => r.append m.1 m.2) {}

theorem collect_concat (mentions : List (String × Facts)) (m : String × Facts) :
    collect (mentions ++ [m]) = (collect mentions).append m.1 m.2 :=
  List.foldl_concat ..

theorem indexed_collect (mentions : List (String × Facts)) : (collect mentions).Indexed := by
  induction mentions using List.reverseRecOn with
  | nil => exact .empty
  | append_singleton mentions m ih =>
    rw [collect_concat]
    exact ih.append m.1 m.2

/-- The records are those that are collected without an index. -/
theorem records_collect (mentions : List (String × Facts)) :
    (collect mentions).records = Exports.collect [] mentions := by
  induction mentions using List.reverseRecOn with
  | nil => rfl
  | append_singleton mentions m ih =>
    rw [collect_concat, (indexed_collect mentions).records_append, ih, Exports.collect_concat]

/-- What a register keeps of the pairs that were added to it under names. -/
structure Keeps (r : Register) (mentions : List (String × Facts)) : Prop where
  /-- No two records have the same name. -/
  distinct : (r.records.map (·.name)).Nodup
  /-- A name is entered with the place of its record, and there are no other entries. -/
  index : ∀ name position, r.index.lookup name = some position ↔
    ∃ record, r.records[position]? = some record ∧ record.name = name
  /-- The records stand in the order in which their names are first mentioned. -/
  order : r.records.map (·.name) = (mentions.map (·.1)).eraseDups
  /-- Under a name that was mentioned stand the pairs that were added under it, in their order;
      under another one stands nothing. -/
  lookup : ∀ name, r.get? name =
    if name ∈ mentions.map (·.1) then some { name, pairs := Exports.pairsUnder name mentions }
    else none

/-- A register that was empty at first keeps all that was added to it, each pair under its name
    and at the place of that name. -/
theorem keeps_collect (mentions : List (String × Facts)) : (collect mentions).Keeps mentions := by
  have h := indexed_collect mentions
  refine ⟨h.distinct, fun name position => ?_, ?_, fun name => ?_⟩
  · rw [h.lookup_eq_some_iff, List.getElem?_map, Option.map_eq_some_iff]
  · rw [records_collect, Exports.names_collect]
  · rw [h.get?_eq, records_collect, Exports.get?_collect]

end Register

end PaperGraph
