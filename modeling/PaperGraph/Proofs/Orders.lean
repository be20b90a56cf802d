import Mathlib.Data.List.Nodup
import PaperGraph.Files.Path
import PaperGraph.Graph.Basic

/-!
# Orders

Terms, statements and paths are compared one trait after the other, and texts
come last. So their orders are total (the instances of `Std.TransCmp`). Terms
and statements that compare as equal are equal (`Std.LawfulEqCmp`); paths have
the same components then (`Path.order_eq_eq_iff`), whatever their spellings.

Sorting is determined as soon as no two things compare as equal
(`eq_of_pairwise_lt`).
-/

namespace PaperGraph

open Std

/-- Things are ordered by what is told of them as that is. -/
theorem transCmp_on {α β : Type} {cmp : β → β → Ordering} [TransCmp cmp] (f : α → β) :
    TransCmp fun a b => cmp (f a) (f b) where
  eq_swap {a b} := (OrientedCmp.eq_swap : cmp (f a) (f b) = _)
  isLE_trans hab hbc := (TransCmp.isLE_trans hab hbc : (cmp _ _).isLE)

/-! ## Sorted lists -/

section Sorted

variable {α : Type} {cmp : α → α → Ordering} {l l' : List α}

theorem pairwise_mergeSort_isLE [TransCmp cmp] (l : List α) :
    (l.mergeSort fun a b => (cmp a b).isLE).Pairwise fun a b => (cmp a b).isLE := by
  refine List.pairwise_mergeSort (fun _ _ _ => TransCmp.isLE_trans) (fun a b => ?_) l
  rw [(OrientedCmp.eq_swap : cmp b a = _)]
  cases cmp a b with
  | _ => rfl

theorem nodup_of_pairwise_lt [ReflCmp cmp] (h : l.Pairwise fun a b => cmp a b = .lt) : l.Nodup :=
  h.imp fun {a b} h he => by
    have hself : cmp b b = .eq := ReflCmp.compare_self
    rw [he, hself] at h
    simp at h

/-- Of two strictly sorted lists with the same elements there is only one. -/
theorem eq_of_pairwise_lt [OrientedCmp cmp] (h : l.Pairwise fun a b => cmp a b = .lt)
    (h' : l'.Pairwise fun a b => cmp a b = .lt) (hmem : ∀ a, a ∈ l ↔ a ∈ l') : l = l' := by
  have hperm : l.Perm l' :=
    (List.perm_ext_iff_of_nodup (nodup_of_pairwise_lt h) (nodup_of_pairwise_lt h')).2 hmem
  refine hperm.eq_of_pairwise (fun a b _ _ hab hba => ?_) h h'
  rw [(OrientedCmp.eq_swap : cmp a b = _), hba] at hab
  simp at hab

end Sorted

/-! ## Terms and statements -/

namespace Term

/-- The place of a term's sort in the order. -/
def rank : Term → Nat
  | .iri _ => 0
  | .blank _ => 1
  | .literal .. => 2

/-- The datatype, if the term has one. -/
def datatype? : Term → Option String
  | .literal _ datatype _ => datatype
  | _ => none

/-- The language, if the term has one. -/
def language? : Term → Option String
  | .literal _ _ language => language
  | _ => none

/-- The order compares the sorts, and then text, datatype and language. -/
theorem order_eq : order = compareLex (compareOn rank) (compareLex (compareOn value)
    (compareLex (compareOn datatype?) (compareOn language?))) := by
  funext t u
  cases t with
  | iri a =>
    cases u with
    | iri b => simp [order, compareLex, compareOn, rank, value, datatype?, language?]
    | blank => rfl
    | literal => rfl
  | blank a =>
    cases u with
    | iri => rfl
    | blank b => simp [order, compareLex, compareOn, rank, value, datatype?, language?]
    | literal => rfl
  | literal v d l =>
    cases u with
    | iri => rfl
    | blank => rfl
    | literal v' d' l' =>
      simp [order, compareLex, compareOn, rank, value, datatype?, language?, Ordering.then_assoc]

instance : TransCmp order := by
  rw [order_eq]
  infer_instance

instance : LawfulEqCmp order where
  eq_of_compare {t u} h := by
    cases t with
    | iri a => cases u <;> simp_all [order]
    | blank a => cases u <;> simp_all [order]
    | literal v d l => cases u <;> simp_all [order, Ordering.then_eq_eq]

@[simp]
theorem order_self (t : Term) : t.order t = .eq :=
  ReflCmp.compare_self

end Term

namespace Triple

/-- The order compares subjects, then predicates, then objects. -/
theorem order_eq : order = compareLex (compareLex (fun t u => t.subject.order u.subject)
    (compareOn predicate)) (fun t u => t.object.order u.object) := rfl

instance : TransCmp order := by
  have hsubject : TransCmp fun t u => (subject t).order (subject u) := transCmp_on subject
  have hobject : TransCmp fun t u => (object t).order (object u) := transCmp_on object
  rw [order_eq]
  infer_instance

instance : LawfulEqCmp order where
  eq_of_compare {t u} h := by
    obtain ⟨⟨hsubject, hpredicate⟩, hobject⟩ :
        (t.subject.order u.subject = .eq ∧ compare t.predicate u.predicate = .eq) ∧
          t.object.order u.object = .eq := by
      simpa only [order, Ordering.then_eq_eq] using h
    have hsubject := LawfulEqCmp.eq_of_compare hsubject
    have hpredicate := LawfulEqCmp.eq_of_compare hpredicate
    have hobject := LawfulEqCmp.eq_of_compare hobject
    cases t
    cases u
    simp_all

end Triple

/-! ## Paths -/

namespace Path

namespace Component

/-- The name, if the component is one. -/
def name? : Component → Option String
  | .name text => some text
  | _ => none

theorem order_eq : order = compareLex (compareOn order.rank) (compareOn name?) := by
  funext a b
  cases a <;> cases b <;> rfl

instance : TransCmp order := by
  rw [order_eq]
  infer_instance

instance : LawfulEqCmp order where
  eq_of_compare {a b} h := by
    cases a with
    | name text => cases b <;> simp_all [order, order.rank]
    | _ => cases b <;> simp_all [order, order.rank]

end Component

theorem go_eq (as bs : List Component) :
    order.go as bs = List.compareLex Component.order as bs := by
  fun_induction order.go as bs with
  | case1 => rfl
  | case2 => rfl
  | case3 => rfl
  | case4 a as b bs ih => rw [List.compareLex_cons_cons, ih]

theorem order_eq (p q : Path) :
    p.order q = List.compareLex Component.order p.components q.components :=
  go_eq _ _

instance : TransCmp order := by
  have horder : order = fun p q => List.compareLex Component.order p.components q.components :=
    funext fun p => funext fun q => order_eq p q
  rw [horder]
  exact transCmp_on components

theorem order_eq_eq_iff {p q : Path} : p.order q = .eq ↔ p.components = q.components := by
  rw [order_eq]
  exact LawfulEqCmp.compare_eq_iff_eq

theorem order_swap (p q : Path) : p.order q = (q.order p).swap :=
  OrientedCmp.eq_swap

end Path

end PaperGraph
