import Mathlib.Data.List.Basic
import Mathlib.Data.List.Induction
import Mathlib.Data.List.Nodup

/-!
# Repetitions

Without its repetitions a list has everything once, in the order in which it first stood there.
So what is added at the end changes nothing if it stood there before, and comes last otherwise.

* `eraseDups_concat`, `eraseDups_map`: repetitions are erased from the start to the end, whatever
  the things are called;
* `pairwise_idxOf_eraseDups`, `nodup_eraseDups`: what is left stands in its order, and once;
* `lookup_eq_find?`, `lookup_eq_some_iff_mem`: what is looked up is the first entry of its key,
  and the only one if no key is repeated.
-/

namespace PaperGraph

variable {α β : Type}

/-! ## Erasing -/

section Erasing

variable [BEq α] [LawfulBEq α] [BEq β] [LawfulBEq β]

theorem eraseDups_concat (l : List α) (a : α) :
    (l ++ [a]).eraseDups = if a ∈ l then l.eraseDups else l.eraseDups ++ [a] := by
  rw [List.eraseDups_append]
  by_cases ha : a ∈ l
  · simp [List.removeAll, ha]
  · simp [List.removeAll, ha, List.eraseDups_cons]

theorem eraseDups_map {f : α → β} (hf : f.Injective) (l : List α) :
    (l.map f).eraseDups = l.eraseDups.map f := by
  induction l using List.reverseRecOn with
  | nil => rfl
  | append_singleton l a ih =>
    rw [List.map_append, List.map_singleton, eraseDups_concat, eraseDups_concat, ih]
    by_cases ha : a ∈ l
    · rw [if_pos (List.mem_map_of_mem ha), if_pos ha]
    · rw [if_neg fun h => ha ((List.mem_map_of_injective hf).1 h), if_neg ha, List.map_append,
        List.map_singleton]

/-- What is left stands in the order in which it first stood. -/
theorem pairwise_idxOf_eraseDups (l : List α) :
    l.eraseDups.Pairwise fun a b => l.idxOf a < l.idxOf b := by
  induction l using List.reverseRecOn with
  | nil => exact .nil
  | append_singleton l a ih =>
    have hleft : l.eraseDups.Pairwise fun b c => (l ++ [a]).idxOf b < (l ++ [a]).idxOf c := by
      refine ih.imp_of_mem fun {b c} hb hc h => ?_
      rw [List.idxOf_append_of_mem (List.mem_eraseDups.1 hb),
        List.idxOf_append_of_mem (List.mem_eraseDups.1 hc)]
      exact h
    rw [eraseDups_concat]
    by_cases ha : a ∈ l
    · rw [if_pos ha]
      exact hleft
    · -- What is new stands behind all that stood there before.
      rw [if_neg ha, List.pairwise_append]
      refine ⟨hleft, List.pairwise_singleton _ a, fun b hb c hc => ?_⟩
      obtain rfl := List.mem_singleton.1 hc
      have hb := List.mem_eraseDups.1 hb
      rw [List.idxOf_append_of_mem hb, List.idxOf_append_of_notMem ha]
      exact Nat.lt_of_lt_of_le (List.idxOf_lt_length_iff.2 hb) (Nat.le_add_right ..)

theorem nodup_eraseDups (l : List α) : l.eraseDups.Nodup := by
  refine (pairwise_idxOf_eraseDups l).imp fun {a b} h he => ?_
  rw [he] at h
  exact Nat.lt_irrefl _ h

end Erasing

/-! ## Looking up -/

section Lookup

variable [BEq α] [LawfulBEq α] {entries : List (α × β)} {a : α} {b : β}

theorem lookup_eq_find? [DecidableEq α] (entries : List (α × β)) (a : α) :
    entries.lookup a = (entries.find? (·.1 = a)).map (·.2) := by
  induction entries with
  | nil => rfl
  | cons e entries ih =>
    rw [List.lookup_cons, List.find?_cons]
    by_cases ha : a = e.1
    · simp [ha]
    · simp [beq_false_of_ne ha, Ne.symm ha, ih]

/-- What stands once in a list is found there. -/
theorem lookup_eq_some_iff_mem (hdistinct : (entries.map (·.1)).Nodup) :
    entries.lookup a = some b ↔ (a, b) ∈ entries := by
  rw [List.lookup_eq_some_iff]
  constructor
  · rintro ⟨before, after, rfl, -⟩
    exact List.mem_append_right _ List.mem_cons_self
  · intro hmem
    obtain ⟨before, after, rfl⟩ := List.append_of_mem hmem
    rw [List.map_append, List.map_cons, List.nodup_middle, List.nodup_cons] at hdistinct
    refine ⟨before, after, rfl, fun e he => bne_iff_ne.2 fun hsame => hdistinct.1 ?_⟩
    exact List.mem_append_left _ (List.mem_map.2 ⟨e, he, hsame.symm⟩)

end Lookup

end PaperGraph
