import Mathlib.Data.Finset.Card
import PaperGraph.Graph.Neighbourhood
import PaperGraph.Proofs.Repetitions

/-!
# Connection

The search of a graph finds the terms that are connected with a root, all of
them and no others, however the statements are ordered or repeated and whatever
circles they form.

* `Searching`: what holds between two visits of a search. Whatever was seen is
  connected with the root, and what is linked with a term that was visited has
  been seen.
* `Visits`: the search visit by visit, as long as it takes.
* `exists_visits_search`: every visit takes one term from those that are queued or
  not yet seen, so that as many visits as there are of these are enough.
* `neighbourhood_eq_component`: the neighbourhood of a term consists of the
  statements about the terms connected with it.
* `visits_component`: the search ends, after one visit of each of these terms.
-/

namespace PaperGraph

namespace Graph

variable {g : Graph} {root a b : Term}

theorem mem_linkedWith_iff : b ∈ g.linkedWith a ↔ g.Linked a b := by
  simp only [linkedWith, List.mem_flatMap, Linked]
  refine exists_congr fun t => and_congr_right fun _ => ?_
  have side : ∀ (p : Prop) [Decidable p] (x : Term),
      b ∈ (if p then [x] else []) ↔ p ∧ x = b := fun p _ x => by
    by_cases hp : p
    · simp [hp, eq_comm]
    · simp [hp]
  by_cases hnode : t.object.isNode
  · rw [if_pos hnode, List.mem_append, side, side]
    simp [hnode]
  · simp [hnode]

theorem mem_terms_of_linked (h : g.Linked a b) : b ∈ g.terms := by
  obtain ⟨t, ht, _, ⟨_, rfl⟩ | ⟨_, rfl⟩⟩ := h
  · exact List.mem_flatMap.2 ⟨t, ht, by simp⟩
  · exact List.mem_flatMap.2 ⟨t, ht, by simp⟩

/-! ## The search -/

/-- What holds between two visits of a search from `root`. -/
structure Searching (g : Graph) (root : Term) (seen queue : List Term) : Prop where
  root_seen : root ∈ seen
  connected : ∀ a ∈ seen, g.Connected root a
  queued_seen : ∀ a ∈ queue, a ∈ seen
  visited : ∀ a ∈ seen, a ∉ queue → ∀ b, g.Linked a b → b ∈ seen

/-- The terms that a visit of `a` sees for the first time. -/
def fresh (g : Graph) (seen : List Term) (a : Term) : List Term :=
  ((g.linkedWith a).filter (· ∉ seen)).eraseDups

theorem mem_fresh_iff {seen : List Term} : b ∈ g.fresh seen a ↔ g.Linked a b ∧ b ∉ seen := by
  rw [fresh, List.mem_eraseDups, List.mem_filter, mem_linkedWith_iff, decide_eq_true_eq]

theorem searching_start : g.Searching root [root] [root] where
  root_seen := List.mem_singleton_self root
  connected _ ha := List.mem_singleton.1 ha ▸ .refl
  queued_seen _ h := h
  visited _ ha hq := absurd ha hq

theorem Searching.visit {seen queue : List Term} (h : g.Searching root seen (a :: queue)) :
    g.Searching root (seen ++ g.fresh seen a) (queue ++ g.fresh seen a) where
  root_seen := List.mem_append_left _ h.root_seen
  connected b hb := by
    rcases List.mem_append.1 hb with hb | hb
    · exact h.connected b hb
    · exact .step (h.connected a (h.queued_seen a List.mem_cons_self)) (mem_fresh_iff.1 hb).1
  queued_seen b hb := by
    rcases List.mem_append.1 hb with hb | hb
    · exact List.mem_append_left _ (h.queued_seen b (List.mem_cons_of_mem _ hb))
    · exact List.mem_append_right _ hb
  visited b hb hq c hc := by
    rw [List.mem_append, not_or] at hq
    -- `b` was visited earlier, or it is `a`, all whose links have just been seen.
    have hb := (List.mem_append.1 hb).resolve_right hq.2
    by_cases hab : b = a
    · subst hab
      by_cases hs : c ∈ seen
      · exact List.mem_append_left _ hs
      · exact List.mem_append_right _ (mem_fresh_iff.2 ⟨hc, hs⟩)
    · refine List.mem_append_left _ (h.visited b hb (fun hm => ?_) c hc)
      exact (List.mem_cons.1 hm).elim hab hq.1

/-- A search without a queue has seen all that is connected with the root. -/
theorem Searching.mem_seen_iff {seen : List Term} (h : g.Searching root seen []) :
    b ∈ seen ↔ g.Connected root b := by
  refine ⟨h.connected b, fun hb => ?_⟩
  induction hb with
  | refl => exact h.root_seen
  | step _ hl ih => exact h.visited _ ih List.not_mem_nil _ hl

/-- The terms that are not yet seen. -/
def unseen (g : Graph) (root : Term) (seen : List Term) : Finset Term :=
  (root :: g.terms).toFinset \ seen.toFinset

/-- What a visit sees for the first time was unseen, and is so no longer. -/
theorem card_unseen_visit (g : Graph) (root : Term) (seen : List Term) (a : Term) :
    (g.unseen root (seen ++ g.fresh seen a)).card + (g.fresh seen a).length =
      (g.unseen root seen).card := by
  have hsub : (g.fresh seen a).toFinset ⊆ g.unseen root seen := by
    intro b hb
    obtain ⟨hl, hs⟩ := mem_fresh_iff.1 (List.mem_toFinset.1 hb)
    rw [unseen, Finset.mem_sdiff, List.mem_toFinset, List.mem_toFinset]
    exact ⟨List.mem_cons_of_mem _ (mem_terms_of_linked hl), hs⟩
  have hrest : g.unseen root (seen ++ g.fresh seen a) =
      g.unseen root seen \ (g.fresh seen a).toFinset := by
    rw [unseen, unseen, List.toFinset_append, sdiff_sdiff_left, Finset.sup_eq_union]
  have hnodup : (g.fresh seen a).Nodup := nodup_eraseDups _
  rw [hrest, ← List.toFinset_card_of_nodup hnodup, Finset.card_sdiff_add_card_eq_card hsub]

/-! ## Visits -/

/-- Visits one after the other, as many as `n`, lead a search from some terms seen
    and queued to others. A visit takes the first term from the queue and puts those
    that it sees for the first time at the end. -/
inductive Visits (g : Graph) : (n : Nat) → (seen queue seen' queue' : List Term) → Prop where
  /-- No visit is made. -/
  | none {seen queue : List Term} : Visits g 0 seen queue seen queue
  /-- The first term is visited, and then the others. -/
  | visit {n : Nat} {a : Term} {seen queue seen' queue' : List Term} :
      Visits g n (seen ++ g.fresh seen a) (queue ++ g.fresh seen a) seen' queue' →
      Visits g (n + 1) seen (a :: queue) seen' queue'

variable {n : Nat} {seen queue seen' queue' : List Term}

theorem Visits.searching (h : g.Visits n seen queue seen' queue')
    (hstart : g.Searching root seen queue) : g.Searching root seen' queue' := by
  induction h with
  | none => exact hstart
  | visit _ ih => exact ih hstart.visit

/-- No term is seen twice. -/
theorem Visits.nodup (h : g.Visits n seen queue seen' queue') (hstart : seen.Nodup) :
    seen'.Nodup := by
  induction h with
  | none => exact hstart
  | visit _ ih =>
    refine ih (List.nodup_append'.2 ⟨hstart, nodup_eraseDups _, fun b hb hfresh => ?_⟩)
    exact (mem_fresh_iff.1 hfresh).2 hb

/-- Every visit takes a term from the queue, and adds to it what it sees. -/
theorem Visits.length_eq (h : g.Visits n seen queue seen' queue') :
    n + seen.length + queue'.length = queue.length + seen'.length := by
  induction h with
  | none => omega
  | visit _ ih =>
    simp only [List.length_append, List.length_cons] at ih ⊢
    omega

/-- As many visits as there are terms queued or not yet seen are enough to empty the
    queue. -/
theorem exists_visits_search (root : Term) {fuel : Nat}
    (hfuel : queue.length + (g.unseen root seen).card ≤ fuel) :
    ∃ n, g.Visits n seen queue (g.search fuel seen queue) [] := by
  induction fuel generalizing seen queue with
  | zero =>
    obtain rfl : queue = [] := List.eq_nil_of_length_eq_zero (by omega)
    exact ⟨0, .none⟩
  | succ fuel ih =>
    cases queue with
    | nil => exact ⟨0, .none⟩
    | cons a queue =>
      -- What leaves the unseen terms joins the queue, and `a` leaves that.
      have hcard := card_unseen_visit g root seen a
      have hless : (queue ++ g.fresh seen a).length +
          (g.unseen root (seen ++ g.fresh seen a)).card ≤ fuel := by
        rw [List.length_append]
        rw [List.length_cons] at hfuel
        omega
      obtain ⟨n, hn⟩ := ih hless
      exact ⟨n + 1, .visit hn⟩

/-- The search from a term ends. -/
theorem exists_visits_reachable (g : Graph) (root : Term) :
    ∃ n, g.Visits n [root] [root] (g.reachable root) [] := by
  refine exists_visits_search root ?_
  -- The root is queued at the start; all others are terms of the graph.
  have hle : g.unseen root [root] ⊆ g.terms.toFinset := by
    intro c hc
    rw [unseen, Finset.mem_sdiff, List.mem_toFinset, List.mem_toFinset, List.mem_singleton] at hc
    exact List.mem_toFinset.2 ((List.mem_cons.1 hc.1).resolve_left hc.2)
  have hcard := (Finset.card_le_card hle).trans g.terms.toFinset_card_le
  rw [List.length_singleton]
  omega

theorem mem_reachable_iff : b ∈ g.reachable root ↔ g.Connected root b := by
  obtain ⟨n, hn⟩ := exists_visits_reachable g root
  exact (hn.searching searching_start).mem_seen_iff

/-! ## The neighbourhood -/

open Classical in
/-- The statements about the terms connected with `root`, in the order of the
    graph and with its repetitions. -/
noncomputable def component (g : Graph) (root : Term) : List Triple :=
  g.triples.filter fun t => g.Connected root t.subject

theorem mem_component_iff {t : Triple} :
    t ∈ g.component root ↔ t ∈ g.triples ∧ g.Connected root t.subject := by
  simp only [component, List.mem_filter, decide_eq_true_eq]

theorem neighbourhood_eq_component (g : Graph) (root : Term) :
    g.neighbourhood root = g.component root := by
  refine List.filter_congr fun t _ => ?_
  rw [decide_eq_decide]
  exact mem_reachable_iff

/-- The search from `root` visits every term that is connected with it once, and then
    its queue is empty; no search from there takes more visits, whatever circles the
    statements form. The neighbourhood consists of the statements about these terms,
    in the order of the graph and with its repetitions. -/
theorem visits_component (g : Graph) (root : Term) :
    g.Visits (g.reachable root).length [root] [root] (g.reachable root) [] ∧
      (∀ n seen queue, g.Visits n [root] [root] seen queue → n ≤ (g.reachable root).length) ∧
      (g.reachable root).Nodup ∧ (∀ a, a ∈ g.reachable root ↔ g.Connected root a) ∧
      g.neighbourhood root = g.component root := by
  obtain ⟨n, hn⟩ := exists_visits_reachable g root
  have hnodup : [root].Nodup := List.nodup_singleton root
  refine ⟨?_, fun m seen queue hm => ?_, hn.nodup hnodup, fun a => mem_reachable_iff,
    neighbourhood_eq_component g root⟩
  · -- In the end every term that was seen has left the queue by a visit.
    have hlength := hn.length_eq
    simp only [List.length_singleton, List.length_nil] at hlength
    obtain rfl : n = (g.reachable root).length := by omega
    exact hn
  · -- At no time have more terms been seen than there are connected with the root.
    have hlength := hm.length_eq
    have hseen : seen ⊆ g.reachable root := fun a ha =>
      mem_reachable_iff.2 ((hm.searching searching_start).connected a ha)
    have hle := (List.subperm_of_subset (hm.nodup hnodup) hseen).length_le
    rw [List.length_singleton] at hlength
    omega

end Graph

end PaperGraph
