import Mathlib.Data.List.Nodup
import PaperGraph.Graph.Turtle
import PaperGraph.Proofs.Orders

/-!
# The blocks of a graph

Statements are sorted, repetitions dropped, and what is left is cut into the
blocks of the subjects.

* `Turtle.canonical_eq_iff`: the sorted list depends on the set of the
  statements only, and on all of it;
* `Turtle.Gathers`: blocks that gather statements by subject, each once;
* `Turtle.gathers_blocks`: the blocks of a graph do so.
-/

namespace PaperGraph.Turtle

open Std

/-! ## The statements in order -/

theorem mem_dropRepeats {α : Type} [DecidableEq α] {l : List α} {a : α} :
    a ∈ dropRepeats l ↔ a ∈ l := by
  fun_induction dropRepeats l with
  | case1 => rfl
  | case2 b => rfl
  | case3 b rest ih => rw [ih]; simp
  | case4 b c rest hne ih => rw [List.mem_cons, ih, ← List.mem_cons]

/-- Where equal elements stand together, none is left twice. -/
theorem pairwise_dropRepeats {α : Type} [DecidableEq α] {cmp : α → α → Ordering} [TransCmp cmp]
    [LawfulEqCmp cmp] {l : List α} (h : l.Pairwise fun a b => (cmp a b).isLE) :
    (dropRepeats l).Pairwise fun a b => cmp a b = .lt := by
  fun_induction dropRepeats l with
  | case1 => exact .nil
  | case2 b => exact List.pairwise_singleton _ _
  | case3 b rest ih => exact ih h.of_cons
  | case4 b c rest hne ih =>
    obtain ⟨hb, hrest⟩ := List.pairwise_cons.1 h
    refine List.pairwise_cons.2 ⟨fun d hd => ?_, ih hrest⟩
    have hd := mem_dropRepeats.1 hd
    -- If `d` were `b`, then so would be `c` between them.
    have hbd : cmp b d ≠ .eq := by
      intro he
      have hbc := hb c List.mem_cons_self
      rcases List.mem_cons.1 hd with rfl | hd
      · exact hne (LawfulEqCmp.eq_of_compare he)
      · have hcd := (List.pairwise_cons.1 hrest).1 d hd
        obtain rfl := LawfulEqCmp.eq_of_compare he
        exact hne (LawfulEqCmp.eq_of_compare (OrientedCmp.isLE_antisymm hbc hcd))
    exact (Ordering.isLE_iff_eq_lt_or_eq_eq.1 (hb d hd)).resolve_right hbd

theorem mem_canonical {triples : List Triple} {t : Triple} :
    t ∈ canonical triples ↔ t ∈ triples := by
  rw [canonical, mem_dropRepeats, List.mem_mergeSort]

theorem pairwise_canonical (triples : List Triple) :
    (canonical triples).Pairwise fun t u => t.order u = .lt :=
  pairwise_dropRepeats (pairwise_mergeSort_isLE triples)

theorem nodup_canonical (triples : List Triple) : (canonical triples).Nodup :=
  nodup_of_pairwise_lt (pairwise_canonical triples)

/-- The canonical list depends on the set of the statements, and tells it. -/
theorem canonical_eq_iff {triples further : List Triple} :
    canonical triples = canonical further ↔ ∀ t, t ∈ triples ↔ t ∈ further := by
  constructor
  · intro h t
    rw [← mem_canonical, h, mem_canonical]
  · intro h
    refine eq_of_pairwise_lt (pairwise_canonical _) (pairwise_canonical _) fun t => ?_
    rw [mem_canonical, mem_canonical, h]

/-! ## Blocks -/

theorem flatMap_blocks (ts : List Triple) : (blocks ts).flatMap (·.2) = ts := by
  fun_induction blocks ts with
  | case1 => rfl
  | case2 t rest us more hblocks ih =>
    rw [hblocks, List.flatMap_cons] at ih
    rw [List.flatMap_cons, List.cons_append, ih]
  | case3 t rest s us more hblocks hne ih =>
    rw [hblocks] at ih
    rw [List.flatMap_cons, ih, List.singleton_append]
  | case4 t rest hblocks ih =>
    rw [hblocks] at ih
    rw [← ih]
    rfl

/-- A block is there for its statements, and they are about its subject. -/
structure IsBlock (block : Term × List Triple) : Prop where
  /-- There is a statement. -/
  ne_nil : block.2 ≠ []
  /-- Every one is about the subject. -/
  subject_eq : ∀ t ∈ block.2, t.subject = block.1

theorem isBlock_of_mem_blocks {ts : List Triple} {b : Term × List Triple} (h : b ∈ blocks ts) :
    IsBlock b := by
  fun_induction blocks ts generalizing b with
  | case1 => exact absurd h List.not_mem_nil
  | case2 t rest us more hblocks ih =>
    rcases List.mem_cons.1 h with rfl | h
    · have hfirst : IsBlock (t.subject, us) := ih (by rw [hblocks]; exact List.mem_cons_self)
      refine ⟨by simp, fun u hu => ?_⟩
      rcases List.mem_cons.1 hu with rfl | hu
      · rfl
      · exact hfirst.subject_eq u hu
    · exact ih (by rw [hblocks]; exact List.mem_cons_of_mem _ h)
  | case3 t rest s us more hblocks hne ih =>
    rcases List.mem_cons.1 h with rfl | h
    · exact ⟨by simp, fun u hu => by rw [List.mem_singleton.1 hu]⟩
    · exact ih (by rwa [hblocks])
  | case4 t rest hblocks ih =>
    obtain rfl := List.mem_singleton.1 h
    exact ⟨by simp, fun u hu => by rw [List.mem_singleton.1 hu]⟩

theorem mem_of_mem_block {ts : List Triple} {b : Term × List Triple} (hb : b ∈ blocks ts)
    {t : Triple} (ht : t ∈ b.2) : t ∈ ts := by
  rw [← flatMap_blocks ts]
  exact List.mem_flatMap.2 ⟨b, hb, ht⟩

theorem exists_block_of_mem {ts : List Triple} {t : Triple} (h : t ∈ ts) :
    ∃ b ∈ blocks ts, t ∈ b.2 ∧ b.1 = t.subject := by
  rw [← flatMap_blocks ts] at h
  obtain ⟨b, hb, ht⟩ := List.mem_flatMap.1 h
  exact ⟨b, hb, ht, ((isBlock_of_mem_blocks hb).subject_eq t ht).symm⟩

theorem isLE_order_subject {t u : Triple} (h : t.order u = .lt) :
    (t.subject.order u.subject).isLE := by
  rw [Triple.order, Ordering.then_assoc] at h
  cases ho : t.subject.order u.subject with
  | lt => rfl
  | eq => rfl
  | gt => simp [ho] at h

/-- The subjects of sorted statements are sorted, each of them once. -/
theorem pairwise_blocks {ts : List Triple} (h : ts.Pairwise fun t u => t.order u = .lt) :
    (blocks ts).Pairwise fun b c => b.1.order c.1 = .lt := by
  fun_induction blocks ts with
  | case1 => exact .nil
  | case2 t rest us more hblocks ih =>
    have hrest := ih h.of_cons
    rw [hblocks] at hrest
    exact List.pairwise_cons.2 ⟨(List.pairwise_cons.1 hrest).1, hrest.of_cons⟩
  | case3 t rest s us more hblocks hne ih =>
    have hrest := ih h.of_cons
    rw [hblocks] at hrest
    -- The statement comes before those of the next block, which has another subject.
    have hnext : t.subject.order s = .lt := by
      have hmem : (s, us) ∈ blocks rest := by rw [hblocks]; exact List.mem_cons_self
      have hblock := isBlock_of_mem_blocks hmem
      obtain ⟨u, hu⟩ := List.exists_mem_of_ne_nil us hblock.ne_nil
      have hle := isLE_order_subject ((List.pairwise_cons.1 h).1 u (mem_of_mem_block hmem hu))
      rw [hblock.subject_eq u hu] at hle
      exact (Ordering.isLE_iff_eq_lt_or_eq_eq.1 hle).resolve_right fun he =>
        hne (LawfulEqCmp.eq_of_compare he).symm
    refine List.pairwise_cons.2 ⟨fun c hc => ?_, hrest⟩
    rcases List.mem_cons.1 hc with rfl | hc
    · exact hnext
    · exact TransCmp.lt_trans hnext ((List.pairwise_cons.1 hrest).1 c hc)
  | case4 t rest hblocks ih => exact List.pairwise_singleton _ _

/-- Blocks that gather statements by subject, each of them once. -/
structure Gathers (bs : List (Term × List Triple)) (triples : List Triple) : Prop where
  /-- No subject has two blocks. -/
  nodup_subjects : (bs.map (·.1)).Nodup
  /-- There are blocks for what the statements are about, and for nothing else. -/
  mem_subjects : ∀ s, s ∈ bs.map (·.1) ↔ ∃ t ∈ triples, t.subject = s
  /-- No block repeats a statement. -/
  nodup : ∀ b ∈ bs, b.2.Nodup
  /-- A block holds the statements about its subject, and no others. -/
  mem_iff : ∀ b ∈ bs, ∀ t, t ∈ b.2 ↔ t ∈ triples ∧ t.subject = b.1

theorem gathers_blocks (triples : List Triple) : Gathers (blocks (canonical triples)) triples := by
  have hsubjects : ((blocks (canonical triples)).map (·.1)).Nodup := by
    refine List.pairwise_map.2 ((pairwise_blocks (pairwise_canonical triples)).imp ?_)
    intro b c hlt he
    rw [he, Term.order_self] at hlt
    simp at hlt
  refine ⟨hsubjects, fun s => ?_, fun b hb => ?_, fun b hb t => ?_⟩
  · rw [List.mem_map]
    constructor
    · rintro ⟨b, hb, rfl⟩
      have hblock := isBlock_of_mem_blocks hb
      obtain ⟨t, ht⟩ := List.exists_mem_of_ne_nil _ hblock.ne_nil
      exact ⟨t, mem_canonical.1 (mem_of_mem_block hb ht), hblock.subject_eq t ht⟩
    · rintro ⟨t, ht, rfl⟩
      obtain ⟨b, hb, _, hsubject⟩ := exists_block_of_mem (mem_canonical.2 ht)
      exact ⟨b, hb, hsubject⟩
  · have hnodup := nodup_canonical triples
    rw [← flatMap_blocks (canonical triples), List.nodup_flatMap] at hnodup
    exact hnodup.1 b hb
  · constructor
    · exact fun ht => ⟨mem_canonical.1 (mem_of_mem_block hb ht),
        (isBlock_of_mem_blocks hb).subject_eq t ht⟩
    · rintro ⟨ht, hsubject⟩
      -- The block that holds the statement has the same subject, so it is this one.
      obtain ⟨c, hc, htc, hc'⟩ := exists_block_of_mem (mem_canonical.2 ht)
      have hcb : c = b := List.inj_on_of_nodup_map hsubjects hc hb (hc'.trans hsubject)
      rwa [← hcb]

end PaperGraph.Turtle
