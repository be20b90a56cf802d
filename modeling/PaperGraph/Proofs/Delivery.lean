import PaperGraph.Proofs.Orders
import PaperGraph.Watch.Stream

/-!
# Delivery of changes

No change is lost on the way from the watcher to the batches. A call for the
next batch takes notices from the front of the stream and answers with the
sources that they touch, or with nothing if they touch none and the watcher has
gone away.

* `PathSet.Lists`: a set of paths holds what was put in, each path once;
* `Stream.answers_nextBatch?`: a call, by what it takes;
* `Stream.Served`: calls one after the other, each on what the one before has
  left.

So every notice is taken once, in its order, and the batches together hold the
sources that were touched, and no other path (`Stream.served_calls`).
-/

namespace PaperGraph

open Std

/-! ## Sets of paths -/

/-- What a set of paths lists of some paths. -/
structure PathSet.Lists (s : PathSet) (ps : List Path) : Prop where
  /-- No others. -/
  mem : ∀ p ∈ s.paths, p ∈ ps
  /-- Every one, if not in its own spelling. -/
  covers : ∀ p ∈ ps, ∃ q ∈ s.paths, q.components = p.components
  /-- In their order, and none in two spellings. -/
  ordered : s.paths.Pairwise fun p q => p.order q = .lt

namespace PathSet

theorem mem_insertOrdered {p q : Path} {paths : List Path} (h : q ∈ insertOrdered p paths) :
    q = p ∨ q ∈ paths := by
  fun_induction insertOrdered p paths with
  | case1 => exact .inl (List.mem_singleton.1 h)
  | case2 r rest hlt => exact List.mem_cons.1 h
  | case3 r rest heq => exact .inr h
  | case4 r rest hgt ih =>
    rcases List.mem_cons.1 h with rfl | h
    · exact .inr List.mem_cons_self
    · exact (ih h).imp_right (List.mem_cons_of_mem r)

theorem mem_insertOrdered_of_mem (p : Path) {q : Path} {paths : List Path} (h : q ∈ paths) :
    q ∈ insertOrdered p paths := by
  fun_induction insertOrdered p paths with
  | case1 => exact absurd h List.not_mem_nil
  | case2 r rest hlt => exact List.mem_cons_of_mem p h
  | case3 r rest heq => exact h
  | case4 r rest hgt ih =>
    rcases List.mem_cons.1 h with rfl | h
    · exact List.mem_cons_self
    · exact List.mem_cons_of_mem r (ih h)

theorem exists_mem_insertOrdered (p : Path) (paths : List Path) :
    ∃ q ∈ insertOrdered p paths, q.components = p.components := by
  fun_induction insertOrdered p paths with
  | case1 => exact ⟨p, List.mem_singleton_self p, rfl⟩
  | case2 r rest hlt => exact ⟨p, List.mem_cons_self, rfl⟩
  | case3 r rest heq => exact ⟨r, List.mem_cons_self, (Path.order_eq_eq_iff.1 heq).symm⟩
  | case4 r rest hgt ih =>
    obtain ⟨q, hq, hsame⟩ := ih
    exact ⟨q, List.mem_cons_of_mem r hq, hsame⟩

theorem pairwise_insertOrdered (p : Path) {paths : List Path}
    (h : paths.Pairwise fun p q => p.order q = .lt) :
    (insertOrdered p paths).Pairwise fun p q => p.order q = .lt := by
  fun_induction insertOrdered p paths with
  | case1 => exact List.pairwise_singleton _ _
  | case2 r rest hlt =>
    refine List.pairwise_cons.2 ⟨fun q hq => ?_, h⟩
    rcases List.mem_cons.1 hq with rfl | hq
    · exact hlt
    · exact TransCmp.lt_trans hlt ((List.pairwise_cons.1 h).1 q hq)
  | case3 r rest heq => exact h
  | case4 r rest hgt ih =>
    obtain ⟨hr, hrest⟩ := List.pairwise_cons.1 h
    refine List.pairwise_cons.2 ⟨fun q hq => ?_, ih hrest⟩
    rcases mem_insertOrdered hq with rfl | hq
    · rw [Path.order_swap, hgt]
      rfl
    · exact hr q hq

theorem Lists.empty : Lists {} [] where
  mem _ h := absurd h List.not_mem_nil
  covers _ h := absurd h List.not_mem_nil
  ordered := .nil

theorem Lists.insert {s : PathSet} {ps : List Path} (h : s.Lists ps) (p : Path) :
    (s.insert p).Lists (ps ++ [p]) where
  mem q hq := by
    rcases mem_insertOrdered hq with rfl | hq
    · exact List.mem_append_right ps (List.mem_singleton_self q)
    · exact List.mem_append_left [p] (h.mem q hq)
  covers q hq := by
    rcases List.mem_append.1 hq with hq | hq
    · obtain ⟨r, hr, hsame⟩ := h.covers q hq
      exact ⟨r, mem_insertOrdered_of_mem p hr, hsame⟩
    · obtain rfl := List.mem_singleton.1 hq
      exact exists_mem_insertOrdered q s.paths
  ordered := pairwise_insertOrdered p h.ordered

theorem Lists.insertAll {s : PathSet} {ps : List Path} (h : s.Lists ps) (qs : List Path) :
    (s.insertAll qs).Lists (ps ++ qs) := by
  induction qs generalizing s ps with
  | nil => rwa [List.append_nil]
  | cons q qs ih =>
    rw [List.append_cons]
    exact ih (h.insert q)

/-- A set lists nothing if and only if it is empty. -/
theorem Lists.isEmpty_iff {s : PathSet} {ps : List Path} (h : s.Lists ps) :
    s.isEmpty ↔ ps = [] := by
  rw [PathSet.isEmpty, List.isEmpty_iff]
  constructor
  · intro hs
    refine List.eq_nil_iff_forall_not_mem.2 fun p hp => ?_
    obtain ⟨q, hq, _⟩ := h.covers p hp
    rw [hs] at hq
    exact absurd hq List.not_mem_nil
  · rintro rfl
    exact List.eq_nil_iff_forall_not_mem.2 fun p hp => absurd (h.mem p hp) List.not_mem_nil

end PathSet

/-! ## Sources that are touched -/

/-- The sources that an event touches: it has to tell that they may have
    changed. -/
def Event.touched (e : Event) : List Path :=
  if e.change ∈ [.create, .modify, .rename, .remove, .any] then e.paths.filter (·.isSource)
  else []

/-- The sources that a notice tells of. -/
def Notice.touched : Notice → List Path
  | .event e => e.touched
  | .complaint => []
  | .silence => []

theorem Change.isRelevant_iff {c : Change} :
    c.isRelevant ↔ c ∈ [.create, .modify, .rename, .remove, .any] := by
  cases c <;> decide

namespace Stream

/-- The sources that notices tell of, one after the other. -/
def touched (s : Stream) : List Path :=
  s.flatMap Notice.touched

theorem touched_cons (notice : Notice) (s : Stream) :
    touched (notice :: s) = notice.touched ++ touched s :=
  List.flatMap_cons

theorem receive_eq (b : Batch) (notice : Notice) :
    Batch.receive b notice = b.insertAll notice.touched := by
  cases notice with
  | event e =>
    rw [Batch.receive, Batch.absorb, Notice.touched, Event.touched]
    by_cases h : e.change.isRelevant
    · rw [if_pos h, if_pos (Change.isRelevant_iff.1 h)]
    · rw [if_neg h, if_neg fun hmem => h (Change.isRelevant_iff.2 hmem)]
      rfl
  | complaint => rfl
  | silence => rfl

/-- A notice adds to a batch what it tells of. -/
theorem lists_receive {b : Batch} {ps : List Path} (h : b.Lists ps) (notice : Notice) :
    (Batch.receive b notice).Lists (ps ++ notice.touched) := by
  rw [receive_eq]
  exact h.insertAll _

/-! ## Calls -/

/-- What a call may answer that takes some notices and leaves others. -/
inductive Answers (taken left : Stream) : Option Batch → Prop
  /-- A batch of what was touched, if anything was. -/
  | batch {b : Batch} (hlists : b.Lists taken.touched) (htouched : b.isEmpty = false) :
    Answers taken left (some b)
  /-- Nothing, if nothing was touched and nothing will be any more. -/
  | gone (htouched : taken.touched = []) (hleft : left = []) : Answers taken left none

theorem Answers.of_touched_eq {taken taken' left : Stream} {answer : Option Batch}
    (h : Answers taken left answer) (htouched : taken'.touched = taken.touched) :
    Answers taken' left answer := by
  cases h with
  | batch hlists hne => exact .batch (htouched ▸ hlists) hne
  | gone hnone hleft => exact .gone (htouched ▸ hnone) hleft

/-- A call that takes nothing finds nothing. -/
theorem Answers.left_eq_nil {left : Stream} {answer : Option Batch} (h : Answers [] left answer) :
    left = [] := by
  cases h with
  | batch hlists hne => exact absurd (hlists.isEmpty_iff.2 rfl) (by simp [hne])
  | gone _ hleft => exact hleft

/-- A burst takes notices up to the next silence, and the batch grows by what
    they tell of. -/
theorem lists_burst (s : Stream) {b : Batch} {ps : List Path} (h : b.Lists ps) :
    ∃ taken, s = taken ++ (burst b s).2 ∧ (burst b s).1.Lists (ps ++ taken.touched) := by
  induction s generalizing b ps with
  | nil => exact ⟨[], rfl, by rwa [touched, List.flatMap_nil, List.append_nil]⟩
  | cons notice rest ih =>
    obtain ⟨taken, hrest, hlists⟩ := ih (lists_receive h notice)
    have htouched : ps ++ touched (notice :: taken) = ps ++ notice.touched ++ touched taken := by
      rw [touched_cons, List.append_assoc]
    cases notice with
    | silence =>
      have hsilence : touched [.silence] = [] := rfl
      exact ⟨[.silence], rfl, by rwa [hsilence, List.append_nil]⟩
    | event e =>
      refine ⟨.event e :: taken, congrArg (.event e :: ·) hrest, ?_⟩
      rwa [htouched]
    | complaint =>
      refine ⟨.complaint :: taken, congrArg (.complaint :: ·) hrest, ?_⟩
      rwa [htouched]

/-- A call passes over what touches nothing, and then takes a burst. -/
theorem answers_nextBatch? (s : Stream) :
    ∃ taken, s = taken ++ (nextBatch? s).2 ∧ Answers taken (nextBatch? s).2 (nextBatch? s).1 := by
  induction s with
  | nil => exact ⟨[], rfl, .gone rfl rfl⟩
  | cons notice rest ih =>
    have hfirst := lists_receive .empty notice
    rw [List.nil_append] at hfirst
    by_cases hempty : (Batch.receive {} notice).isEmpty
    · have hnone : notice.touched = [] := hfirst.isEmpty_iff.1 hempty
      have hnext : nextBatch? (notice :: rest) = nextBatch? rest := by
        rw [nextBatch?]
        exact if_pos hempty
      obtain ⟨taken, hrest, hanswers⟩ := ih
      have htouched : touched (notice :: taken) = touched taken := by
        rw [touched_cons, hnone, List.nil_append]
      rw [hnext]
      exact ⟨notice :: taken, congrArg (notice :: ·) hrest, hanswers.of_touched_eq htouched⟩
    · have hsome : notice.touched ≠ [] := fun hnone => hempty (hfirst.isEmpty_iff.2 hnone)
      have hnext : nextBatch? (notice :: rest) =
          (some (burst (Batch.receive {} notice) rest).1,
            (burst (Batch.receive {} notice) rest).2) := by
        rw [nextBatch?]
        exact if_neg hempty
      obtain ⟨taken, hrest, hlists⟩ := lists_burst rest hfirst
      rw [hnext]
      refine ⟨notice :: taken, congrArg (notice :: ·) hrest, .batch ?_ ?_⟩
      · rwa [touched_cons]
      · rw [Bool.eq_false_iff, Ne, hlists.isEmpty_iff, List.append_eq_nil_iff]
        exact fun hnil => hsome hnil.1

/-- The answers to some calls, one after the other, and what they leave. -/
def calls : (number : Nat) → Stream → List (Option Batch) × Stream
  | 0, s => ([], s)
  | number + 1, s =>
    let (answer, rest) := nextBatch? s
    let (answers, left) := calls number rest
    (answer :: answers, left)

/-- Calls that were made one after the other on a stream, by what each has taken
    and answered. What one leaves is there for the next. -/
inductive Served : Stream → List (Stream × Option Batch) → Stream → Prop
  /-- No call leaves everything. -/
  | done {s : Stream} : Served s [] s
  /-- The first call takes what stands at the front. -/
  | call {taken rest left : Stream} {answer : Option Batch}
    {further : List (Stream × Option Batch)} (hanswers : Answers taken rest answer)
    (hrest : Served rest further left) : Served (taken ++ rest) ((taken, answer) :: further) left

namespace Served

variable {s left : Stream} {made : List (Stream × Option Batch)}

/-- Every notice is taken by one call, or left, in its order. -/
theorem eq_append (h : Served s made left) : s = made.flatMap (·.1) ++ left := by
  induction h with
  | done => rfl
  | call _ _ ih => rw [List.flatMap_cons, List.append_assoc, ← ih]

/-- The batches hold no path that was not touched. -/
theorem mem_touched (h : Served s made left) {b : Batch} {p : Path}
    (hb : some b ∈ made.map (·.2)) (hp : p ∈ b.paths) : p ∈ touched (made.flatMap (·.1)) := by
  induction h with
  | done => exact absurd hb List.not_mem_nil
  | call hanswers _ ih =>
    rw [List.flatMap_cons, touched, List.flatMap_append, List.mem_append]
    rcases List.mem_cons.1 hb with hb | hb
    · cases hanswers with
      | batch hlists _ =>
        obtain rfl := Option.some.inj hb
        exact .inl (hlists.mem p hp)
      | gone => simp at hb
    · exact .inr (ih hb)

/-- Every path that was touched is in a batch, if not in its own spelling. -/
theorem covers (h : Served s made left) {p : Path} (hp : p ∈ touched (made.flatMap (·.1))) :
    ∃ b, some b ∈ made.map (·.2) ∧ ∃ q ∈ b.paths, q.components = p.components := by
  induction h with
  | done => exact absurd hp List.not_mem_nil
  | call hanswers _ ih =>
    rw [List.flatMap_cons, touched, List.flatMap_append, List.mem_append] at hp
    rcases hp with hp | hp
    · cases hanswers with
      | batch hlists _ => exact ⟨_, List.mem_cons_self, hlists.covers p hp⟩
      | gone hnone _ =>
        rw [touched] at hnone
        rw [hnone] at hp
        exact absurd hp List.not_mem_nil
    · obtain ⟨b, hb, hq⟩ := ih hp
      exact ⟨b, List.mem_cons_of_mem _ hb, hq⟩

end Served

theorem exists_served (number : Nat) (s : Stream) :
    ∃ made, made.map (·.2) = (calls number s).1 ∧ Served s made (calls number s).2 := by
  induction number generalizing s with
  | zero => exact ⟨[], rfl, .done⟩
  | succ number ih =>
    obtain ⟨taken, hs, hanswers⟩ := answers_nextBatch? s
    obtain ⟨made, hmade, hserved⟩ := ih (nextBatch? s).2
    refine ⟨(taken, (nextBatch? s).1) :: made, congrArg ((nextBatch? s).1 :: ·) hmade, ?_⟩
    conv => arg 1; rw [hs]
    exact .call hanswers hserved

theorem length_nextBatch?_lt {s : Stream} (h : s ≠ []) : (nextBatch? s).2.length < s.length := by
  obtain ⟨taken, hs, hanswers⟩ := answers_nextBatch? s
  have htaken : taken ≠ [] := by
    rintro rfl
    rw [hanswers.left_eq_nil, List.append_nil] at hs
    exact h hs
  have hlength := congrArg List.length hs
  rw [List.length_append] at hlength
  have := List.length_pos_iff.2 htaken
  omega

/-- Calls come to the end of the stream. -/
theorem left_calls_eq_nil {number : Nat} {s : Stream} (h : s.length ≤ number) :
    (calls number s).2 = [] := by
  induction number generalizing s with
  | zero => exact List.length_eq_zero_iff.1 (Nat.le_zero.1 h)
  | succ number ih =>
    refine ih ?_
    by_cases hs : s = []
    · subst hs
      exact Nat.zero_le number
    · have := length_nextBatch?_lt hs
      omega

/-- Whatever calls are made one after the other on a stream: every notice that
    is no longer left was taken by one of them, in order; each answered with
    what was touched, if anything was, and otherwise with nothing, at the end of
    the stream; and the batches together hold what was touched, no more and no
    less. Enough calls leave nothing. -/
theorem served_calls (number : Nat) (s : Stream) : ∃ made,
    made.map (·.2) = (calls number s).1 ∧ Served s made (calls number s).2 ∧
    s = made.flatMap (·.1) ++ (calls number s).2 ∧
    (∀ b p, some b ∈ (calls number s).1 → p ∈ b.paths → p ∈ touched (made.flatMap (·.1))) ∧
    (∀ p ∈ touched (made.flatMap (·.1)), ∃ b, some b ∈ (calls number s).1 ∧
      ∃ q ∈ b.paths, q.components = p.components) ∧
    (s.length ≤ number → (calls number s).2 = []) := by
  obtain ⟨made, hmade, hserved⟩ := exists_served number s
  refine ⟨made, hmade, hserved, hserved.eq_append, fun b p hb hp => ?_, fun p hp => ?_,
    left_calls_eq_nil⟩
  · rw [← hmade] at hb
    exact hserved.mem_touched hb hp
  · rw [← hmade]
    exact hserved.covers hp

/-- Two bursts. The first begins with a complaint and touches one source, the
    other reads a source and removes it, which is told in two spellings. -/
def sampleStream : Stream := [
  .complaint,
  .event { change := .modify, paths := [⟨"a.rdf.tex"⟩, ⟨"a.tex"⟩] },
  .silence,
  .event { change := .access, paths := [⟨"k/b.rdf.tex"⟩] },
  .event { change := .remove, paths := [⟨"k//b.rdf.tex"⟩, ⟨"k/b.rdf.tex"⟩] }]

theorem calls_sampleStream :
    (calls 5 sampleStream).1 =
      [some ⟨[⟨"a.rdf.tex"⟩]⟩, some ⟨[⟨"k//b.rdf.tex"⟩]⟩, none, none, none] ∧
    (calls 5 sampleStream).2 = [] := by
  obtain ⟨_, _, _, _, _, _, hleft⟩ := served_calls 5 sampleStream
  exact ⟨by decide +kernel, hleft (by decide)⟩

end Stream

end PaperGraph
