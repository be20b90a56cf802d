import Mathlib.Data.Set.List
import PaperGraph.Proofs.Exchanges

/-!
# Calls in a session

A session makes calls one after the other and is told what becomes of their helpers. It
keeps the signals of the helpers that it has left behind, and each of them is addressed to
the call that it was made for. So a call is answered as if it were the only one, and a
session returns what a caller with helpers at work beside it can return.

* `Session.Addressed`: no signal is addressed to a call that is still to be made;
* `Session.results_eq`: the results of a session, call by call;
* `Exchange.exists_run`: steps of a caller and its helpers that return what a session does;
* `Exchange.RunOf.exists_calls`: a session that returns what a caller and its helpers do;
* `Exchange.Orderly`: what can be relied on, whatever the helpers do.
-/

namespace PaperGraph

namespace Store

variable {store : Store} {r : Request}

/-! ## Single calls -/

theorem ask_of_not_same (h : ¬ sameStoreName r.store store.name) (limit? : Option Nat)
    (helper : Helper) :
    store.ask r limit? helper = .error (.otherStore r.store store.name) := by
  simp only [ask, Session.call, if_pos h]

theorem ask_none (h : sameStoreName r.store store.name) (helper : Helper) :
    store.ask r none helper = store.answer r := by
  simp only [ask, Session.call, if_neg (not_not.2 h)]

theorem ask_unstarted (h : sameStoreName r.store store.name) (limit : Nat) (reason : String) :
    store.ask r (some limit) (.unstarted reason) = .error (.unavailable reason) := by
  simp only [ask, Session.call, if_neg (not_not.2 h)]

theorem ask_answering (h : sameStoreName r.store store.name) (limit after : Nat) :
    store.ask r (some limit) (.answering after) =
      if after < limit then store.answer r else .error (.timeout r.iri limit) := by
  simp only [ask, Session.call, if_neg (not_not.2 h)]
  by_cases hafter : after < limit
  · simp [Session.awaited?, Session.signalsOf, Session.outcome, hafter]
  · simp [Session.awaited?, Session.signalsOf, Session.outcome, hafter]

theorem ask_dying (h : sameStoreName r.store store.name) (limit after : Nat) :
    store.ask r (some limit) (.dying after) =
      if after < limit then Exchange.deserted else .error (.timeout r.iri limit) := by
  simp only [ask, Session.call, if_neg (not_not.2 h)]
  by_cases hafter : after < limit
  · simp [Session.awaited?, Session.signalsOf, Session.outcome, hafter, Exchange.deserted]
  · simp [Session.awaited?, Session.signalsOf, Session.outcome, hafter]

end Store

namespace Session

/-! ## Calls in a row -/

/-- A call, and what becomes of its helper. -/
structure Call where
  /-- What is asked for. -/
  request : Request
  /-- The limit, if there is one. -/
  limit? : Option Nat
  /-- What becomes of the helper. -/
  helper : Helper

/-- What a call has come to. -/
structure Result where
  /-- What was asked for. -/
  request : Request
  /-- The limit. -/
  limit? : Option Nat
  /-- What the call has returned. -/
  answer : Answer

/-- The results of calls that are made one after the other. -/
def results (s : Session) (store : Store) : List Call → List Result
  | [] => []
  | c :: rest =>
    let (answer, next) := s.call store c.request c.limit? c.helper
    { request := c.request, limit? := c.limit?, answer } :: next.results store rest

theorem results_cons (s : Session) (store : Store) (c : Call) (rest : List Call) :
    s.results store (c :: rest) =
      { request := c.request, limit? := c.limit?,
        answer := (s.call store c.request c.limit? c.helper).1 } ::
        (s.call store c.request c.limit? c.helper).2.results store rest :=
  rfl

/-- The result of a call that is the only one. -/
def Call.resultAlone (store : Store) (c : Call) : Result :=
  { request := c.request, limit? := c.limit?, answer := store.ask c.request c.limit? c.helper }

/-- The signals are addressed to calls that were made. -/
def Addressed (s : Session) : Prop :=
  ∀ signal ∈ s.signals, signal.call < s.calls

theorem addressed_start : Addressed {} := by
  simp [Addressed]

variable {s : Session} {store : Store} {r : Request}

/-- A call finds no signal but that of its own helper. -/
theorem awaited?_append (h : s.Addressed) (signals : List Signal) (limit : Nat) :
    s.awaited? (s.signals ++ signals) limit = s.awaited? signals limit := by
  rw [awaited?, awaited?, List.find?_append, List.find?_eq_none.2, Option.none_or]
  intro signal hsignal
  have hcall := h signal hsignal
  simp only [decide_eq_true_eq, not_and]
  omega

/-- At which time a call is made, and as which one, is of no matter. -/
theorem outcome_awaited?_signalsOf (s s' : Session) (store : Store) (r : Request) (limit : Nat)
    (helper : Helper) :
    outcome r limit (s.awaited? (s.signalsOf store r helper) limit) =
      outcome r limit (s'.awaited? (s'.signalsOf store r helper) limit) := by
  cases helper with
  | unstarted reason => rfl
  | answering after | dying after =>
    by_cases hafter : after < limit
    · simp [awaited?, signalsOf, outcome, hafter]
    · simp [awaited?, signalsOf, outcome, hafter]

/-- A call is answered as if it were the only one. -/
theorem call_fst (h : s.Addressed) (store : Store) (r : Request) (limit? : Option Nat)
    (helper : Helper) : (s.call store r limit? helper).1 = store.ask r limit? helper := by
  rw [Store.ask, call.eq_def, call.eq_def]
  by_cases hname : sameStoreName r.store store.name
  · rw [if_neg (not_not.2 hname), if_neg (not_not.2 hname)]
    cases limit? with
    | none => rfl
    | some limit =>
      cases helper with
      | unstarted reason => rfl
      | answering after | dying after =>
        simp only [awaited?_append h, List.nil_append]
        exact outcome_awaited?_signalsOf s {} store r limit _
  · rw [if_pos hname, if_pos hname]

theorem Addressed.call (h : s.Addressed) (store : Store) (r : Request) (limit? : Option Nat)
    (helper : Helper) : (s.call store r limit? helper).2.Addressed := by
  have hmore : ∀ signal ∈ s.signals, signal.call < s.calls + 1 := fun signal hsignal =>
    Nat.lt_succ_of_lt (h signal hsignal)
  rw [call.eq_def]
  by_cases hname : sameStoreName r.store store.name
  · rw [if_neg (not_not.2 hname)]
    cases limit? with
    | none => exact h
    | some limit =>
      cases helper with
      | unstarted reason => exact hmore
      | answering after | dying after =>
        intro signal hsignal
        rcases List.mem_append.1 hsignal with hsignal | hsignal
        · exact hmore signal hsignal
        · rw [List.mem_singleton.1 hsignal]
          exact Nat.lt_succ_self _
  · rw [if_pos hname]
    exact h

/-- Every call of a session is answered as if it were the only one. -/
theorem results_eq (h : s.Addressed) (store : Store) (calls : List Call) :
    s.results store calls = calls.map (Call.resultAlone store) := by
  induction calls generalizing s with
  | nil => rfl
  | cons c rest ih =>
    rw [results_cons, List.map_cons, call_fst h, ih (h.call store c.request c.limit? c.helper)]
    rfl

end Session

namespace Exchange

/-! ## Sessions and exchanges -/

/-- What a call that returns has come to. -/
def Event.result? : Event → Option Session.Result
  | .returned _ r limit? answer => some { request := r, limit?, answer }
  | _ => none

/-- What the calls that have returned have come to. -/
def results (events : List Event) : List Session.Result :=
  events.filterMap Event.result?

theorem results_append (events more : List Event) :
    results (events ++ more) = results events ++ results more :=
  List.filterMap_append

/-- Steps with this store, which always answers the same. -/
abbrev RunOf (store : Store) : List Event → Exchange → Prop :=
  Run store.name fun r answer => answer = store.answer r

variable {store : Store} {events : List Event} {x : Exchange}

/-- The calls can come to what they have come to by these events, and one more to this. -/
def CanReturn (store : Store) (events : List Event) (result : Session.Result) : Prop :=
  ∃ all y, RunOf store all y ∧ y.caller = .idle ∧ results all = results events ++ [result]

section

variable {r : Request} {limit : Nat} (hrun : RunOf store events x) (hidle : x.caller = .idle)
  (hname : sameStoreName r.store store.name)

include hrun hidle hname

/-- A caller finds nothing in its new channel at first, and can give up at once. -/
theorem RunOf.giveUp :
    CanReturn store events ⟨r, some limit, .error (.timeout r.iri limit)⟩ := by
  have hstart := hrun.step (.start r limit hidle hname)
  have hend := hstart.step (.giveUp rfl hrun.isNew_channel.1)
  exact ⟨_, _, hend, rfl, by simp [results, Event.result?, waiting]⟩

/-- The helper asks the store, sends its answer, and the caller takes that. -/
theorem RunOf.receive : CanReturn store events ⟨r, some limit, store.answer r⟩ := by
  have hstart := hrun.step (.start r limit hidle hname)
  have hheard := (hstart.step (.work rfl (.asks rfl))).step (.work rfl (.hears rfl rfl))
  have hend := (hheard.step (.send rfl rfl)).step (.receive rfl rfl hrun.isNew_channel.1)
  exact ⟨_, _, hend, rfl,
    by simp [results, List.filterMap_cons, Event.result?, waiting, helping]⟩

/-- The helper dies, and the caller notices that. -/
theorem RunOf.notice : CanReturn store events ⟨r, some limit, deserted⟩ := by
  have hnew := hrun.isNew_channel
  have hstart := hrun.step (.start r limit hidle hname)
  have hdied := hstart.step (.die rfl)
  have hend := hdied.step (.notice rfl hnew.1 (by rw [List.append_nil]; exact hnew.2))
  exact ⟨_, _, hend, rfl, by simp [results, List.filterMap_cons, Event.result?, waiting]⟩

end

/-- Whatever a call comes to in a session, it can come to that. -/
theorem RunOf.call (hrun : RunOf store events x) (hidle : x.caller = .idle) (c : Session.Call) :
    CanReturn store events (c.resultAlone store) := by
  obtain ⟨r, limit?, helper⟩ := c
  rw [Session.Call.resultAlone]
  by_cases hname : sameStoreName r.store store.name
  · cases limit? with
    | none =>
      have hend := (hrun.step (.ask r hidle hname)).step (.hear rfl rfl)
      refine ⟨_, _, hend, rfl, ?_⟩
      simp [results, List.filterMap_cons, Event.result?, Store.ask_none hname]
    | some limit =>
      cases helper with
      | unstarted reason =>
        have hend := hrun.step (.fail r limit reason hidle hname)
        refine ⟨_, _, hend, hidle, ?_⟩
        rw [results_append, Store.ask_unstarted hname]
        rfl
      | answering after =>
        rw [Store.ask_answering hname]
        split_ifs
        · exact hrun.receive hidle hname
        · exact hrun.giveUp hidle hname
      | dying after =>
        rw [Store.ask_dying hname]
        split_ifs
        · exact hrun.notice hidle hname
        · exact hrun.giveUp hidle hname
  · have hend := hrun.step (.refuse r limit? hidle hname)
    refine ⟨_, _, hend, hidle, ?_⟩
    rw [results_append, Store.ask_of_not_same hname]
    rfl

/-- What a session returns, a caller and its helpers can return. -/
theorem exists_run (store : Store) (calls : List Session.Call) :
    ∃ events x, RunOf store events x ∧ x.caller = .idle ∧
      results events = Session.results {} store calls := by
  rw [Session.results_eq Session.addressed_start]
  induction calls using List.reverseRecOn with
  | nil => exact ⟨[], {}, .start, rfl, rfl⟩
  | append_singleton calls c ih =>
    obtain ⟨events, x, hrun, hidle, hresults⟩ := ih
    obtain ⟨all, y, hall, hidle', hmore⟩ := hrun.call hidle c
    exact ⟨all, y, hall, hidle', by rw [hmore, hresults, List.map_append]; rfl⟩

theorem exists_returned_of_mem_results {result : Session.Result} (h : result ∈ results events) :
    ∃ call, .returned call result.request result.limit? result.answer ∈ events := by
  obtain ⟨event, hevent, hresult⟩ := List.mem_filterMap.1 h
  cases event with
  | returned call r limit? answer =>
    obtain rfl := Option.some.inj hresult
    exact ⟨call, hevent⟩
  | _ => cases hresult

/-- What a call returns, it returns as the only one for some helper. -/
theorem RunOf.exists_call (hrun : RunOf store events x) {result : Session.Result}
    (hresult : result ∈ results events) (hlimit : result.limit? ≠ some 0) :
    ∃ c : Session.Call, c.resultAlone store = result := by
  obtain ⟨r, limit?, answer⟩ := result
  obtain ⟨call, hreturned⟩ := exists_returned_of_mem_results hresult
  have hrightful := (hrun.rightful hreturned).1
  simp only at hlimit hrightful
  suffices h : ∃ helper, store.ask r limit? helper = answer by
    obtain ⟨helper, hhelper⟩ := h
    exact ⟨⟨r, limit?, helper⟩, by rw [Session.Call.resultAlone, hhelper]⟩
  have hpos : ∀ limit, limit? = some limit → 0 < limit := fun limit hsome =>
    Nat.pos_of_ne_zero fun hzero => hlimit (hzero ▸ hsome)
  cases hrightful with
  | refused hname => exact ⟨.answering 0, Store.ask_of_not_same hname _ _⟩
  | answered hname _ hanswered =>
    obtain rfl := hrun.answered hanswered
    refine ⟨.answering 0, ?_⟩
    cases limit? with
    | none => exact Store.ask_none hname _
    | some limit => rw [Store.ask_answering hname, if_pos (hpos limit rfl)]
  | @late limit hname hsome =>
    obtain rfl := hsome
    exact ⟨.answering limit, by rw [Store.ask_answering hname, if_neg (lt_irrefl limit)]⟩
  | @unstarted reason hname hsome =>
    obtain ⟨limit, rfl⟩ := Option.isSome_iff_exists.1 hsome
    exact ⟨.unstarted reason, Store.ask_unstarted hname limit reason⟩
  | deserted hname hsome =>
    obtain ⟨limit, rfl⟩ := Option.isSome_iff_exists.1 hsome
    exact ⟨.dying 0, by rw [Store.ask_dying hname, if_pos (hpos limit rfl)]⟩

/-- What a caller and its helpers return, a session can return. -/
theorem RunOf.exists_calls (hrun : RunOf store events x)
    (hlimits : ∀ result ∈ results events, result.limit? ≠ some 0) :
    ∃ calls, Session.results {} store calls = results events := by
  have hmem : results events ∈ Set.range (List.map (Session.Call.resultAlone store)) := by
    rw [Set.range_list_map]
    exact fun result hresult => hrun.exists_call hresult (hlimits result hresult)
  obtain ⟨calls, hcalls⟩ := hmem
  exact ⟨calls, (Session.results_eq Session.addressed_start store calls).trans hcalls⟩

/-! ## Results that are kept apart -/

/-- What can be relied on at any time, whatever the helpers do. -/
structure Orderly (name : String) (answers : Request → Answer → Prop) (events : List Event)
    (x : Exchange) : Prop where
  /-- Every call returns what it may, which is the answer to its own request, or a complaint
      about its own request, limit or helper. -/
  rightful : ∀ call r limit? answer, .returned call r limit? answer ∈ events →
    Rightful name events call r limit? answer
  /-- A store is not asked for the sake of a call that names another one. -/
  unasked : ∀ call r limit? answer, .returned call r limit? answer ∈ events →
    ¬ sameStoreName r.store name → ∀ r', .asked call r' ∉ events
  /-- A call complains about the name if and only if it is another one. -/
  otherStore_iff : ∀ call r limit? answer, .returned call r limit? answer ∈ events →
    (∀ given, answers r given → given ≠ .error (.otherStore r.store name)) →
    (answer = .error (.otherStore r.store name) ↔ ¬ sameStoreName r.store name)
  /-- Without a limit, a call returns what the store answers. -/
  direct : ∀ call r answer, .returned call r none answer ∈ events →
    sameStoreName r.store name → .answered call r answer ∈ events
  /-- The store answers as it may. -/
  answered : ∀ call r answer, .answered call r answer ∈ events → answers r answer
  /-- All calls but the one that the caller is in have returned, once each and in order. -/
  once : events.filterMap Event.returned? ++ x.caller.pending = x.requests.zipIdx
  /-- A caller that waits can return. -/
  free : ∀ w, x.caller = .waiting w → ∃ answer y,
    Step name answers x [.returned w.call w.request (some w.limit) answer] y ∧ y.caller = .idle

theorem Rightful.answered_of_none {name : String} {call : Nat} {r : Request} {answer : Answer}
    (h : Rightful name events call r none answer) (hname : sameStoreName r.store name) :
    .answered call r answer ∈ events := by
  cases h with
  | refused hother => exact absurd hname hother
  | answered _ _ hanswered => exact hanswered
  | late _ hlimit => cases hlimit
  | unstarted _ hlimit => cases hlimit
  | deserted _ hlimit => cases hlimit

theorem Run.orderly {name : String} {answers : Request → Answer → Prop}
    (hrun : Run name answers events x) : Orderly name answers events x where
  rightful _ _ _ _ hreturned := (hrun.rightful hreturned).1
  unasked _ _ _ _ hreturned := (hrun.rightful hreturned).2
  otherStore_iff _ _ _ _ hreturned hanswers :=
    (hrun.rightful hreturned).1.otherStore_iff fun hanswered => hanswers _ (hrun.answered hanswered)
  direct _ _ _ hreturned hname := (hrun.rightful hreturned).1.answered_of_none hname
  answered _ _ _ hanswered := hrun.answered hanswered
  once := hrun.returned_append_pending
  free _ hwaiting := exists_step_of_waiting hwaiting

/-- However the helpers of calls with a time limit go on, every call returns what it may.
    The results of a session are those of its calls if each were the only one, and they are
    just what a caller with helpers beside it returns, for limits that are not zero. -/
theorem results_kept_apart :
    (∀ name answers events x, Run name answers events x → Orderly name answers events x) ∧
    ∀ store : Store,
      (∀ calls, Session.results {} store calls = calls.map (Session.Call.resultAlone store)) ∧
      (∀ calls, ∃ events x, RunOf store events x ∧ x.caller = .idle ∧
        results events = Session.results {} store calls) ∧
      ∀ events x, RunOf store events x → (∀ result ∈ results events, result.limit? ≠ some 0) →
        ∃ calls, Session.results {} store calls = results events :=
  ⟨fun _ _ _ _ hrun => hrun.orderly, fun store =>
    ⟨Session.results_eq Session.addressed_start store, exists_run store,
      fun _ _ hrun hlimits => hrun.exists_calls hlimits⟩⟩

/-- A store that knows nothing. -/
def unknowing : Store where
  name := "minskg"
  answer r := .error (.unknownContent r.iri)

/-- A request for an IRI. -/
def requestOf (iri : String) : Request :=
  { iri, label := "", key := "", store := "MinSKG" }

/-- The first call is given up, its helper answers while the second call waits, and that one
    still gets the answer to its own request. -/
theorem lateAnswer_kept_apart :
    ∃ events x, RunOf unknowing events x ∧
      events = [.returned 0 (requestOf "a") (some 5) (.error (.timeout "a" 5)),
        .asked 0 (requestOf "a"), .answered 0 (requestOf "a") (.error (.unknownContent "a")),
        .asked 1 (requestOf "b"), .answered 1 (requestOf "b") (.error (.unknownContent "b")),
        .returned 1 (requestOf "b") (some 5) (.error (.unknownContent "b"))] ∧
      x.sent = [(0, .error (.unknownContent "a"))] ∧
      Orderly "minskg" (fun r answer => answer = unknowing.answer r) events x := by
  have hname : sameStoreName "MinSKG" unknowing.name := by decide +kernel
  have hgivenUp : RunOf unknowing _ _ := (Run.start.step
    (.start (requestOf "a") 5 rfl hname)).step (.giveUp rfl (by simp [started]))
  have hstarted := hgivenUp.step (.start (requestOf "b") 5 rfl hname)
  -- Both helpers go on, the first one first.
  have hlate := ((hstarted.step (.work (List.nil_append _).symm (.asks rfl))).step
    (.work (List.nil_append _).symm (.hears rfl rfl))).step (.send (List.nil_append _).symm rfl)
  have hheard := ((hlate.step (.work (List.nil_append _).symm (.asks rfl))).step
    (.work (List.nil_append _).symm (.hears rfl rfl))).step (.send (List.nil_append _).symm rfl)
  have hend := hheard.step
    (.receive rfl List.singleton_append.symm (by simp [started, waiting, helping]))
  exact ⟨_, _, hend, rfl, rfl, results_kept_apart.1 _ _ _ _ hend⟩

end Exchange

end PaperGraph
