import PaperGraph.Store.Basic

/-!
# Requests with a time limit

A request with a time limit is handed to a helper, which asks the store and
sends back a signal. The caller waits for it until the limit, then goes on; the
helper it left behind may signal at any later time. Every signal is addressed
to the call that the helper was made for, so that no call ever takes the signal
of another one's helper.

* `Helper`: what becomes of a helper;
* `Session.call`: one call in a session of calls, with or without a limit;
* `Store.ask`: a call in a session of its own.
-/

namespace PaperGraph

/-- What becomes of the helper of a call. Times are in milliseconds after the
    start of the call. -/
inductive Helper where
  /-- It cannot be started, for a reason. -/
  | unstarted (reason : String)
  /-- It sends the answer of the store after some time. -/
  | answering (after : Nat)
  /-- It ends after some time without an answer. -/
  | dying (after : Nat)
deriving DecidableEq, Repr, Inhabited

/-- What a helper sends. -/
structure Signal where
  /-- The number of the call that it is addressed to. -/
  call : Nat
  /-- When it arrives. -/
  time : Nat
  /-- The answer of the store, or nothing if the helper has ended. -/
  answer : Option Answer

/-- The calls made so far. -/
structure Session where
  /-- Their number. -/
  calls : Nat := 0
  /-- The time. -/
  now : Nat := 0
  /-- All signals that helpers have sent or will send. -/
  signals : List Signal := []

namespace Session

/-- The signals that the helper of a call sends. -/
def signalsOf (s : Session) (store : Store) (r : Request) : Helper → List Signal
  | .unstarted _ => []
  | .answering after =>
    [{ call := s.calls, time := s.now + after, answer := some (store.answer r) }]
  | .dying after => [{ call := s.calls, time := s.now + after, answer := none }]

/-- The first signal for the current call that arrives before the limit. -/
def awaited? (s : Session) (signals : List Signal) (limit : Nat) : Option Signal :=
  signals.find? fun signal => signal.call = s.calls ∧ signal.time < s.now + limit

/-- What a caller makes of waiting for its helper's signal. -/
def outcome (r : Request) (limit : Nat) : Option Signal → Answer
  | none => .error (.timeout r.iri limit)
  | some { answer := some answer, .. } => answer
  | some { answer := none, .. } =>
    .error (.unavailable "resolver thread exited without a result")

/-- A call in a session. The request has to name the store, and without a limit
    the store is asked without a helper. -/
def call (s : Session) (store : Store) (r : Request) (limit? : Option Nat) (helper : Helper) :
    Answer × Session :=
  if ¬ sameStoreName r.store store.name then
    (.error (.otherStore r.store store.name), s)
  else match limit?, helper with
    | none, _ => (store.answer r, s)
    | some _, .unstarted reason =>
      (.error (.unavailable reason), { s with calls := s.calls + 1 })
    | some limit, helper =>
      let signals := s.signals ++ s.signalsOf store r helper
      let awaited := s.awaited? signals limit
      let now := match awaited with
        | some signal => signal.time
        | none => s.now + limit
      (outcome r limit awaited, { calls := s.calls + 1, now, signals })

end Session

/-- The answer of a store to a single request, with or without a limit. -/
def Store.ask (store : Store) (r : Request) (limit? : Option Nat)
    (helper : Helper := .answering 0) : Answer :=
  (Session.call {} store r limit? helper).1

end PaperGraph
