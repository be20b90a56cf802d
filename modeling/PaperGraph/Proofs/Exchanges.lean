import Mathlib.Data.List.Infix
import PaperGraph.Store.Timed

/-!
# Callers and helpers at work

A call with a time limit opens a channel of its own, starts a helper that holds its
other end, and waits. From then on the caller and all helpers that have not ended go on
independently of each other, in any order: a helper asks the store, hears its answer,
and sends that into its channel, however late, or it dies on the way; the caller takes
what it finds in its channel, notices that its helper is gone, or gives up. After that
it makes the next call, while helpers that it has left behind are still at work.

* `Exchange`: the caller, its helpers, and what they have sent;
* `Exchange.Step`: what one of them does next, and the events that can be seen of it;
* `Exchange.Run`: such steps one after the other, in any order;
* `Exchange.Rightful`: what a call may return, by the events.

Channels are never opened twice, so whatever is found in the channel of a call was sent
by its own helper (`Exchange.Invariant`), and every call returns what it may
(`Exchange.Run.rightful`), once and in its turn (`Exchange.Run.returned_append_pending`).
-/

namespace PaperGraph

namespace Exchange

/-! ## The parties -/

/-- How far a helper has got. -/
inductive Stage where
  /-- It was started. -/
  | ready
  /-- It has asked the store. -/
  | asking
  /-- It has heard the answer of the store. -/
  | holding (answer : Answer)

/-- A helper at work. -/
structure Helping where
  /-- The number of the call that it was started for. -/
  call : Nat
  /-- The channel whose other end it holds. -/
  channel : Nat
  /-- What it has to ask the store for. -/
  request : Request
  /-- How far it has got. -/
  stage : Stage := .ready

/-- A caller that waits for its helper. -/
structure Waiting where
  /-- The number of the call. -/
  call : Nat
  /-- The channel at which it waits. -/
  channel : Nat
  /-- What it wants. -/
  request : Request
  /-- How long it waits at most. -/
  limit : Nat

/-- What the caller does. -/
inductive Caller where
  /-- It has returned from all calls made so far. -/
  | idle
  /-- It has asked the store itself. -/
  | asking (call : Nat) (r : Request)
  /-- It waits for a helper. -/
  | waiting (w : Waiting)

end Exchange

/-- What a caller and its helpers have come to. -/
structure Exchange where
  /-- The requests of the calls made so far. -/
  requests : List Request := []
  /-- How many channels were opened. -/
  channels : Nat := 0
  /-- The helpers that have not ended. -/
  helpers : List Exchange.Helping := []
  /-- What was sent into channels and not taken out, with the numbers of these. -/
  sent : List (Nat × Answer) := []
  /-- The caller. -/
  caller : Exchange.Caller := .idle

namespace Exchange

/-- A caller that waits for the helper of a new call, at a new channel. -/
def waiting (x : Exchange) (r : Request) (limit : Nat) : Waiting :=
  { call := x.requests.length, channel := x.channels, request := r, limit }

/-- The helper of a new call. -/
def helping (x : Exchange) (r : Request) : Helping :=
  { call := x.requests.length, channel := x.channels, request := r }

/-- A caller has started a helper, and waits for it. -/
def started (x : Exchange) (r : Request) (limit : Nat) : Exchange :=
  { x with
    requests := x.requests ++ [r]
    channels := x.channels + 1
    helpers := x.helpers ++ [x.helping r]
    caller := .waiting (x.waiting r limit) }

/-- What can be seen of an exchange. Calls are told by their numbers. -/
inductive Event where
  /-- The store is asked for the sake of a call. -/
  | asked (call : Nat) (r : Request)
  /-- The store answers. -/
  | answered (call : Nat) (r : Request) (answer : Answer)
  /-- The helper of a call cannot be started. -/
  | unstarted (call : Nat) (reason : String)
  /-- The helper of a call ends without having sent anything. -/
  | died (call : Nat)
  /-- A call returns. -/
  | returned (call : Nat) (r : Request) (limit? : Option Nat) (answer : Answer)

/-- What a helper does with the store, by which it gets further. -/
inductive Helping.Works (answers : Request → Answer → Prop) (h : Helping) :
    Stage → Event → Prop where
  /-- It asks. -/
  | asks : h.stage = .ready → h.Works answers .asking (.asked h.call h.request)
  /-- It hears what the store answers, which is up to the store. -/
  | hears {answer : Answer} : h.stage = .asking → answers h.request answer →
      h.Works answers (.holding answer) (.answered h.call h.request answer)

/-- The complaint of a caller whose helper is gone. -/
def deserted : Answer :=
  .error (.unavailable "resolver thread exited without a result")

variable (name : String) (answers : Request → Answer → Prop)

/-- One step of the caller or of a helper, with the store of that name, which may answer
    so. -/
inductive Step : Exchange → List Event → Exchange → Prop where
  /-- The caller makes a call that names another store, and returns at once. -/
  | refuse {x : Exchange} (r : Request) (limit? : Option Nat) (hidle : x.caller = .idle)
      (hname : ¬ sameStoreName r.store name) :
      Step x [.returned x.requests.length r limit? (.error (.otherStore r.store name))]
        { x with requests := x.requests ++ [r] }
  /-- It makes a call without a limit, and asks the store itself. -/
  | ask {x : Exchange} (r : Request) (hidle : x.caller = .idle)
      (hname : sameStoreName r.store name) :
      Step x [.asked x.requests.length r]
        { x with requests := x.requests ++ [r], caller := .asking x.requests.length r }
  /-- It hears the answer, and returns with that. -/
  | hear {x : Exchange} {call : Nat} {r : Request} {answer : Answer}
      (hasking : x.caller = .asking call r) (hanswer : answers r answer) :
      Step x [.answered call r answer, .returned call r none answer] { x with caller := .idle }
  /-- It makes a call with a limit, for which no helper can be started. -/
  | fail {x : Exchange} (r : Request) (limit : Nat) (reason : String)
      (hidle : x.caller = .idle) (hname : sameStoreName r.store name) :
      Step x [.unstarted x.requests.length reason,
          .returned x.requests.length r (some limit) (.error (.unavailable reason))]
        { x with requests := x.requests ++ [r], channels := x.channels + 1 }
  /-- It makes a call with a limit, starts a helper, and waits. -/
  | start {x : Exchange} (r : Request) (limit : Nat) (hidle : x.caller = .idle)
      (hname : sameStoreName r.store name) :
      Step x [] (x.started r limit)
  /-- A helper gets further. -/
  | work {x : Exchange} {front back : List Helping} {h : Helping} {stage : Stage}
      {event : Event} (hx : x.helpers = front ++ h :: back) (hworks : h.Works answers stage event) :
      Step x [event] { x with helpers := front ++ { h with stage } :: back }
  /-- A helper sends the answer, and ends. -/
  | send {x : Exchange} {front back : List Helping} {h : Helping} {answer : Answer}
      (hx : x.helpers = front ++ h :: back) (hholding : h.stage = .holding answer) :
      Step x [] { x with helpers := front ++ back, sent := x.sent ++ [(h.channel, answer)] }
  /-- A helper ends before it has sent anything. -/
  | die {x : Exchange} {front back : List Helping} {h : Helping}
      (hx : x.helpers = front ++ h :: back) :
      Step x [.died h.call] { x with helpers := front ++ back }
  /-- The caller takes the first answer that was sent into its channel. -/
  | receive {x : Exchange} {w : Waiting} {front back : List (Nat × Answer)} {answer : Answer}
      (hwaiting : x.caller = .waiting w) (hx : x.sent = front ++ (w.channel, answer) :: back)
      (hfirst : ∀ m ∈ front, m.1 ≠ w.channel) :
      Step x [.returned w.call w.request (some w.limit) answer]
        { x with sent := front ++ back, caller := .idle }
  /-- It finds nothing there, and nobody who could send anything. -/
  | notice {x : Exchange} {w : Waiting} (hwaiting : x.caller = .waiting w)
      (hempty : ∀ m ∈ x.sent, m.1 ≠ w.channel) (hgone : ∀ h ∈ x.helpers, h.channel ≠ w.channel) :
      Step x [.returned w.call w.request (some w.limit) deserted] { x with caller := .idle }
  /-- It finds nothing there, and the time is up. -/
  | giveUp {x : Exchange} {w : Waiting} (hwaiting : x.caller = .waiting w)
      (hempty : ∀ m ∈ x.sent, m.1 ≠ w.channel) :
      Step x [.returned w.call w.request (some w.limit) (.error (.timeout w.request.iri w.limit))]
        { x with caller := .idle }

/-- Steps of the caller and the helpers in any order, from the start, with all events. -/
inductive Run : List Event → Exchange → Prop where
  /-- No call was made yet. -/
  | start : Run [] {}
  /-- One more step. -/
  | step {events more : List Event} {x y : Exchange} (hrun : Run events x)
      (hstep : Step name answers x more y) : Run (events ++ more) y

/-- What a call may return, after some events. -/
inductive Rightful (events : List Event) (call : Nat) (r : Request) (limit? : Option Nat) :
    Answer → Prop where
  /-- The request names another store. -/
  | refused (hname : ¬ sameStoreName r.store name) :
      Rightful events call r limit? (.error (.otherStore r.store name))
  /-- The store was asked for the sake of this call, and has answered so. -/
  | answered {answer : Answer} (hname : sameStoreName r.store name)
      (hasked : .asked call r ∈ events) (hanswered : .answered call r answer ∈ events) :
      Rightful events call r limit? answer
  /-- The limit has passed. -/
  | late {limit : Nat} (hname : sameStoreName r.store name) (hlimit : limit? = some limit) :
      Rightful events call r limit? (.error (.timeout r.iri limit))
  /-- Its own helper could not be started. -/
  | unstarted {reason : String} (hname : sameStoreName r.store name) (hlimit : limit?.isSome)
      (hunstarted : .unstarted call reason ∈ events) :
      Rightful events call r limit? (.error (.unavailable reason))
  /-- Its own helper has ended without sending anything. -/
  | deserted (hname : sameStoreName r.store name) (hlimit : limit?.isSome)
      (hdied : .died call ∈ events) : Rightful events call r limit? deserted

variable {name answers} {events more : List Event} {x y : Exchange}

/-! ## What holds at every time -/

/-- A helper was started for a call of this exchange, and has asked and heard as far as
    it has got. -/
structure Helping.Stands (name : String) (events : List Event) (x : Exchange) (h : Helping) :
    Prop where
  request : x.requests[h.call]? = some h.request
  named : sameStoreName h.request.store name
  channel : h.channel < x.channels
  asked : h.stage ≠ .ready → .asked h.call h.request ∈ events
  answered : ∀ answer, h.stage = .holding answer → .answered h.call h.request answer ∈ events

/-- What is found in the channel of a caller that waits is for its call, and there is
    someone at work who can send something, unless it was sent or the helper has died. -/
structure Waiting.Stands (name : String) (events : List Event) (x : Exchange) (w : Waiting) :
    Prop where
  request : x.requests[w.call]? = some w.request
  named : sameStoreName w.request.store name
  helper : ∀ h ∈ x.helpers, h.channel = w.channel → h.call = w.call
  message : ∀ m ∈ x.sent, m.1 = w.channel →
    .asked w.call w.request ∈ events ∧ .answered w.call w.request m.2 ∈ events
  pending : (∃ h ∈ x.helpers, h.channel = w.channel) ∨ (∃ m ∈ x.sent, m.1 = w.channel) ∨
    .died w.call ∈ events

/-- The caller is in a call of this exchange, or in none. -/
def Caller.Stands (name : String) (events : List Event) (x : Exchange) : Caller → Prop
  | .idle => True
  | .asking call r => x.requests[call]? = some r ∧ sameStoreName r.store name ∧
      .asked call r ∈ events
  | .waiting w => w.Stands name events x

/-- What holds of an exchange after some events. -/
structure Invariant (name : String) (events : List Event) (x : Exchange) : Prop where
  helpers : ∀ h ∈ x.helpers, h.Stands name events x
  channels : ∀ m ∈ x.sent, m.1 < x.channels
  caller : x.caller.Stands name events x
  asked : ∀ call r, .asked call r ∈ events →
    x.requests[call]? = some r ∧ sameStoreName r.store name
  returned : ∀ call r limit? answer, .returned call r limit? answer ∈ events →
    x.requests[call]? = some r ∧ Rightful name events call r limit? answer

theorem getElem?_mono {α : Type} {l l' : List α} (h : l <+: l') {i : Nat} {a : α}
    (ha : l[i]? = some a) : l'[i]? = some a := by
  obtain ⟨rest, rfl⟩ := h
  rwa [List.getElem?_append_left (List.getElem?_eq_some_iff.1 ha).1]

/-- The members of a list are one of them and the other ones. -/
theorem mem_iff_of_split {α : Type} {l front back : List α} {a : α} (h : l = front ++ a :: back)
    (b : α) : b ∈ l ↔ b = a ∨ b ∈ front ++ back := by
  rw [h, List.mem_append, List.mem_cons, List.mem_append, or_left_comm]

theorem Helping.Stands.mono {h : Helping} (hh : h.Stands name events x)
    (hrequests : x.requests <+: y.requests) (hchannels : x.channels ≤ y.channels) :
    h.Stands name (events ++ more) y where
  request := getElem?_mono hrequests hh.request
  named := hh.named
  channel := Nat.lt_of_lt_of_le hh.channel hchannels
  asked hstage := List.mem_append_left more (hh.asked hstage)
  answered answer hstage := List.mem_append_left more (hh.answered answer hstage)

theorem Rightful.mono {call : Nat} {r : Request} {limit? : Option Nat} {answer : Answer}
    (h : Rightful name events call r limit? answer) :
    Rightful name (events ++ more) call r limit? answer := by
  cases h with
  | refused hname => exact .refused hname
  | answered hname hasked hanswered =>
    exact .answered hname (List.mem_append_left more hasked) (List.mem_append_left more hanswered)
  | late hname hlimit => exact .late hname hlimit
  | unstarted hname hlimit hunstarted =>
    exact .unstarted hname hlimit (List.mem_append_left more hunstarted)
  | deserted hname hlimit hdied => exact .deserted hname hlimit (List.mem_append_left more hdied)

/-- What held before goes on to hold, so that only what is new has to be looked at. -/
theorem Invariant.extend (h : Invariant name events x) (hrequests : x.requests <+: y.requests)
    (hchannels : x.channels ≤ y.channels)
    (hhelpers : ∀ k ∈ y.helpers, k ∈ x.helpers ∨ k.Stands name (events ++ more) y)
    (hsent : ∀ m ∈ y.sent, m ∈ x.sent ∨ m.1 < y.channels)
    (hcaller : y.caller.Stands name (events ++ more) y)
    (hasked : ∀ call r, .asked call r ∈ more →
      y.requests[call]? = some r ∧ sameStoreName r.store name)
    (hreturned : ∀ call r limit? answer, .returned call r limit? answer ∈ more →
      y.requests[call]? = some r ∧ Rightful name (events ++ more) call r limit? answer) :
    Invariant name (events ++ more) y where
  helpers k hk := (hhelpers k hk).elim (fun hk => (h.helpers k hk).mono hrequests hchannels) id
  channels m hm := (hsent m hm).elim
    (fun hm => Nat.lt_of_lt_of_le (h.channels m hm) hchannels) id
  caller := hcaller
  asked call r hmem := by
    rcases List.mem_append.1 hmem with hmem | hmem
    · obtain ⟨hrequest, hname⟩ := h.asked call r hmem
      exact ⟨getElem?_mono hrequests hrequest, hname⟩
    · exact hasked call r hmem
  returned call r limit? answer hmem := by
    rcases List.mem_append.1 hmem with hmem | hmem
    · obtain ⟨hrequest, hrightful⟩ := h.returned call r limit? answer hmem
      exact ⟨getElem?_mono hrequests hrequest, hrightful.mono⟩
    · exact hreturned call r limit? answer hmem

/-! ### Steps of helpers -/

variable {front back : List Helping} {h : Helping} {stage : Stage} {event : Event}

theorem Helping.Works.stands (hworks : h.Works answers stage event)
    (hh : h.Stands name events x) (helpers : List Helping) :
    Helping.Stands name (events ++ [event]) { x with helpers } { h with stage } := by
  cases hworks with
  | asks hstage =>
    exact ⟨hh.request, hh.named, hh.channel, fun _ => List.mem_append_right _ List.mem_cons_self,
      fun _ hholding => by simp at hholding⟩
  | hears hstage hanswer =>
    have hasked := hh.asked (by simp [hstage])
    refine ⟨hh.request, hh.named, hh.channel, fun _ => List.mem_append_left _ hasked,
      fun answer hholding => ?_⟩
    obtain rfl := Stage.holding.inj hholding
    exact List.mem_append_right _ List.mem_cons_self

/-- A caller goes on to stand if nothing is at work that was not before, whatever is new
    in its channel is for its call, and there is still something to wait for. -/
theorem Caller.Stands.extend {c : Caller} (hc : c.Stands name events x)
    (hrequests : y.requests = x.requests)
    (hhelpers : ∀ k ∈ y.helpers, ∃ h ∈ x.helpers, h.channel = k.channel ∧ h.call = k.call)
    (hsent : ∀ w, c = .waiting w → w.Stands name events x → ∀ m ∈ y.sent, m.1 = w.channel →
      m ∈ x.sent ∨ .asked w.call w.request ∈ events ∧ .answered w.call w.request m.2 ∈ events)
    (hpending : ∀ w, c = .waiting w → w.Stands name events x →
      (∃ h ∈ y.helpers, h.channel = w.channel) ∨ (∃ m ∈ y.sent, m.1 = w.channel) ∨
        .died w.call ∈ events ++ more) :
    c.Stands name (events ++ more) y := by
  cases c with
  | idle => trivial
  | asking call r =>
    obtain ⟨hrequest, hname, hasked⟩ := hc
    exact ⟨hrequests ▸ hrequest, hname, List.mem_append_left more hasked⟩
  | waiting w =>
    have hw : w.Stands name events x := hc
    refine ⟨hrequests ▸ hw.request, hw.named, fun k hk hchannel => ?_, fun m hm hchannel => ?_,
      hpending w rfl hw⟩
    · obtain ⟨h, hh, hsame, hcall⟩ := hhelpers k hk
      rw [← hcall]
      exact hw.helper h hh (hsame.trans hchannel)
    · obtain ⟨hasked, hanswered⟩ :=
        (hsent w rfl hw m hm hchannel).elim (fun hm => hw.message m hm hchannel) id
      exact ⟨List.mem_append_left more hasked, List.mem_append_left more hanswered⟩

theorem Invariant.work (hinv : Invariant name events x) (hx : x.helpers = front ++ h :: back)
    (hworks : h.Works answers stage event) :
    Invariant name (events ++ [event]) { x with helpers := front ++ { h with stage } :: back } := by
  have hmem := mem_iff_of_split hx
  have hmem' := mem_iff_of_split (rfl : front ++ { h with stage } :: back = _)
  have hh : h.Stands name events x := hinv.helpers h ((hmem h).2 (.inl rfl))
  have hothers : ∀ k ∈ front ++ { h with stage } :: back, k = { h with stage } ∨ k ∈ x.helpers :=
    fun k hk => ((hmem' k).1 hk).imp_right fun hk => (hmem k).2 (.inr hk)
  refine hinv.extend List.prefix_rfl le_rfl (fun k hk => ?_) (fun m hm => .inl hm) ?_
    (fun call r hasked => ?_) (fun call r limit? answer hreturned => ?_)
  · rcases hothers k hk with rfl | hk
    · exact .inr (hworks.stands hh _)
    · exact .inl hk
  · refine hinv.caller.extend rfl (fun k hk => ?_) (fun w _ _ m hm _ => .inl hm) fun w _ hw => ?_
    · rcases hothers k hk with rfl | hk
      · exact ⟨h, (hmem h).2 (.inl rfl), rfl, rfl⟩
      · exact ⟨k, hk, rfl, rfl⟩
    · -- The helper that gets further is at work as before.
      rcases hw.pending with ⟨k, hk, hchannel⟩ | hsent | hdied
      · rcases (hmem k).1 hk with rfl | hk
        · exact .inl ⟨_, (hmem' _).2 (.inl rfl), hchannel⟩
        · exact .inl ⟨k, (hmem' k).2 (.inr hk), hchannel⟩
      · exact .inr (.inl hsent)
      · exact .inr (.inr (List.mem_append_left _ hdied))
  · cases hworks with
    | asks =>
      obtain ⟨rfl, rfl⟩ := Event.asked.inj (List.mem_singleton.1 hasked)
      exact ⟨hh.request, hh.named⟩
    | hears => simp at hasked
  · cases hworks with
    | asks => simp at hreturned
    | hears => simp at hreturned

theorem Invariant.send {answer : Answer} (hinv : Invariant name events x)
    (hx : x.helpers = front ++ h :: back) (hholding : h.stage = .holding answer) :
    Invariant name (events ++ [])
      { x with helpers := front ++ back, sent := x.sent ++ [(h.channel, answer)] } := by
  have hmem := mem_iff_of_split hx
  have hh : h.Stands name events x := hinv.helpers h ((hmem h).2 (.inl rfl))
  have hasked := hh.asked (by simp [hholding])
  have hanswered := hh.answered answer hholding
  have hothers : ∀ k ∈ front ++ back, k ∈ x.helpers := fun k hk => (hmem k).2 (.inr hk)
  refine hinv.extend List.prefix_rfl le_rfl (fun k hk => .inl (hothers k hk)) (fun m hm => ?_) ?_
    (by simp) (by simp)
  · rcases List.mem_append.1 hm with hm | hm
    · exact .inl hm
    · obtain rfl := List.mem_singleton.1 hm
      exact .inr hh.channel
  · refine hinv.caller.extend rfl (fun k hk => ⟨k, hothers k hk, rfl, rfl⟩)
      (fun w _ hw m hm hchannel => ?_) fun w _ hw => ?_
    · rcases List.mem_append.1 hm with hm | hm
      · exact .inl hm
      · -- Only the helper of the call holds the other end of the channel.
        obtain rfl := List.mem_singleton.1 hm
        have hcall : h.call = w.call := hw.helper h ((hmem h).2 (.inl rfl)) hchannel
        have hrequest : h.request = w.request :=
          Option.some.inj (hh.request.symm.trans (hcall ▸ hw.request))
        rw [← hcall, ← hrequest]
        exact .inr ⟨hasked, hanswered⟩
    · rcases hw.pending with ⟨k, hk, hchannel⟩ | ⟨m, hm, hchannel⟩ | hdied
      · rcases (hmem k).1 hk with rfl | hk
        · exact .inr (.inl ⟨_, List.mem_append_right _ List.mem_cons_self, hchannel⟩)
        · exact .inl ⟨k, hk, hchannel⟩
      · exact .inr (.inl ⟨m, List.mem_append_left _ hm, hchannel⟩)
      · exact .inr (.inr (List.mem_append_left _ hdied))

theorem Invariant.die (hinv : Invariant name events x) (hx : x.helpers = front ++ h :: back) :
    Invariant name (events ++ [.died h.call]) { x with helpers := front ++ back } := by
  have hmem := mem_iff_of_split hx
  have hothers : ∀ k ∈ front ++ back, k ∈ x.helpers := fun k hk => (hmem k).2 (.inr hk)
  refine hinv.extend List.prefix_rfl le_rfl (fun k hk => .inl (hothers k hk)) (fun m hm => .inl hm)
    ?_ (by simp) (by simp)
  refine hinv.caller.extend rfl (fun k hk => ⟨k, hothers k hk, rfl, rfl⟩)
    (fun w _ _ m hm _ => .inl hm) fun w _ hw => ?_
  rcases hw.pending with ⟨k, hk, hchannel⟩ | hsent | hdied
  · rcases (hmem k).1 hk with rfl | hk
    · have hcall : k.call = w.call := hw.helper k ((hmem k).2 (.inl rfl)) hchannel
      exact .inr (.inr (List.mem_append_right _ (by simp [hcall])))
    · exact .inl ⟨k, hk, hchannel⟩
  · exact .inr (.inl hsent)
  · exact .inr (.inr (List.mem_append_left _ hdied))

/-! ### Steps of the caller -/

/-- A caller that has opened a new channel finds nobody else's helper or answer there. -/
theorem Invariant.start {r : Request} {limit : Nat} (hinv : Invariant name events x)
    (hname : sameStoreName r.store name) :
    (x.waiting r limit).Stands name events (x.started r limit) where
  request := List.getElem?_concat_length
  named := hname
  helper k hk hchannel := by
    rcases List.mem_append.1 hk with hk | hk
    · exact absurd hchannel (hinv.helpers k hk).channel.ne
    · rw [List.mem_singleton.1 hk]
      rfl
  message m hm hchannel := absurd hchannel (hinv.channels m hm).ne
  pending := .inl ⟨_, List.mem_append_right _ List.mem_cons_self, rfl⟩

/-- What a caller that waits returns is rightful, and then it is idle. -/
theorem Invariant.finish {w : Waiting} {answer : Answer} {sent : List (Nat × Answer)}
    (hinv : Invariant name events x) (hwaiting : x.caller = .waiting w)
    (hsent : ∀ m ∈ sent, m ∈ x.sent)
    (hrightful : w.Stands name events x →
      Rightful name events w.call w.request (some w.limit) answer) :
    Invariant name (events ++ [.returned w.call w.request (some w.limit) answer])
      { x with sent, caller := .idle } := by
  have hw : w.Stands name events x := by
    have hcaller := hinv.caller
    rwa [hwaiting] at hcaller
  refine hinv.extend List.prefix_rfl le_rfl (fun k hk => .inl hk) (fun m hm => .inl (hsent m hm))
    trivial (by simp) fun call r limit? answer hreturned => ?_
  obtain ⟨rfl, rfl, rfl, rfl⟩ := Event.returned.inj (List.mem_singleton.1 hreturned)
  exact ⟨hw.request, (hrightful hw).mono⟩

theorem Invariant.step (hinv : Invariant name events x) (hstep : Step name answers x more y) :
    Invariant name (events ++ more) y := by
  cases hstep with
  | refuse _ _ hidle hname =>
    refine hinv.extend (List.prefix_append _ _) le_rfl (fun k hk => .inl hk) (fun m hm => .inl hm)
      (by rw [hidle]; trivial) (by simp) fun call r limit? answer hreturned => ?_
    obtain ⟨rfl, rfl, rfl, rfl⟩ := Event.returned.inj (List.mem_singleton.1 hreturned)
    exact ⟨List.getElem?_concat_length, .refused hname⟩
  | ask _ hidle hname =>
    refine hinv.extend (List.prefix_append _ _) le_rfl (fun k hk => .inl hk) (fun m hm => .inl hm)
      ⟨List.getElem?_concat_length, hname, by simp⟩ (fun call r hasked => ?_) (by simp)
    obtain ⟨rfl, rfl⟩ := Event.asked.inj (List.mem_singleton.1 hasked)
    exact ⟨List.getElem?_concat_length, hname⟩
  | hear hasking hanswer =>
    obtain ⟨hrequest, hname, hasked⟩ :=
      show (Caller.asking _ _).Stands name events x from hasking ▸ hinv.caller
    refine hinv.extend List.prefix_rfl le_rfl (fun k hk => .inl hk) (fun m hm => .inl hm) trivial
      (by simp) fun call r limit? answer hreturned => ?_
    obtain ⟨rfl, rfl, rfl, rfl⟩ : call = _ ∧ r = _ ∧ limit? = _ ∧ answer = _ := by
      simpa using hreturned
    exact ⟨hrequest, .answered hname (List.mem_append_left _ hasked) (by simp)⟩
  | fail _ _ _ hidle hname =>
    refine hinv.extend (List.prefix_append _ _) (Nat.le_succ _) (fun k hk => .inl hk)
      (fun m hm => .inl hm) (by rw [hidle]; trivial) (by simp)
      fun call r limit? answer hreturned => ?_
    obtain ⟨rfl, rfl, rfl, rfl⟩ : call = _ ∧ r = _ ∧ limit? = _ ∧ answer = _ := by
      simpa using hreturned
    exact ⟨List.getElem?_concat_length, .unstarted hname rfl (by simp)⟩
  | start _ _ hidle hname =>
    refine hinv.extend (List.prefix_append _ _) (Nat.le_succ _) (fun k hk => ?_)
      (fun m hm => .inl hm) ?_ (by simp) (by simp)
    · rcases List.mem_append.1 hk with hk | hk
      · exact .inl hk
      · obtain rfl := List.mem_singleton.1 hk
        exact .inr ⟨List.getElem?_concat_length, hname, Nat.lt_succ_self _,
          fun hready => absurd rfl hready, by simp [helping]⟩
    · rw [List.append_nil]
      exact hinv.start hname
  | work hx hworks => exact hinv.work hx hworks
  | send hx hholding => exact hinv.send hx hholding
  | die hx => exact hinv.die hx
  | @receive w _ _ answer hwaiting hx _ =>
    have hmem := mem_iff_of_split hx
    refine hinv.finish hwaiting (fun m hm => (hmem m).2 (.inr hm)) fun hw => ?_
    obtain ⟨hasked, hanswered⟩ := hw.message (w.channel, answer) ((hmem _).2 (.inl rfl)) rfl
    exact .answered hw.named hasked hanswered
  | notice hwaiting hempty hgone =>
    refine hinv.finish hwaiting (fun m hm => hm) fun hw => ?_
    rcases hw.pending with ⟨k, hk, hchannel⟩ | ⟨m, hm, hchannel⟩ | hdied
    · exact absurd hchannel (hgone k hk)
    · exact absurd hchannel (hempty m hm)
    · exact .deserted hw.named rfl hdied
  | giveUp hwaiting hempty =>
    exact hinv.finish hwaiting (fun m hm => hm) fun hw => .late hw.named rfl

theorem Run.invariant (hrun : Run name answers events x) : Invariant name events x := by
  induction hrun with
  | start => exact ⟨by simp, by simp, trivial, by simp, by simp⟩
  | step _ hstep ih => exact ih.step hstep

/-- The channel that is opened next is new to all. -/
theorem Run.isNew_channel (hrun : Run name answers events x) :
    (∀ m ∈ x.sent, m.1 ≠ x.channels) ∧ ∀ h ∈ x.helpers, h.channel ≠ x.channels :=
  ⟨fun m hm => (hrun.invariant.channels m hm).ne,
    fun h hh => (hrun.invariant.helpers h hh).channel.ne⟩

/-- Every call returns what it may. If it names another store, the store is not asked for
    its sake. -/
theorem Run.rightful (hrun : Run name answers events x) {call : Nat} {r : Request}
    {limit? : Option Nat} {answer : Answer}
    (hreturned : .returned call r limit? answer ∈ events) :
    Rightful name events call r limit? answer ∧
      (¬ sameStoreName r.store name → ∀ r', .asked call r' ∉ events) := by
  obtain ⟨hrequest, hrightful⟩ := hrun.invariant.returned _ _ _ _ hreturned
  refine ⟨hrightful, fun hname r' hasked => hname ?_⟩
  obtain ⟨hrequest', hname'⟩ := hrun.invariant.asked _ _ hasked
  rwa [Option.some.inj (hrequest.symm.trans hrequest')]

/-- What a call may return is a complaint about the store that it names only if it names
    another one, unless that is what the store has answered. -/
theorem Rightful.otherStore_iff {call : Nat} {r : Request} {limit? : Option Nat}
    {answer : Answer} (h : Rightful name events call r limit? answer)
    (hanswers : .answered call r answer ∈ events → answer ≠ .error (.otherStore r.store name)) :
    answer = .error (.otherStore r.store name) ↔ ¬ sameStoreName r.store name := by
  cases h with
  | refused hname => exact iff_of_true rfl hname
  | answered hname _ hanswered => exact iff_of_false (hanswers hanswered) (not_not.2 hname)
  | late hname => exact iff_of_false (by simp) (not_not.2 hname)
  | unstarted hname => exact iff_of_false (by simp) (not_not.2 hname)
  | deserted hname => exact iff_of_false (by simp [Exchange.deserted]) (not_not.2 hname)

/-- The store answers as it may. -/
theorem Run.answered (hrun : Run name answers events x) {call : Nat} {r : Request}
    {answer : Answer} (hanswered : .answered call r answer ∈ events) : answers r answer := by
  induction hrun with
  | start => simp at hanswered
  | step _ hstep ih =>
    rcases List.mem_append.1 hanswered with hanswered | hanswered
    · exact ih hanswered
    · cases hstep with
      | hear _ hanswer =>
        obtain ⟨rfl, rfl, rfl⟩ : call = _ ∧ r = _ ∧ answer = _ := by simpa using hanswered
        exact hanswer
      | work _ hworks =>
        cases hworks with
        | asks => simp at hanswered
        | hears _ hanswer =>
          obtain ⟨rfl, rfl, rfl⟩ := Event.answered.inj (List.mem_singleton.1 hanswered)
          exact hanswer
      | _ => simp at hanswered

/-- The request of a call that returns, and the number of the call. -/
def Event.returned? : Event → Option (Request × Nat)
  | .returned call r _ _ => some (r, call)
  | _ => none

/-- The call that the caller is in. -/
def Caller.pending : Caller → List (Request × Nat)
  | .idle => []
  | .asking call r => [(r, call)]
  | .waiting w => [(w.request, w.call)]

/-- All calls but the one that the caller is in have returned, once each and in the order
    in which they were made. -/
theorem Run.returned_append_pending (hrun : Run name answers events x) :
    events.filterMap Event.returned? ++ x.caller.pending = x.requests.zipIdx := by
  induction hrun with
  | start => rfl
  | step _ hstep ih =>
    rw [List.filterMap_append]
    cases hstep with
    | refuse _ _ hidle | fail _ _ _ hidle =>
      simp [← ih, hidle, List.filterMap_cons, Event.returned?, Caller.pending,
        List.zipIdx_append]
    | ask _ hidle | start _ _ hidle =>
      simp [← ih, hidle, Event.returned?, Caller.pending, List.zipIdx_append, started, waiting]
    | hear hcaller | receive hcaller | notice hcaller | giveUp hcaller =>
      simp [← ih, hcaller, List.filterMap_cons, Event.returned?, Caller.pending]
    | work _ hworks => cases hworks <;> simp [← ih, Event.returned?]
    | send | die => simp [← ih, Event.returned?]

/-- A caller that waits can return at any time, whatever the helpers do. -/
theorem exists_step_of_waiting {w : Waiting} (hwaiting : x.caller = .waiting w) :
    ∃ answer y, Step name answers x [.returned w.call w.request (some w.limit) answer] y ∧
      y.caller = .idle := by
  cases hfound : x.sent.find? (·.1 = w.channel) with
  | none =>
    have hempty : ∀ m ∈ x.sent, m.1 ≠ w.channel := by simpa using hfound
    exact ⟨_, _, .giveUp hwaiting hempty, rfl⟩
  | some m =>
    obtain ⟨hchannel, front, back, hsent, hfirst⟩ := List.find?_eq_some_iff_append.1 hfound
    obtain ⟨channel, answer⟩ := m
    obtain rfl : channel = w.channel := by simpa using hchannel
    exact ⟨_, _, .receive hwaiting hsent (by simpa using hfirst), rfl⟩

end Exchange

end PaperGraph
