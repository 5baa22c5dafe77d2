import AltNet.Lib.Chan
import AltNet.Lib.GoMap
import AltNet.Lib.Pool
import AltNet.Lib.Trace
import AltNet.Peer.Message

/-!
# AltNet — requests and their replies (`core/peer/peer.go`)

`Request` makes a channel with room for one message, enters it into `pending`
under a fresh request id, sends, and waits for the channel or for its timer.
However it ends, it takes its id out of `pending` before it returns. A read
loop that has verified a message looks its request id up in `pending` and takes
the entry out in one section of the lock; only then, without the lock, it
writes the message to the channel. A message whose id is not there goes to the
handlers.

Any number of requests and any number of messages are under way here, and
every section of the lock, every channel operation and every timeout is a step
of its own. A message that arrives has the index at which it arrived; what
became of it is recorded next to the state.

Main results:

* `Exchange.Inv.step` — a request has at most one ticket: its entry in
  `pending`, a message on the way to its channel, or a message that was put
  there; each step hands it on or drops it;
* `request_reply_correlation` — replies go to their own request, the read loop
  never blocks on a channel, every message is put in one channel or handed to
  the handlers, and a request that has returned is not pending.
-/

namespace AltNet

open List GoMap Option

/-- Where a `Request` stands: before it enters its channel into `pending`,
before it sends, in its `select`, before the deferred delete, and at its end.
The result is a reply, or an error. -/
inductive ReqPhase where
  | created
  | registered
  | waiting
  | leaving (result : Option Message)
  | returned (result : Option Message)
  deriving DecidableEq

/-- The reply that a `Request` has picked. -/
def ReqPhase.reply : ReqPhase → Option Message
  | .leaving result | .returned result => result
  | _ => none

structure ReqCall where
  reqID : GoString
  chan : Chan Message 1
  phase : ReqPhase

/-- Where `handleMessage` stands: before it looks into `pending`, before it
writes to the channel of request `i`, before it calls the handlers, and at its
end. -/
inductive HandleStage where
  | arrived
  | taken (i : Nat)
  | unmatched
  | handled
  deriving DecidableEq

structure Arrival where
  msg : Message
  stage : HandleStage

/-- The requests and the arriving messages of a peer with handlers of type
`η`. The last two fields are history: which message was put in the channel of
which request, and which message was handed to which handlers. -/
structure Exchange (η : Type) where
  handlers : List η
  pending : GoMap GoString Nat
  calls : List ReqCall
  arrivals : List Arrival
  placed : List (Nat × Nat)
  dispatched : List (Nat × List η)

inductive ExchangeAction (η : Type) where
  | addHandler (h : η)
  | request (raw : Bytes)
  | register (i : Nat)
  | send (i : Nat) (ok : Bool)
  | receive (i : Nat)
  | timeout (i : Nat)
  | finish (i : Nat)
  | arrive (msg : Message)
  | lookup (k : Nat)
  | deliver (k : Nat)
  | dispatch (k : Nat)

/-- The number of random bytes that `newReqID` draws. -/
def reqIDSize : Nat := 16

namespace Exchange

variable {η : Type}

def init (handlers : List η) : Exchange η where
  handlers := handlers
  pending := ∅
  calls := []
  arrivals := []
  placed := []
  dispatched := []

/-- Request `i` moves on. -/
def setCall (s : Exchange η) (i : Nat) (c : ReqCall) : Exchange η :=
  { s with calls := s.calls.set i c }

/-- The handling of message `k` moves on. -/
def setStage (s : Exchange η) (k : Nat) (a : Arrival) (stage : HandleStage) : Exchange η :=
  { s with arrivals := s.arrivals.set k { a with stage } }

/-- The request whose channel a message is for. -/
def target (s : Exchange η) (msg : Message) : Option Nat :=
  if msg.reqID ≠ [] then s.pending.lookup msg.reqID else none

/-- The section of `handleMessage` that holds the lock of `pending`. -/
def takePending (s : Exchange η) (k : Nat) (a : Arrival) : Exchange η :=
  match s.target a.msg with
  | some i => { s.setStage k a (.taken i) with pending := s.pending.erase a.msg.reqID }
  | none => s.setStage k a .unmatched

/-- `ch <- msg`; `none` when the channel has no room, or is closed. -/
def place (s : Exchange η) (k i : Nat) (a : Arrival) (c : ReqCall) : Option (Exchange η) :=
  match c.chan.trySend a.msg with
  | .sent ch => some { (s.setStage k a .handled).setCall i { c with chan := ch } with
      placed := (k, i) :: s.placed }
  | .full | .panic => none

/-- The next state; `none` when the step cannot be taken. The request ids are
drawn at random and taken to be distinct. A timer may go off when a reply is
there already: `select` then picks either. -/
def next (s : Exchange η) : ExchangeAction η → Option (Exchange η)
  | .addHandler h => some { s with handlers := s.handlers ++ [h] }
  | .request raw =>
    if raw.length = reqIDSize ∧ hexEncode raw ∉ s.calls.map (·.reqID) then
      some { s with calls := s.calls ++ [⟨hexEncode raw, Chan.make, .created⟩] }
    else none
  | .register i =>
    (s.calls[i]?.filter fun c => c.phase = .created).map fun c =>
      { s.setCall i { c with phase := .registered } with pending := s.pending.insert c.reqID i }
  | .send i ok =>
    (s.calls[i]?.filter fun c => c.phase = .registered).map fun c =>
      s.setCall i { c with phase := if ok then .waiting else .leaving none }
  | .receive i =>
    (s.calls[i]?.filter fun c => c.phase = .waiting).bind fun c =>
      match c.chan.tryReceive with
      | .item msg ch => some (s.setCall i { c with chan := ch, phase := .leaving (some msg) })
      | .ended | .blocked => none
  | .timeout i =>
    (s.calls[i]?.filter fun c => c.phase = .waiting).map fun c =>
      s.setCall i { c with phase := .leaving none }
  | .finish i =>
    s.calls[i]?.bind fun c =>
      match c.phase with
      | .leaving result =>
        some { s.setCall i { c with phase := .returned result } with
          pending := s.pending.erase c.reqID }
      | _ => none
  | .arrive msg => some { s with arrivals := s.arrivals ++ [⟨msg, .arrived⟩] }
  | .lookup k =>
    (s.arrivals[k]?.filter fun a => a.stage = .arrived).map fun a => s.takePending k a
  | .deliver k =>
    s.arrivals[k]?.bind fun a =>
      match a.stage with
      | .taken i => s.calls[i]?.bind fun c => s.place k i a c
      | _ => none
  | .dispatch k =>
    (s.arrivals[k]?.filter fun a => a.stage = .unmatched).map fun a =>
      { s.setStage k a .handled with dispatched := (k, s.handlers) :: s.dispatched }

/-- How often message `k` was put in a channel or handed to the handlers. -/
def outcomes (s : Exchange η) (k : Nat) : Nat :=
  s.placed.countP (fun p => p.1 = k) + s.dispatched.countP (fun p => p.1 = k)

/-- How many messages were put in the channel of request `i`. -/
def received (s : Exchange η) (i : Nat) : Nat := s.placed.countP fun p => p.2 = i

/-- Message `k` has arrived and `handleMessage` is done with it. -/
def handledAt (arrivals : List Arrival) (k : Nat) : Bool :=
  arrivals[k]?.any fun a => a.stage = .handled

/-! ## What a step can do -/

/-- What a step does. The steps of a request that touch neither `pending` nor
the messages on their way are one case: they may take messages out of the
channel, and pick one as the result. -/
inductive Step (s : Exchange η) : ExchangeAction η → Exchange η → Prop
  | addHandler (h : η) : Step s (.addHandler h) { s with handlers := s.handlers ++ [h] }
  | request {raw : Bytes} (hFresh : hexEncode raw ∉ s.calls.map (·.reqID)) :
      Step s (.request raw) { s with calls := s.calls ++ [⟨hexEncode raw, Chan.make, .created⟩] }
  | register {i : Nat} {c : ReqCall} (hCall : s.calls[i]? = some c) (hPhase : c.phase = .created) :
      Step s (.register i) { s.setCall i { c with phase := .registered } with
        pending := s.pending.insert c.reqID i }
  | goOn {act : ExchangeAction η} {i : Nat} {c c' : ReqCall} (hAct : ∀ j, act ≠ .finish j)
      (hCall : s.calls[i]? = some c)
      (hPhase : c.phase ≠ .created ∧ ∀ r, c.phase ≠ .returned r)
      (hPhase' : c'.phase ≠ .created ∧ ∀ r, c'.phase ≠ .returned r)
      (hID : c'.reqID = c.reqID) (hClosed : c'.chan.closed = c.chan.closed)
      (hLen : c'.chan.buffer.length ≤ c.chan.buffer.length)
      (hFrom : ∀ m, m ∈ c'.chan.buffer ∨ c'.phase.reply = some m → m ∈ c.chan.buffer) :
      Step s act (s.setCall i c')
  | finish {i : Nat} {c : ReqCall} {result : Option Message} (hCall : s.calls[i]? = some c)
      (hPhase : c.phase = .leaving result) :
      Step s (.finish i) { s.setCall i { c with phase := .returned result } with
        pending := s.pending.erase c.reqID }
  | arrive (msg : Message) :
      Step s (.arrive msg) { s with arrivals := s.arrivals ++ [⟨msg, .arrived⟩] }
  | take {k i : Nat} {a : Arrival} (hArrival : s.arrivals[k]? = some a)
      (hStage : a.stage = .arrived) (hTarget : s.target a.msg = some i) :
      Step s (.lookup k) { s.setStage k a (.taken i) with
        pending := s.pending.erase a.msg.reqID }
  | miss {k : Nat} {a : Arrival} (hArrival : s.arrivals[k]? = some a)
      (hStage : a.stage = .arrived) (hTarget : s.target a.msg = none) :
      Step s (.lookup k) (s.setStage k a .unmatched)
  | deliver {k i : Nat} {a : Arrival} {c : ReqCall} {ch : Chan Message 1}
      (hArrival : s.arrivals[k]? = some a) (hStage : a.stage = .taken i)
      (hCall : s.calls[i]? = some c) (hSent : c.chan.trySend a.msg = .sent ch) :
      Step s (.deliver k) { (s.setStage k a .handled).setCall i { c with chan := ch } with
        placed := (k, i) :: s.placed }
  | dispatch {k : Nat} {a : Arrival} (hArrival : s.arrivals[k]? = some a)
      (hStage : a.stage = .unmatched) :
      Step s (.dispatch k) { s.setStage k a .handled with
        dispatched := (k, s.handlers) :: s.dispatched }

variable {s t : Exchange η} {act : ExchangeAction η} {a : Arrival} {arrivals : List Arrival}
  {c : ReqCall} {i k : Nat}

theorem filter_call {p : ReqPhase}
    (h : (s.calls[i]?.filter fun c => decide (c.phase = p)) = some c) :
    s.calls[i]? = some c ∧ c.phase = p := by
  obtain ⟨hCall, hPhase⟩ := filter_eq_some_iff.mp h
  exact ⟨hCall, of_decide_eq_true hPhase⟩

theorem filter_arrival {st : HandleStage}
    (h : (s.arrivals[k]?.filter fun a => decide (a.stage = st)) = some a) :
    s.arrivals[k]? = some a ∧ a.stage = st := by
  obtain ⟨hArrival, hStage⟩ := filter_eq_some_iff.mp h
  exact ⟨hArrival, of_decide_eq_true hStage⟩

/-- **One step.** -/
theorem next_step (h : s.next act = some t) : Step s act t := by
  cases act with
  | addHandler hd =>
    cases h
    exact .addHandler hd
  | request raw =>
    obtain ⟨⟨-, hFresh⟩, h⟩ := ite_none_right_eq_some.mp h
    cases h
    exact .request hFresh
  | register i =>
    obtain ⟨c, hc, rfl⟩ := map_eq_some_iff.mp h
    obtain ⟨hCall, hPhase⟩ := filter_call hc
    exact .register hCall hPhase
  | send i ok =>
    obtain ⟨c, hc, rfl⟩ := map_eq_some_iff.mp h
    obtain ⟨hCall, hPhase⟩ := filter_call hc
    refine .goOn (by simp) hCall (by simp [hPhase]) ?_ rfl rfl le_rfl ?_
    · cases ok <;> simp
    · intro m hm
      cases ok <;> simpa [ReqPhase.reply] using hm
  | receive i =>
    obtain ⟨c, hc, h⟩ := bind_eq_some_iff.mp h
    obtain ⟨hCall, hPhase⟩ := filter_call hc
    split at h
    case h_1 msg ch hItem =>
      cases h
      obtain ⟨hClosed, hBuffer⟩ := Chan.tryReceive_eq_item hItem
      refine .goOn (by simp) hCall (by simp [hPhase]) (by simp) rfl hClosed (by simp [hBuffer]) ?_
      intro m hm
      rw [hBuffer]
      rcases hm with hm | hm
      · exact mem_cons_of_mem _ hm
      · cases hm
        exact mem_cons_self
    all_goals cases h
  | timeout i =>
    obtain ⟨c, hc, rfl⟩ := map_eq_some_iff.mp h
    obtain ⟨hCall, hPhase⟩ := filter_call hc
    refine .goOn (by simp) hCall (by simp [hPhase]) (by simp) rfl rfl le_rfl ?_
    intro m hm
    simpa [ReqPhase.reply] using hm
  | finish i =>
    obtain ⟨c, hCall, h⟩ := bind_eq_some_iff.mp h
    split at h
    case h_1 result hPhase =>
      cases h
      exact .finish hCall hPhase
    all_goals cases h
  | arrive msg =>
    cases h
    exact .arrive msg
  | lookup k =>
    obtain ⟨a, ha, rfl⟩ := map_eq_some_iff.mp h
    obtain ⟨hArrival, hStage⟩ := filter_arrival ha
    unfold takePending
    split
    · rename_i i hTarget
      exact .take hArrival hStage hTarget
    · rename_i hTarget
      exact .miss hArrival hStage hTarget
  | deliver k =>
    obtain ⟨a, hArrival, h⟩ := bind_eq_some_iff.mp h
    split at h
    case h_1 i hStage =>
      obtain ⟨c, hCall, h⟩ := bind_eq_some_iff.mp h
      unfold place at h
      split at h
      case h_1 ch hSent =>
        cases h
        exact .deliver hArrival hStage hCall hSent
      all_goals cases h
    all_goals cases h
  | dispatch k =>
    obtain ⟨a, ha, rfl⟩ := map_eq_some_iff.mp h
    obtain ⟨hArrival, hStage⟩ := filter_arrival ha
    exact .dispatch hArrival hStage

/-! ## Tickets -/

/-- The entries of `pending` that lead to request `i`. -/
def entriesFor (pending : GoMap GoString Nat) (i : Nat) : Int :=
  weight (fun _ j => if j = i then 1 else 0) pending

/-- The messages that a read loop is about to write to the channel of request
`i`. -/
def onTheWay (arrivals : List Arrival) (i : Nat) : Nat :=
  arrivals.countP fun a => a.stage = .taken i

/-- The tickets of request `i`: what may still become, or has become, a message
in its channel. -/
def tickets (s : Exchange η) (i : Nat) : Int :=
  entriesFor s.pending i + onTheWay s.arrivals i + s.received i

theorem one_or_zero_nonneg (i j : Nat) : (0 : Int) ≤ if j = i then 1 else 0 := by
  split <;> decide

theorem entriesFor_nonneg (pending : GoMap GoString Nat) (i : Nat) : 0 ≤ entriesFor pending i :=
  weight_nonneg (fun _ j => one_or_zero_nonneg i j) pending

/-- An entry is written, over another one or not. -/
theorem entriesFor_insert_le (pending : GoMap GoString Nat) (x : GoString) (i j : Nat) :
    entriesFor (pending.insert x i) j ≤ entriesFor pending j + if i = j then 1 else 0 := by
  have hOld := weightAt_nonneg (fun _ i => one_or_zero_nonneg j i) pending x
  have hInsert := weight_insert (fun _ i => if i = j then 1 else 0) pending x i
  unfold entriesFor
  omega

/-- An entry is taken out, if it is there. -/
theorem entriesFor_erase_le (pending : GoMap GoString Nat) (x : GoString) (j : Nat) :
    entriesFor (pending.erase x) j ≤ entriesFor pending j := by
  have hOld := weightAt_nonneg (fun _ i => one_or_zero_nonneg j i) pending x
  have hErase := weight_erase (fun _ i => if i = j then 1 else 0) pending x
  unfold entriesFor
  omega

theorem entriesFor_erase {pending : GoMap GoString Nat} {x : GoString}
    (h : pending.lookup x = some i) (j : Nat) :
    entriesFor (pending.erase x) j + (if i = j then 1 else 0) = entriesFor pending j := by
  have hErase := weight_erase (fun _ i => if i = j then 1 else 0) pending x
  rw [weightAt_of_lookup h] at hErase
  unfold entriesFor
  omega

/-- The handling of one message moves on, the others stay. -/
theorem onTheWay_set {b : Arrival} (hArrival : arrivals[k]? = some a) (i : Nat) :
    onTheWay (arrivals.set k b) i + (if a.stage = .taken i then 1 else 0) =
      onTheWay arrivals i + if b.stage = .taken i then 1 else 0 := by
  simpa [onTheWay] using
    countP_pool_set (p := a) (f := fun a : Arrival => decide (a.stage = .taken i)) hArrival

theorem target_eq_some {msg : Message} (h : s.target msg = some i) :
    s.pending.lookup msg.reqID = some i := by
  unfold target at h
  split at h
  · exact h
  · cases h

/-- **Tickets.** No step makes a ticket, except the one by which a request
enters its channel into `pending`. -/
theorem Step.tickets_le (h : Step s act t) (j : Nat) :
    t.tickets j ≤ s.tickets j ∨
      ((∃ c, s.calls[j]? = some c ∧ c.phase = .created) ∧
        (∃ c, t.calls[j]? = some c ∧ c.phase = .registered) ∧
        t.tickets j ≤ s.tickets j + 1) := by
  cases h with
  | addHandler | request | goOn => exact .inl le_rfl
  | @register i c hCall hPhase =>
    have hEntries := entriesFor_insert_le s.pending c.reqID i j
    have hTickets : Exchange.tickets { s.setCall i { c with phase := .registered } with
        pending := s.pending.insert c.reqID i } j ≤ s.tickets j + if i = j then 1 else 0 := by
      show entriesFor (s.pending.insert c.reqID i) j + onTheWay s.arrivals j + s.received j ≤ _
      unfold tickets
      omega
    by_cases hj : i = j
    · subst hj
      rw [if_pos rfl] at hTickets
      exact .inr ⟨⟨c, hCall, hPhase⟩, ⟨_, pool_set_self hCall, rfl⟩, hTickets⟩
    · rw [if_neg hj] at hTickets
      exact .inl (by omega)
  | @finish i c result hCall hPhase =>
    have hErase := entriesFor_erase_le s.pending c.reqID j
    left
    show entriesFor (s.pending.erase c.reqID) j + onTheWay s.arrivals j + s.received j ≤ _
    unfold tickets
    omega
  | arrive msg =>
    have hWay : onTheWay (s.arrivals ++ [⟨msg, .arrived⟩]) j = onTheWay s.arrivals j := by
      simp [onTheWay]
    left
    show entriesFor s.pending j + onTheWay (s.arrivals ++ _) j + s.received j ≤ _
    rw [hWay]
    exact le_rfl
  | @take k i a hArrival hStage hTarget =>
    -- the ticket passes from the entry to the message
    have hErase := entriesFor_erase (target_eq_some hTarget) j
    have hWay := onTheWay_set (b := { a with stage := .taken i }) hArrival j
    simp only [hStage, reduceCtorEq, if_false, HandleStage.taken.injEq] at hWay
    left
    show entriesFor (s.pending.erase a.msg.reqID) j + onTheWay (s.arrivals.set k _) j +
      s.received j ≤ _
    unfold tickets
    split at hWay
    · rw [if_pos ‹_›] at hErase
      omega
    · rw [if_neg ‹_›] at hErase
      omega
  | @miss k a hArrival hStage hTarget =>
    have hWay := onTheWay_set (b := { a with stage := .unmatched }) hArrival j
    simp only [hStage, reduceCtorEq, if_false] at hWay
    left
    show entriesFor s.pending j + onTheWay (s.arrivals.set k _) j + s.received j ≤ _
    unfold tickets
    omega
  | @deliver k i a c ch hArrival hStage hCall hSent =>
    -- and from the message on its way to the message in the channel
    have hWay := onTheWay_set (b := { a with stage := .handled }) hArrival j
    have hPlaced : ((k, i) :: s.placed).countP (fun p => decide (p.2 = j)) =
        s.received j + if i = j then 1 else 0 := by
      simp [received, countP_cons]
    simp only [hStage, reduceCtorEq, if_false, HandleStage.taken.injEq] at hWay
    left
    show entriesFor s.pending j + onTheWay (s.arrivals.set k _) j +
      (((k, i) :: s.placed).countP _ : Nat) ≤ _
    rw [hPlaced]
    unfold tickets
    split at hWay
    · rw [if_pos ‹_›]
      omega
    · rw [if_neg ‹_›]
      omega
  | @dispatch k a hArrival hStage =>
    have hWay := onTheWay_set (b := { a with stage := .handled }) hArrival j
    simp only [hStage, reduceCtorEq, if_false] at hWay
    left
    show entriesFor s.pending j + onTheWay (s.arrivals.set k _) j + s.received j ≤ _
    unfold tickets
    omega

/-! ## Requests -/

/-- The request has not returned. -/
def ReqCall.active (c : ReqCall) : Prop := ∀ r, c.phase ≠ .returned r

/-- Every request keeps its id, and is active until it finishes. -/
theorem Step.calls (h : Step s act t) :
    Evolves (fun c c' => c'.reqID = c.reqID ∧
      ((∀ i, act ≠ .finish i) → ReqCall.active c → ReqCall.active c')) s.calls t.calls := by
  have hRefl : ∀ c : ReqCall, c.reqID = c.reqID ∧
      ((∀ i, act ≠ .finish i) → ReqCall.active c → ReqCall.active c) :=
    fun c => ⟨rfl, fun _ hActive => hActive⟩
  cases h with
  | addHandler | arrive | take | miss | dispatch => exact fun i c hc => ⟨c, hc, hRefl c⟩
  | request => exact .append hRefl
  | register hCall => exact .set hRefl hCall ⟨rfl, fun _ _ r => by simp⟩
  | goOn _ hCall _ hPhase' hID => exact .set hRefl hCall ⟨hID, fun _ _ => hPhase'.2⟩
  | finish hCall => exact .set hRefl hCall ⟨rfl, fun hNot => absurd rfl (hNot _)⟩
  | deliver _ _ hCall => exact .set hRefl hCall ⟨rfl, fun _ hActive => hActive⟩

theorem Step.ids (h : Step s act t) (hIds : (s.calls.map (·.reqID)).Nodup) :
    (t.calls.map (·.reqID)).Nodup := by
  cases h with
  | addHandler | arrive | take | miss | dispatch => exact hIds
  | request hFresh =>
    rw [map_append, map_singleton, nodup_append]
    refine ⟨hIds, nodup_singleton _, ?_⟩
    rintro x hx y hy rfl
    rw [mem_singleton] at hy
    rw [hy] at hx
    exact hFresh hx
  | register hCall | finish hCall | deliver _ _ hCall =>
    show ((s.calls.set _ _).map (·.reqID)).Nodup
    rw [pool_map_set hCall]
    · exact hIds
    · rfl
  | goOn _ hCall _ _ hID =>
    show ((s.calls.set _ _).map (·.reqID)).Nodup
    rw [pool_map_set hCall hID]
    exact hIds

/-- A request that was not created by the step, and has not moved in it, was
there before. -/
theorem Step.created (h : Step s act t) (hNew : ∀ c, t.calls[i]? = some c → c.phase = .created) :
    ∀ c, s.calls[i]? = some c → c.phase = .created := by
  intro c hc
  cases h with
  | addHandler | arrive | take | miss | dispatch => exact hNew c hc
  | request => exact hNew c (pool_append_old hc)
  | @register j d hCall | @finish j d _ hCall =>
    by_cases hij : i = j
    · subst hij
      have hPhase := hNew _ (pool_set_self hCall)
      cases hPhase
    · exact hNew c (pool_set_other hij hc)
  | @goOn _ j d d' _ hCall _ hPhase' =>
    by_cases hij : i = j
    · subst hij
      exact absurd (hNew _ (pool_set_self hCall)) hPhase'.1
    · exact hNew c (pool_set_other hij hc)
  | @deliver k j a d ch _ _ hCall =>
    by_cases hij : i = j
    · subst hij
      cases hCall.symm.trans hc
      exact hNew { c with chan := ch } (pool_set_self hCall)
    · exact hNew c (pool_set_other hij hc)

/-- Every entry of `pending` leads to an active request with that id. -/
def Entries (s : Exchange η) : Prop :=
  ∀ x i, s.pending.lookup x = some i →
    ∃ c, s.calls[i]? = some c ∧ c.reqID = x ∧ ReqCall.active c

theorem Step.entries (h : Step s act t) (hEntries : s.Entries) : t.Entries := by
  intro x i hLookup
  -- an entry that was there before still leads to the same request
  have hOld : (∀ i, act ≠ .finish i) → s.pending.lookup x = some i →
      ∃ c, t.calls[i]? = some c ∧ c.reqID = x ∧ ReqCall.active c := by
    intro hNot hBefore
    obtain ⟨c, hc, hID, hActive⟩ := hEntries x i hBefore
    obtain ⟨c', hc', hSame, hKeep⟩ := h.calls i c hc
    exact ⟨c', hc', hSame.trans hID, hKeep hNot hActive⟩
  cases h with
  | addHandler | arrive | miss | dispatch | request | deliver => exact hOld (by simp) hLookup
  | goOn hAct => exact hOld hAct hLookup
  | @register j d hCall =>
    rcases lookup_insert_cases hLookup with ⟨rfl, rfl⟩ | ⟨-, hBefore⟩
    · exact ⟨_, pool_set_self hCall, rfl, fun r => by simp⟩
    · exact hOld (by simp) hBefore
  | @finish j d result hCall =>
    obtain ⟨hNe, hBefore⟩ := lookup_of_lookup_erase hLookup
    obtain ⟨c, hc, hID, hActive⟩ := hEntries x i hBefore
    have hij : i ≠ j := by
      rintro rfl
      rw [hCall] at hc
      cases hc
      exact hNe hID.symm
    exact ⟨c, pool_set_other hij hc, hID, hActive⟩
  | take => exact hOld (by simp) (lookup_of_lookup_erase hLookup).2

/-- The channel of a request is open and holds no more than it has received,
and what it holds or has given out are replies to the request. -/
structure Consistent (received : Nat) (c : ReqCall) : Prop where
  opened : c.chan.closed = false
  fits : c.chan.buffer.length ≤ received
  own : ∀ m, m ∈ c.chan.buffer ∨ c.phase.reply = some m → m.reqID = c.reqID

/-! ## Messages -/

/-- A message on its way to a request, or put there, has its id. -/
structure Addressed (s : Exchange η) (k : Nat) (a : Arrival) : Prop where
  taken : ∀ i, a.stage = .taken i → ∃ c, s.calls[i]? = some c ∧ c.reqID = a.msg.reqID
  placed : ∀ i, (k, i) ∈ s.placed → ∃ c, s.calls[i]? = some c ∧ c.reqID = a.msg.reqID

/-- All that the steps keep. -/
structure Inv (s : Exchange η) : Prop where
  ids : (s.calls.map (·.reqID)).Nodup
  ticket : ∀ i, s.tickets i ≤ 1
  unissued : ∀ i, (∀ c, s.calls[i]? = some c → c.phase = .created) → s.tickets i ≤ 0
  entries : s.Entries
  call : ∀ i c, s.calls[i]? = some c → Consistent (s.received i) c
  arrival : ∀ k a, s.arrivals[k]? = some a → s.Addressed k a
  outcome : ∀ k, s.outcomes k = if handledAt s.arrivals k then 1 else 0

theorem inv_init (handlers : List η) : (init handlers).Inv where
  ids := nodup_nil
  ticket := fun i => by simp [tickets, init, entriesFor, onTheWay, received]
  unissued := fun i _ => by simp [tickets, init, entriesFor, onTheWay, received]
  entries := fun x i h => by cases h
  call := fun i c h => by cases h
  arrival := fun k a h => by cases h
  outcome := fun k => rfl

/-- A message on its way finds its channel open and empty. -/
theorem Inv.room (hInv : s.Inv) (hArrival : s.arrivals[k]? = some a) (hStage : a.stage = .taken i)
    (hCall : s.calls[i]? = some c) : c.chan.closed = false ∧ c.chan.buffer = [] := by
  have hOne := hInv.ticket i
  have hEntries := entriesFor_nonneg s.pending i
  have hWay : 0 < onTheWay s.arrivals i :=
    countP_pos_iff.mpr ⟨a, mem_of_getElem? hArrival, by simp [hStage]⟩
  have hNone : s.received i = 0 := by
    unfold tickets at hOne
    omega
  have hFits := (hInv.call i c hCall).fits
  rw [hNone] at hFits
  exact ⟨(hInv.call i c hCall).opened, length_eq_zero_iff.mp (Nat.le_zero.mp hFits)⟩

theorem Inv.ticket_step (hInv : s.Inv) (h : Step s act t) (i : Nat) : t.tickets i ≤ 1 := by
  rcases h.tickets_le i with hLe | ⟨⟨c, hc, hPhase⟩, -, hLe⟩
  · exact hLe.trans (hInv.ticket i)
  have hNone := hInv.unissued i fun d hd => by
    rw [← some.inj (hc.symm.trans hd)]
    exact hPhase
  omega

theorem Inv.unissued_step (hInv : s.Inv) (h : Step s act t) (i : Nat)
    (hNew : ∀ c, t.calls[i]? = some c → c.phase = .created) : t.tickets i ≤ 0 := by
  rcases h.tickets_le i with hLe | ⟨-, ⟨c, hc, hPhase⟩, -⟩
  · exact hLe.trans (hInv.unissued i (h.created hNew))
  · rw [hNew c hc] at hPhase
    cases hPhase

theorem Inv.call_step (hInv : s.Inv) (h : Step s act t) :
    ∀ i c, t.calls[i]? = some c → Consistent (t.received i) c := by
  cases h with
  | addHandler | arrive | take | miss | dispatch => exact hInv.call
  | request =>
    refine forall_pool_append hInv.call ⟨rfl, Nat.zero_le _, ?_⟩
    intro m hm
    rcases hm with hm | hm
    · cases hm
    · cases hm
  | register hCall hPhase =>
    refine forall_pool_set hInv.call ?_
    have hOld := hInv.call _ _ hCall
    refine ⟨hOld.opened, hOld.fits, fun m hm => hOld.own m ?_⟩
    exact hm.imp_right fun hReply => by cases hReply
  | goOn _ hCall _ _ hID hClosed hLen hFrom =>
    refine forall_pool_set hInv.call ?_
    have hOld := hInv.call _ _ hCall
    refine ⟨hClosed.trans hOld.opened, hLen.trans hOld.fits, fun m hm => ?_⟩
    rw [hID]
    exact hOld.own m (.inl (hFrom m hm))
  | finish hCall hPhase =>
    refine forall_pool_set hInv.call ?_
    have hOld := hInv.call _ _ hCall
    refine ⟨hOld.opened, hOld.fits, fun m hm => hOld.own m ?_⟩
    rw [hPhase]
    exact hm
  | @deliver k i a c ch hArrival hStage hCall hSent =>
    obtain ⟨-, hClosed, hBuffer⟩ := Chan.trySend_eq_sent hSent
    have hMore : ∀ j, Exchange.received
        { (s.setStage k a .handled).setCall i { c with chan := ch } with
          placed := (k, i) :: s.placed } j = s.received j + if i = j then 1 else 0 := by
      intro j
      simp [received, countP_cons]
    have hOld := hInv.call i c hCall
    refine forall_pool_set (fun j d hd => ?_) ⟨hClosed, ?_, ?_⟩
    · have hj := hInv.call j d hd
      exact ⟨hj.opened, by rw [hMore]; exact hj.fits.trans (Nat.le_add_right _ _), hj.own⟩
    · have hFits := hOld.fits
      rw [hMore, if_pos rfl]
      simp only [hBuffer, length_append, length_singleton]
      omega
    · intro m hm
      simp only [hBuffer, mem_append, mem_singleton] at hm
      rcases hm with (hm | rfl) | hm
      · exact hOld.own m (.inl hm)
      · -- the message that was on its way has the id of the request
        obtain ⟨c', hc', hID⟩ := (hInv.arrival k a hArrival).taken i hStage
        rw [← some.inj (hCall.symm.trans hc')] at hID
        exact hID.symm
      · exact hOld.own m (.inr hm)

theorem handledAt_append (arrivals : List Arrival) (msg : Message) (k : Nat) :
    handledAt (arrivals ++ [⟨msg, .arrived⟩]) k = handledAt arrivals k := by
  unfold handledAt
  rcases Nat.lt_trichotomy k arrivals.length with hLt | rfl | hGt
  · rw [getElem?_append_left hLt]
  · simp
  · rw [getElem?_eq_none (by simp; omega), getElem?_eq_none (by omega)]

theorem handledAt_set {b : Arrival} (hArrival : arrivals[k]? = some a) (k' : Nat) :
    handledAt (arrivals.set k b) k' =
      if k = k' then decide (b.stage = .handled) else handledAt arrivals k' := by
  unfold handledAt
  by_cases hk : k = k'
  · subst hk
    rw [pool_set_self hArrival, if_pos rfl]
    rfl
  · rw [getElem?_set_ne hk, if_neg hk]

/-- **Disposal.** A message counts as disposed of by the very step that ends
its handling. -/
theorem Step.outcomes (h : Step s act t) (k : Nat) :
    t.outcomes k + (if handledAt s.arrivals k then 1 else 0) =
      s.outcomes k + if handledAt t.arrivals k then 1 else 0 := by
  cases h with
  | addHandler | request | register | goOn | finish => rfl
  | arrive msg =>
    show s.outcomes k + _ = s.outcomes k + if handledAt (s.arrivals ++ _) k then 1 else 0
    rw [handledAt_append]
  | @take k' i a hArrival hStage | @miss k' a hArrival hStage =>
    show s.outcomes k + _ = s.outcomes k + if handledAt (s.arrivals.set k' _) k then 1 else 0
    rw [handledAt_set hArrival]
    by_cases hk : k' = k
    · subst hk
      simp [handledAt, hArrival, hStage]
    · simp [hk]
  | @deliver k' i a c ch hArrival hStage =>
    show ((k', i) :: s.placed).countP (fun p => decide (p.1 = k)) +
        s.dispatched.countP (fun p => decide (p.1 = k)) + _ =
      s.outcomes k + if handledAt (s.arrivals.set k' _) k then 1 else 0
    rw [handledAt_set hArrival, countP_cons]
    unfold Exchange.outcomes
    by_cases hk : k' = k
    · subst hk
      simp [handledAt, hArrival, hStage]
      omega
    · simp [hk]
  | @dispatch k' a hArrival hStage =>
    show s.placed.countP (fun p => decide (p.1 = k)) +
        ((k', s.handlers) :: s.dispatched).countP (fun p => decide (p.1 = k)) + _ =
      s.outcomes k + if handledAt (s.arrivals.set k' _) k then 1 else 0
    rw [handledAt_set hArrival, countP_cons]
    unfold Exchange.outcomes
    by_cases hk : k' = k
    · subst hk
      simp [handledAt, hArrival, hStage]
      omega
    · simp [hk]

theorem Inv.arrival_step (hInv : s.Inv) (h : Step s act t) :
    ∀ k a, t.arrivals[k]? = some a → t.Addressed k a := by
  -- a request that is there keeps its id
  have hKeep : ∀ {i : Nat} {x : GoString}, (∃ c, s.calls[i]? = some c ∧ c.reqID = x) →
      ∃ c, t.calls[i]? = some c ∧ c.reqID = x := by
    rintro i x ⟨c, hc, hID⟩
    obtain ⟨c', hc', hSame, -⟩ := h.calls i c hc
    exact ⟨c', hc', hSame.trans hID⟩
  have hOld : ∀ {k : Nat} {a : Arrival}, s.arrivals[k]? = some a → t.placed = s.placed →
      t.Addressed k a := by
    intro k a ha hPlaced
    have hBefore := hInv.arrival k a ha
    refine ⟨fun i hi => hKeep (hBefore.taken i hi), fun i hi => ?_⟩
    rw [hPlaced] at hi
    exact hKeep (hBefore.placed i hi)
  cases h with
  | addHandler | request | register | goOn | finish => exact fun k a ha => hOld ha rfl
  | arrive msg =>
    refine forall_pool_append (fun k a ha => hOld ha rfl) ⟨nofun, fun i hi => ?_⟩
    -- nothing was put anywhere before it arrived
    have hNone : s.outcomes s.arrivals.length = 0 := by
      rw [hInv.outcome]
      simp [handledAt]
    have hCount : s.placed.countP (fun p => decide (p.1 = s.arrivals.length)) = 0 := by
      unfold Exchange.outcomes at hNone
      omega
    exact absurd (countP_eq_zero.mp hCount _ hi) (by simp)
  | @take k i a hArrival hStage hTarget =>
    have hBefore := hInv.arrival k a hArrival
    refine forall_pool_set (fun k a ha => hOld ha rfl) ⟨fun j hj => ?_, hBefore.placed⟩
    obtain rfl := HandleStage.taken.inj hj
    obtain ⟨c, hc, hID, -⟩ := hInv.entries _ _ (target_eq_some hTarget)
    exact ⟨c, hc, hID⟩
  | @miss k a hArrival | @dispatch k a hArrival =>
    exact forall_pool_set (fun k a ha => hOld ha rfl)
      ⟨nofun, (hInv.arrival k a hArrival).placed⟩
  | @deliver k i a c ch hArrival hStage hCall =>
    have hNew : ∀ {k' : Nat} {a' : Arrival}, s.arrivals[k']? = some a' → ∀ j,
        (k', j) ∈ (k, i) :: s.placed → ∃ c, s.calls[j]? = some c ∧ c.reqID = a'.msg.reqID := by
      intro k' a' ha' j hj
      rcases mem_cons.mp hj with hEq | hBefore
      · cases hEq
        cases hArrival.symm.trans ha'
        exact (hInv.arrival k a hArrival).taken i hStage
      · exact (hInv.arrival k' a' ha').placed j hBefore
    refine forall_pool_set (fun k' a' ha' => ?_) ⟨nofun, fun j hj => hKeep (hNew hArrival j hj)⟩
    exact ⟨fun j hj => hKeep ((hInv.arrival k' a' ha').taken j hj),
      fun j hj => hKeep (hNew ha' j hj)⟩

/-- **One step.** -/
theorem Inv.step (hInv : s.Inv) (h : Step s act t) : t.Inv where
  ids := h.ids hInv.ids
  ticket := hInv.ticket_step h
  unissued := hInv.unissued_step h
  entries := h.entries hInv.entries
  call := hInv.call_step h
  arrival := hInv.arrival_step h
  outcome := by
    intro k
    have hStep := h.outcomes k
    have hBefore := hInv.outcome k
    omega

theorem inv_of_exec {handlers : List η} {acts : List (ExchangeAction η)}
    (hRun : Exec (stepOf next) (init handlers) acts s) : s.Inv :=
  hRun.invariant (inv_init handlers) fun hInv hStep => hInv.step (next_step hStep)

/-- A message that has been taken out of `pending` can be written to its
channel at once. -/
theorem Inv.deliver_isSome (hInv : s.Inv) (hArrival : s.arrivals[k]? = some a)
    (hStage : a.stage = .taken i) : (s.next (.deliver k)).isSome = true := by
  obtain ⟨c, hCall, -⟩ := (hInv.arrival k a hArrival).taken i hStage
  obtain ⟨hOpen, hEmpty⟩ := hInv.room hArrival hStage hCall
  obtain ⟨ch, hSent⟩ := Chan.exists_trySend_sent hOpen (by simp [hEmpty]) a.msg
  simp [next, hArrival, hStage, hCall, place, hSent]

/-- The id of a request that has returned leads nowhere. -/
theorem Inv.returned_notMem (hInv : s.Inv) {result : Option Message}
    (hCall : s.calls[i]? = some c) (hPhase : c.phase = .returned result) : c.reqID ∉ s.pending := by
  intro hMem
  obtain ⟨j, hLookup⟩ := Finmap.mem_iff.mp hMem
  obtain ⟨d, hd, hID, hActive⟩ := hInv.entries _ _ hLookup
  -- the entry could only be its own, as the ids are distinct
  have hSame : j = i := by
    refine (getElem?_inj ?_ hInv.ids).mp ?_
    · rw [length_map]
      exact (List.getElem?_eq_some_iff.mp hd).1
    · rw [getElem?_map, getElem?_map, hd, hCall, map_some, map_some, hID]
  subst hSame
  rw [hCall] at hd
  cases hd
  exact hActive result hPhase

/-- The only record of `k`. -/
theorem filter_eq_singleton {β : Type} {l : List (Nat × β)}
    (h : l.countP (fun p => decide (p.1 = k)) = 1) :
    ∃ b, l.filter (fun p => decide (p.1 = k)) = [(k, b)] := by
  rw [countP_eq_length_filter] at h
  obtain ⟨⟨k', b⟩, hOne⟩ := length_eq_one_iff.mp h
  have hMem : (k', b) ∈ l.filter (fun p => decide (p.1 = k)) := by
    rw [hOne]
    exact mem_singleton_self _
  obtain rfl : k' = k := by simpa using (mem_filter.mp hMem).2
  exact ⟨b, hOne⟩

theorem filter_eq_nil {β : Type} {l : List (Nat × β)}
    (h : l.countP (fun p => decide (p.1 = k)) = 0) :
    l.filter (fun p => decide (p.1 = k)) = [] := by
  rw [countP_eq_length_filter] at h
  exact length_eq_zero_iff.mp h

/-- A handled message was put in one channel, or handed to the handlers. -/
theorem Inv.handled (hInv : s.Inv) (hArrival : s.arrivals[k]? = some a)
    (hStage : a.stage = .handled) :
    ((∃ i c, s.placed.filter (fun p => p.1 = k) = [(k, i)] ∧ s.calls[i]? = some c ∧
        c.reqID = a.msg.reqID) ∧ s.dispatched.filter (fun p => p.1 = k) = []) ∨
    (s.placed.filter (fun p => p.1 = k) = [] ∧
      ∃ hs, s.dispatched.filter (fun p => p.1 = k) = [(k, hs)]) := by
  have hOne : s.placed.countP (fun p => decide (p.1 = k)) +
      s.dispatched.countP (fun p => decide (p.1 = k)) = 1 := by
    have hOutcome := hInv.outcome k
    rw [if_pos (by simp [handledAt, hArrival, hStage])] at hOutcome
    exact hOutcome
  rcases Nat.eq_zero_or_pos (s.placed.countP fun p => decide (p.1 = k)) with hZero | hPos
  · exact .inr ⟨filter_eq_nil hZero, filter_eq_singleton (by omega)⟩
  obtain ⟨i, hPlaced⟩ := filter_eq_singleton (l := s.placed) (k := k) (by omega)
  have hMem : (k, i) ∈ s.placed := by
    apply mem_of_mem_filter (p := fun p => decide (p.1 = k))
    rw [hPlaced]
    exact mem_singleton_self _
  obtain ⟨c, hc, hID⟩ := (hInv.arrival k a hArrival).placed i hMem
  exact .inl ⟨⟨i, c, hPlaced, hc, hID⟩, filter_eq_nil (by omega)⟩

/-- A message that is not handled yet has not been disposed of. -/
theorem Inv.unhandled (hInv : s.Inv) (hArrival : s.arrivals[k]? = some a)
    (hStage : a.stage ≠ .handled) :
    s.placed.filter (fun p => p.1 = k) = [] ∧ s.dispatched.filter (fun p => p.1 = k) = [] := by
  have hNone : s.placed.countP (fun p => decide (p.1 = k)) +
      s.dispatched.countP (fun p => decide (p.1 = k)) = 0 := by
    have hOutcome := hInv.outcome k
    rw [if_neg (by simp [handledAt, hArrival, hStage])] at hOutcome
    exact hOutcome
  exact ⟨filter_eq_nil (by omega), filter_eq_nil (by omega)⟩

/-- And its handling can go on. -/
theorem Inv.handling_goes_on (hInv : s.Inv) (hArrival : s.arrivals[k]? = some a)
    (hStage : a.stage ≠ .handled) :
    (s.next (.lookup k)).isSome = true ∨ (s.next (.deliver k)).isSome = true ∨
      (s.next (.dispatch k)).isSome = true := by
  cases hCase : a.stage with
  | arrived => exact .inl (by simp [next, hArrival, hCase])
  | taken i => exact .inr (.inl (hInv.deliver_isSome hArrival hCase))
  | unmatched => exact .inr (.inr (by simp [next, hArrival, hCase]))
  | handled => exact absurd hCase hStage

end Exchange

open Exchange

/-- **Requests and replies.** In every state that any interleaving of
requests, arriving messages, timeouts and failures leads to:

* a request that has returned a message has returned one with its own id;
* the channel of a request has received at most one message, and a read loop
  that is about to write to a channel can do so;
* a message that is handled was put in the channel of one request, one that had
  its id, or was handed to the handlers, and not both; a message that is not
  handled yet was neither, and its handling can go on;
* a request that has returned is not in `pending`. -/
theorem request_reply_correlation {η : Type} {handlers : List η} {acts : List (ExchangeAction η)}
    {s : Exchange η} (hRun : Exec (stepOf next) (init handlers) acts s) :
    (∀ (i : Nat) c msg, s.calls[i]? = some c → c.phase = .returned (some msg) →
      msg.reqID = c.reqID) ∧
    (∀ i, s.received i ≤ 1) ∧
    (∀ (k : Nat) a i, s.arrivals[k]? = some a → a.stage = .taken i →
      (s.next (.deliver k)).isSome = true) ∧
    (∀ (k : Nat) a, s.arrivals[k]? = some a → a.stage = .handled →
      ((∃ i c, s.placed.filter (fun p => p.1 = k) = [(k, i)] ∧ s.calls[i]? = some c ∧
          c.reqID = a.msg.reqID) ∧ s.dispatched.filter (fun p => p.1 = k) = []) ∨
      (s.placed.filter (fun p => p.1 = k) = [] ∧
        ∃ hs, s.dispatched.filter (fun p => p.1 = k) = [(k, hs)])) ∧
    (∀ (k : Nat) a, s.arrivals[k]? = some a → a.stage ≠ .handled →
      s.placed.filter (fun p => p.1 = k) = [] ∧ s.dispatched.filter (fun p => p.1 = k) = [] ∧
      ((s.next (.lookup k)).isSome = true ∨ (s.next (.deliver k)).isSome = true ∨
        (s.next (.dispatch k)).isSome = true)) ∧
    (∀ (i : Nat) c result, s.calls[i]? = some c → c.phase = .returned result →
      c.reqID ∉ s.pending) := by
  have hInv := inv_of_exec hRun
  refine ⟨?_, ?_, ?_, ?_, ?_, ?_⟩
  · intro i c msg hCall hPhase
    exact (hInv.call i c hCall).own msg (Or.inr (by rw [hPhase]; rfl))
  · intro i
    have hOne := hInv.ticket i
    have hEntries := entriesFor_nonneg s.pending i
    unfold tickets at hOne
    omega
  · intro k a i hArrival hStage
    exact hInv.deliver_isSome hArrival hStage
  · intro k a hArrival hStage
    exact hInv.handled hArrival hStage
  · intro k a hArrival hStage
    obtain ⟨hPlaced, hDispatched⟩ := hInv.unhandled hArrival hStage
    exact ⟨hPlaced, hDispatched, hInv.handling_goes_on hArrival hStage⟩
  · intro i c result hCall hPhase
    exact hInv.returned_notMem hCall hPhase

/-- A reply with the request id that comes of sixteen zero bytes. -/
def sampleReply : Message :=
  ⟨1, "dht_pong".toList, [], [], hexEncode (List.replicate reqIDSize 0), [], []⟩

/-- The reply comes twice, and both are looked up before one is delivered. -/
def repliedTwice : List (ExchangeAction Unit) :=
  [.request (List.replicate reqIDSize 0), .register 0, .send 0 true, .arrive sampleReply,
    .arrive sampleReply, .lookup 1, .lookup 0, .dispatch 0, .deliver 1, .receive 0, .finish 0]

theorem request_reply_correlation_twice :
    ∃ s c, Exec (stepOf next) (init [()]) repliedTwice s ∧
      s.calls[0]? = some c ∧ c.phase = .returned (some sampleReply) ∧
      sampleReply.reqID = c.reqID ∧ s.received 0 ≤ 1 ∧ c.reqID ∉ s.pending := by
  have hRun : (runFrom next (init [()]) repliedTwice).any (fun s =>
      s.calls[0]?.any fun c => decide (c.phase = .returned (some sampleReply))) = true := by
    decide +kernel
  obtain ⟨s, hs, hAny⟩ := (any_eq_true _ _).mp hRun
  obtain ⟨c, hCall, hPhase⟩ := (any_eq_true _ _).mp hAny
  have hPhase := of_decide_eq_true hPhase
  have hExec := Exec.of_runFrom hs
  have hAll := request_reply_correlation hExec
  exact ⟨s, c, hExec, hCall, hPhase, hAll.1 0 c _ hCall hPhase, hAll.2.1 0,
    hAll.2.2.2.2.2 0 c _ hCall hPhase⟩

end AltNet
