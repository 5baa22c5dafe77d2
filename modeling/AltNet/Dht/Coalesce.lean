import AltNet.Dht.Lookup

/-!
# AltNet — coalesced lookups (`core/dht/dht.go`)

`get` runs one `getInner` for all the callers that ask for a key in one mode
at the same time. The first of them lists an `inflightGet` under the key's hex
text with `:v` or `:u` behind it and makes the lookup; whoever finds the entry
waits on its `done` channel and reads the result from it.

Here any number of calls run interleaved. An `inflightGet` is named by the
call that made it, its leader. `getInner` is cut into the parts that read or
write the node: the gate, the local copy, the first shortlist, every single
round of the walk, and the write to the store. Between any two parts the rest
of the node may do anything, so the state of the node may be replaced by any
other one. Replies, clocks and the order of an eviction are free in each part.

`returned` records what the calls returned; the code does not keep it.

Main results:

* `DHT.innerStep_stored` — a lookup adds to the store the value that it caches,
  and nothing else;
* `DHT.getInner_parts` — the parts of a lookup, one after the other, do what
  `getInner` does;
* `get_sound_coalesced` — what verified calls return and store hashes to the
  key, who joins gets what the leader got, and no entry outlives the calls.
-/

namespace AltNet

open List Finmap GoMap

open NodeID (fill)

/-- The text that `get` lists a lookup under. -/
def cacheKey (key : NodeID) (verify : Bool) : GoString :=
  key.hex ++ if verify then ":v".toList else ":u".toList

variable {cr : Crypto} {key : NodeID} {p : InnerPhase} {verify : Bool}

theorem cacheKey_injective {key' : NodeID} {verify' : Bool}
    (h : cacheKey key verify = cacheKey key' verify') : key = key' ∧ verify = verify' := by
  have hLength : key.hex.length = key'.hex.length := by
    rw [NodeID.length_hex, NodeID.length_hex]
  obtain ⟨hHex, hMode⟩ := append_inj h hLength
  refine ⟨NodeID.hex_injective hHex, ?_⟩
  revert hMode
  cases verify <;> cases verify' <;> decide

theorem Crypto.acceptable_verified {v : Bytes} :
    cr.acceptable key true v = true ↔ cr.sha256 v = key := by
  unfold Crypto.acceptable
  rw [Bool.not_true, Bool.false_or, decide_eq_true_eq]
  exact Iff.rfl

/-! ## The parts of getInner -/

/-- Where a `getInner` stands: before which of its parts, or at its end. -/
inductive InnerPhase where
  | gate
  | readLocal
  | begin
  | walking (n : Nat) (w : Walk)
  | cache (value : Bytes)
  | ended (result : Except DhtError Bytes)

/-- What a part reads from outside of the node: the clock, the order of an
eviction, and the network. -/
structure Outside where
  now : Time
  order : List GoString
  net : Remote

/-- What follows a round of the walk. -/
def InnerPhase.afterRound (verify : Bool) (n : Nat) (w : Walk) : InnerPhase :=
  if w.done then
    match w.values with
    | [] => .ended (.error .notFound)
    | v :: _ => if verify then .cache v else .ended (.ok v)
  else .walking (n + 1) w

/-- The next part of `getInner`. A round starts from the table as it is, and
the shortlist as it was taken. -/
def DHT.innerStep (cr : Crypto) (d : DHT) (key : NodeID) (verify : Bool) (out : Outside) :
    InnerPhase → DHT × InnerPhase
  | .gate => (d, if d.isBlocked key then .ended (.error .notFound) else .readLocal)
  | .readLocal =>
    let (store, cached) := d.store.get key out.now
    ({ d with store },
      match cached.filter (cr.acceptable key verify) with
      | some v => .ended (.ok v)
      | none => .begin)
  | .begin =>
    let walk := Walk.start d.rt key []
    (d, if walk.shortlist = [] then .ended (.error .emptyTable) else .walking 0 walk)
  | .walking n w =>
    let w := { w with rt := d.rt }.round out.net key (cr.acceptable key verify) true n
    ({ d with rt := w.rt }, .afterRound verify n w)
  | .cache v =>
    ({ d with store := (d.store.put out.order key v [] out.now).1 }, .ended (.ok v))
  | .ended result => (d, .ended result)

/-- **What a part of a lookup adds to the store** is the value that it caches. -/
theorem DHT.innerStep_stored {d : DHT} {out : Outside} {x : GoString} {v : Bytes}
    (h : (d.innerStep cr key verify out p).1.store.data.lookup x = some v) :
    d.store.data.lookup x = some v ∨ p = .cache v ∧ x = key.hex := by
  cases p with
  | readLocal => exact .inl (LocalStore.within_get x v h).1
  | cache value =>
    rcases LocalStore.put_entry h with ⟨hOld, -⟩ | ⟨hKey, rfl, -⟩
    · exact .inl hOld
    · exact .inr ⟨rfl, hKey⟩
  | gate => exact .inl h
  | begin => exact .inl h
  | walking n w => exact .inl h
  | ended result => exact .inl h

/-- A result that the check of the mode lets through. -/
def Crypto.SoundResult (cr : Crypto) (key : NodeID) (verify : Bool)
    (result : Except DhtError Bytes) : Prop :=
  ∀ v, result = .ok v → cr.acceptable key verify v = true

/-- What a lookup holds has passed the check; only verified values are on
their way to the store. -/
def InnerPhase.Sound (cr : Crypto) (key : NodeID) (verify : Bool) : InnerPhase → Prop
  | .walking _ w => ∀ v ∈ w.values, cr.acceptable key verify v = true
  | .cache v => verify = true ∧ cr.acceptable key verify v = true
  | .ended result => cr.SoundResult key verify result
  | _ => True

theorem InnerPhase.sound_afterRound {n : Nat} {w : Walk}
    (h : ∀ v ∈ w.values, cr.acceptable key verify v = true) :
    (afterRound verify n w).Sound cr key verify := by
  unfold afterRound
  split
  · split
    · exact nofun
    · rename_i v rest hValues
      have hGood : cr.acceptable key verify v = true := h v (by simp [hValues])
      split
      · rename_i hVerify
        exact ⟨hVerify, hGood⟩
      · rintro v' ⟨⟩
        exact hGood
  · exact h

/-- Each part checks what it takes over, whatever the node and the network
are. -/
theorem DHT.innerStep_sound (h : p.Sound cr key verify) (d : DHT) (out : Outside) :
    (d.innerStep cr key verify out p).2.Sound cr key verify := by
  cases p with
  | gate =>
    show InnerPhase.Sound cr key verify (if _ then _ else _)
    split
    · exact nofun
    · trivial
  | readLocal =>
    unfold innerStep
    dsimp only
    split
    · rename_i v hLocal
      rintro v' ⟨⟩
      exact (Option.filter_eq_some_iff.mp hLocal).2
    · trivial
  | begin =>
    show InnerPhase.Sound cr key verify (if _ then _ else _)
    split
    · exact nofun
    · exact nofun
  | walking n w =>
    refine InnerPhase.sound_afterRound fun v hv => ?_
    rcases Walk.mem_values_round hv with hOld | hGood
    · exact h v hOld
    · exact hGood
  | cache v =>
    rintro v' ⟨⟩
    exact h.2
  | ended result => exact h

section Parts

variable {cr : Crypto} {key : NodeID} {verify : Bool} {net : Remote}

/-- One part leads from a node and a phase to the next. -/
def DHT.Part (cr : Crypto) (key : NodeID) (verify : Bool) (x y : DHT × InnerPhase) : Prop :=
  ∃ out, x.1.innerStep cr key verify out x.2 = y

theorem InnerPhase.afterRound_done {w : Walk} (n : Nat) (h : w.done = true) :
    afterRound verify n w = afterRound verify 0 w := by
  unfold afterRound
  rw [if_pos h, if_pos h]

variable {d : DHT}

/-- The rounds of a walk, by induction on their number. -/
theorem DHT.run_parts {fuel n : Nat} {w w' : Walk} (out : Outside) (hOn : w.done = false)
    (hRun : Walk.run out.net key (cr.acceptable key verify) true fuel n w = some w') :
    Relation.ReflTransGen (Part cr key verify) ({ d with rt := w.rt }, .walking n w)
      ({ d with rt := w'.rt }, .afterRound verify 0 w') := by
  induction fuel generalizing n w with
  | zero =>
    rw [Walk.run, if_neg (by simp [hOn])] at hRun
    cases hRun
  | succ fuel ih =>
    rw [Walk.run, if_neg (by simp [hOn])] at hRun
    have hPart : Part cr key verify ({ d with rt := w.rt }, .walking n w)
        ({ d with rt := (w.round out.net key (cr.acceptable key verify) true n).rt },
          .afterRound verify n (w.round out.net key (cr.acceptable key verify) true n)) :=
      ⟨out, rfl⟩
    refine .head hPart ?_
    by_cases hDone : (w.round out.net key (cr.acceptable key verify) true n).done = true
    · rw [Walk.run_done hDone] at hRun
      cases hRun
      rw [InnerPhase.afterRound_done n hDone]
    have hNext := ih (by simpa using hDone) hRun
    unfold InnerPhase.afterRound
    rw [if_neg hDone]
    exact hNext

/-- **The parts of `getInner`**, one after the other, leave the node and the
result that `getInner` does. -/
theorem DHT.getInner_parts {order : List GoString} {now later : Time} {fuel : Nat}
    {l : Lookup Bytes} (hGet : d.getInner cr net key verify order now later fuel = some l) :
    Relation.ReflTransGen (Part cr key verify) (d, .gate) (l.dht, .ended l.result) := by
  have hGate : Part cr key verify (d, .gate)
      (d, if d.isBlocked key then .ended (.error .notFound) else .readLocal) :=
    ⟨⟨now, order, net⟩, rfl⟩
  refine .head hGate ?_
  unfold getInner at hGet
  dsimp only at hGet
  split at hGet
  · rename_i hBlocked
    cases hGet
    rw [if_pos hBlocked]
  rename_i hOpen
  rw [if_neg hOpen]
  split at hGet
  · rename_i v hLocal
    cases hGet
    exact .single ⟨⟨now, order, net⟩, by simp only [innerStep, hLocal]⟩
  rename_i hLocal
  have hMiss : Part cr key verify (d, .readLocal)
      ({ d with store := (d.store.get key now).1 }, .begin) :=
    ⟨⟨now, order, net⟩, by simp only [innerStep, hLocal]⟩
  have hBegin : Part cr key verify ({ d with store := (d.store.get key now).1 }, .begin)
      ({ d with store := (d.store.get key now).1 },
        if (Walk.start d.rt key []).shortlist = [] then .ended (.error .emptyTable)
        else .walking 0 (Walk.start d.rt key [])) := ⟨⟨now, order, net⟩, rfl⟩
  refine .head hMiss (.head hBegin ?_)
  split at hGet
  · rename_i hEmpty
    cases hGet
    rw [if_pos hEmpty]
  rename_i hSome
  rw [if_neg hSome]
  obtain ⟨w, hRun, rfl⟩ := Option.map_eq_some_iff.mp hGet
  have hDone := (Walk.run_inv (Walk.WalkInv.start d.rt []) hRun).2
  have hWalk := run_parts (d := { d with store := (d.store.get key now).1 })
    ⟨later, order, net⟩ rfl hRun
  refine hWalk.trans ?_
  unfold InnerPhase.afterRound
  rw [if_pos hDone]
  cases hValues : w.values with
  | nil => rfl
  | cons v rest =>
    cases verify with
    | false => rfl
    | true => exact .single ⟨⟨later, order, net⟩, rfl⟩

/-- Two rounds and a write: the contact that is known refers to another one, which
has the value. -/
theorem getInner_parts_referral : ∃ l : Lookup Bytes,
    Relation.ReflTransGen (DHT.Part firstByte (fill 9) true)
      (nodeKnowing [contactOf 4], .gate) (l.dht, .ended l.result) ∧
    l.result = .ok [9] ∧ l.dht.store.data.lookup (fill 9).hex = some [9] ∧
    (l.dht.rt.all.map Contact.id).contains (fill 8) := by
  have hEval : ((nodeKnowing [contactOf 4]).getInner firstByte (steadyNet fun c =>
      if c.id = fill 8 then .value [9] else .contacts [contactOf 8])
      (fill 9) true [] 0 5 2).any (fun l => decide (l.result = .ok [9] ∧
        l.dht.store.data.lookup (fill 9).hex = some [9] ∧
        (l.dht.rt.all.map Contact.id).contains (fill 8))) = true := by
    decide +kernel
  obtain ⟨l, hGet, hEnd⟩ := (Option.any_eq_true _ _).mp hEval
  exact ⟨l, DHT.getInner_parts hGet, of_decide_eq_true hEnd⟩

end Parts

/-! ## Calls of get -/

/-- Where a call of `get` stands: in its own lookup, between the deletion of
the entry and the closing of the channel, or waiting on another's. -/
inductive GetPhase where
  | inner (p : InnerPhase)
  | close (result : Except DhtError Bytes)
  | wait (leader : Nat)

/-- The call has a lookup of its own. -/
def GetPhase.leading : GetPhase → Bool
  | .wait _ => false
  | _ => true

/-- What a call holds has passed the check of its mode. -/
def GetPhase.Sound (cr : Crypto) (key : NodeID) (verify : Bool) : GetPhase → Prop
  | .inner p => p.Sound cr key verify
  | .close result => cr.SoundResult key verify result
  | .wait _ => True

structure GetCall where
  key : NodeID
  verify : Bool
  phase : GetPhase

/-- What a call returned, and on whom it had waited. -/
structure GetReturn where
  tid : Nat
  key : NodeID
  verify : Bool
  joined : Option Nat
  result : Except DhtError Bytes
  deriving DecidableEq

structure GetState where
  dht : DHT
  inflightGet : GoMap GoString Nat
  calls : GoMap Nat GetCall
  done : GoMap Nat (Except DhtError Bytes)
  returned : List GetReturn

inductive GetAction where
  | get (tid : Nat) (key : NodeID) (verify : Bool)
  | step (tid : Nat) (out : Outside)
  | others (d : DHT)

namespace GetState

/-- A node on which no call is running. -/
def init (d : DHT) : GetState where
  dht := d
  inflightGet := ∅
  calls := ∅
  done := ∅
  returned := []

/-- The call goes on. -/
def advance (s : GetState) (tid : Nat) (c : GetCall) (p : GetPhase) : GetState :=
  { s with calls := s.calls.insert tid { c with phase := p } }

/-- The call returns. -/
def finish (s : GetState) (tid : Nat) (c : GetCall) (joined : Option Nat)
    (result : Except DhtError Bytes) : GetState :=
  { s with
    calls := s.calls.erase tid
    returned := ⟨tid, c.key, c.verify, joined, result⟩ :: s.returned }

/-- The next step of a call. -/
def advanceCall (cr : Crypto) (s : GetState) (tid : Nat) (c : GetCall) (out : Outside) :
    Option GetState :=
  match c.phase with
  | .inner (.ended result) =>
    some { s.advance tid c (.close result) with
      inflightGet := s.inflightGet.erase (cacheKey c.key c.verify) }
  | .inner p =>
    let (dht, p') := s.dht.innerStep cr c.key c.verify out p
    some { s.advance tid c (.inner p') with dht }
  | .close result =>
    some { s.finish tid c none result with done := s.done.insert tid result }
  | .wait leader => (s.done.lookup leader).map fun result => s.finish tid c (some leader) result

/-- The next state; `none` when the step cannot be taken. Every call has an
identifier of its own. -/
def next (cr : Crypto) (s : GetState) : GetAction → Option GetState
  | .get tid key verify =>
    if tid ∈ s.calls ∨ s.returned.any (fun r => r.tid == tid) then none
    else
      match s.inflightGet.lookup (cacheKey key verify) with
      | some leader => some { s with calls := s.calls.insert tid ⟨key, verify, .wait leader⟩ }
      | none =>
        some { s with
          calls := s.calls.insert tid ⟨key, verify, .inner .gate⟩
          inflightGet := s.inflightGet.insert (cacheKey key verify) tid }
  | .step tid out =>
    match s.calls.lookup tid with
    | none => none
    | some c => s.advanceCall cr tid c out
  | .others d => some { s with dht := d }

/-! ## What a step can do -/

/-- A new call begins its own lookup, or waits. -/
theorem next_get {cr : Crypto} {s s' : GetState} {tid : Nat} {key : NodeID} {verify : Bool}
    (h : s.next cr (.get tid key verify) = some s') :
    s'.dht = s.dht ∧ ∃ p, (p = .inner .gate ∨ ∃ leader, p = .wait leader) ∧
      s'.calls = s.calls.insert tid ⟨key, verify, p⟩ := by
  rw [next] at h
  split at h
  · cases h
  split at h
  · rename_i leader _
    cases h
    exact ⟨rfl, _, .inr ⟨leader, rfl⟩, rfl⟩
  · cases h
    exact ⟨rfl, _, .inl rfl, rfl⟩

/-- A call takes a part of its lookup, or is done with it and leaves the node
alone. -/
theorem next_step {cr : Crypto} {s s' : GetState} {tid : Nat} {out : Outside}
    (h : s.next cr (.step tid out) = some s') :
    ∃ c, s.calls.lookup tid = some c ∧
      ((∃ p, c.phase = .inner p ∧ s'.dht = (s.dht.innerStep cr c.key c.verify out p).1 ∧
          s'.calls = s.calls.insert tid
            { c with phase := .inner (s.dht.innerStep cr c.key c.verify out p).2 }) ∨
        (s'.dht = s.dht ∧ (s'.calls = s.calls.erase tid ∨
          ∃ result, s'.calls = s.calls.insert tid { c with phase := .close result }))) := by
  rw [next] at h
  split at h
  · cases h
  rename_i c hCall
  refine ⟨c, hCall, ?_⟩
  unfold advanceCall at h
  split at h
  · cases h
    exact .inr ⟨rfl, .inr ⟨_, rfl⟩⟩
  · rename_i p _ hPhase
    cases h
    exact .inl ⟨p, hPhase, rfl, rfl⟩
  · cases h
    exact .inr ⟨rfl, .inl rfl⟩
  · obtain ⟨result, -, rfl⟩ := Option.map_eq_some_iff.mp h
    exact .inr ⟨rfl, .inl rfl⟩

/-! ## The invariant -/

/-- The call is at work on a lookup of its own. -/
def Leads (calls : GoMap Nat GetCall) (leader : Nat) (key : NodeID) (verify : Bool) : Prop :=
  ∃ p : GetPhase, p.leading = true ∧ calls.lookup leader = some ⟨key, verify, p⟩

/-- The lookup is over and its result can be read. -/
def Published (s : GetState) (leader : Nat) (key : NodeID) (verify : Bool)
    (result : Except DhtError Bytes) : Prop :=
  s.done.lookup leader = some result ∧ ⟨leader, key, verify, none, result⟩ ∈ s.returned

/-- What holds in every state, however the calls are interleaved. -/
structure Coalesced (cr : Crypto) (s : GetState) : Prop where
  /-- An entry belongs to a call that has not ended its lookup. -/
  listed : ∀ k leader, s.inflightGet.lookup k = some leader →
    ∃ key verify p, s.calls.lookup leader = some ⟨key, verify, .inner p⟩ ∧
      cacheKey key verify = k
  /-- Who waits has a leader for the same key and mode, or can read its
  result. -/
  waiting : ∀ tid key verify leader, s.calls.lookup tid = some ⟨key, verify, .wait leader⟩ →
    Leads s.calls leader key verify ∨ ∃ result, s.Published leader key verify result
  /-- A call returns once. -/
  once : ∀ r ∈ s.returned, r.tid ∉ s.calls
  /-- A result can be read when its leader has returned. -/
  closed : ∀ leader result, s.done.lookup leader = some result → ∃ r ∈ s.returned, r.tid = leader
  holds : ∀ tid c, s.calls.lookup tid = some c → c.phase.Sound cr c.key c.verify
  sound : ∀ r ∈ s.returned, cr.SoundResult r.key r.verify r.result
  joined : ∀ r ∈ s.returned, ∀ leader, r.joined = some leader →
    ⟨leader, r.key, r.verify, none, r.result⟩ ∈ s.returned

variable {cr : Crypto} {s s' : GetState} {tid leader : Nat} {c : GetCall} {key : NodeID}
  {verify : Bool} {result : Except DhtError Bytes}

theorem Leads.insert_ne (h : Leads s.calls leader key verify) (hNe : leader ≠ tid) :
    Leads (s.calls.insert tid c) leader key verify := by
  obtain ⟨p, hp, hCall⟩ := h
  exact ⟨p, hp, by rw [lookup_insert_of_ne _ hNe, hCall]⟩

theorem Leads.mem (h : Leads s.calls leader key verify) : leader ∈ s.calls := by
  obtain ⟨p, -, hCall⟩ := h
  exact mem_of_lookup_eq_some hCall

/-- A leader that goes on with its lookup stays one. -/
theorem Leads.advance (h : Leads s.calls leader key verify) (hCall : s.calls.lookup tid = some c)
    {p : GetPhase} (hp : p.leading = true) :
    Leads (s.calls.insert tid { c with phase := p }) leader key verify := by
  by_cases hSame : leader = tid
  · subst hSame
    obtain ⟨q, -, hLeader⟩ := h
    rw [hCall] at hLeader
    cases hLeader
    exact ⟨p, hp, lookup_insert _⟩
  · exact h.insert_ne hSame

namespace Coalesced

theorem init (d : DHT) : (GetState.init d).Coalesced cr where
  listed k leader h := by cases h
  waiting tid key verify leader h := by cases h
  once r hr := by cases hr
  closed leader result h := by cases h
  holds tid c h := by cases h
  sound r hr := by cases hr
  joined r hr := by cases hr

variable (h : s.Coalesced cr)

include h

/-- A new call comes in. It starts a lookup, or waits for one that is under way
for the same key and mode, and if it changes the entries it adds its own. -/
theorem enter (hNew : tid ∉ s.calls) (hFresh : ∀ r ∈ s.returned, r.tid ≠ tid)
    {entries : GoMap GoString Nat}
    (hPhase : c.phase = .inner .gate ∨ ∃ leader, c.phase = .wait leader ∧
      Leads s.calls leader c.key c.verify)
    (hEntries : ∀ k l, entries.lookup k = some l →
      s.inflightGet.lookup k = some l ∨ (l = tid ∧ c.phase = .inner .gate ∧
      cacheKey c.key c.verify = k)) :
    { s with calls := s.calls.insert tid c, inflightGet := entries }.Coalesced cr where
  __ := h
  listed k l hk := by
    rcases hEntries k l hk with hOld | ⟨rfl, hGate, hKey⟩
    · obtain ⟨key', verify', p, hCall, hKey⟩ := h.listed k l hOld
      have hNe : l ≠ tid := fun hEq => hNew (hEq ▸ mem_of_lookup_eq_some hCall)
      exact ⟨key', verify', p, by rw [lookup_insert_of_ne _ hNe, hCall], hKey⟩
    · refine ⟨c.key, c.verify, .gate, ?_, hKey⟩
      rw [← hGate]
      exact lookup_insert _
  waiting t key' verify' l ht := by
    have hOld : Leads s.calls l key' verify' ∨ ∃ result, s.Published l key' verify' result := by
      rcases lookup_insert_cases ht with ⟨-, rfl⟩ | ⟨-, hOld⟩
      · rcases hPhase with hGate | ⟨leader, hWait, hLeads⟩
        · cases hGate
        · cases hWait
          exact .inl hLeads
      · exact h.waiting t key' verify' l hOld
    refine hOld.imp_left fun hLeads => ?_
    exact hLeads.insert_ne fun hEq => hNew (hEq ▸ hLeads.mem)
  once r hr hMem := by
    rcases mem_insert.mp hMem with hEq | hOld
    · exact hFresh r hr hEq
    · exact h.once r hr hOld
  holds t c' hc := by
    rcases lookup_insert_cases hc with ⟨-, rfl⟩ | ⟨-, hOld⟩
    · rcases hPhase with hGate | ⟨leader, hWait, -⟩
      · rw [hGate]
        trivial
      · rw [hWait]
        trivial
    · exact h.holds t c' hOld

/-- A call joins the lookup that is listed. -/
theorem join (hNew : tid ∉ s.calls) (hFresh : ∀ r ∈ s.returned, r.tid ≠ tid)
    (hListed : s.inflightGet.lookup (cacheKey key verify) = some leader) :
    { s with calls := s.calls.insert tid ⟨key, verify, .wait leader⟩ }.Coalesced cr := by
  -- the entry that was found names a call for this very key and mode
  obtain ⟨key', verify', p, hCall, hKey⟩ := h.listed _ _ hListed
  obtain ⟨rfl, rfl⟩ := cacheKey_injective hKey
  exact h.enter hNew hFresh (.inr ⟨leader, rfl, .inner p, rfl, hCall⟩) fun _ _ => .inl

/-- A call that finds no entry lists itself. -/
theorem lead (hNew : tid ∉ s.calls) (hFresh : ∀ r ∈ s.returned, r.tid ≠ tid) :
    { s with
      calls := s.calls.insert tid ⟨key, verify, .inner .gate⟩
      inflightGet := s.inflightGet.insert (cacheKey key verify) tid }.Coalesced cr := by
  refine h.enter hNew hFresh (.inl rfl) fun k l hk => ?_
  rcases lookup_insert_cases hk with ⟨rfl, rfl⟩ | ⟨-, hOld⟩
  · exact .inr ⟨rfl, rfl, rfl⟩
  · exact .inl hOld

/-- A leader goes on. What it must bring along: the entries that are left name
calls that have not ended their lookup, and what it holds has passed the
check. -/
theorem advance (hCall : s.calls.lookup tid = some c) {p : GetPhase} (hp : p.leading = true)
    (hSound : p.Sound cr c.key c.verify) (d : DHT) {entries : GoMap GoString Nat}
    (hListed : ∀ k leader, entries.lookup k = some leader →
      ∃ key verify q, (s.calls.insert tid { c with phase := p }).lookup leader = some ⟨key,
      verify, .inner q⟩ ∧ cacheKey key verify = k) :
    { s.advance tid c p with dht := d, inflightGet := entries }.Coalesced cr where
  __ := h
  listed := hListed
  waiting t key' verify' l ht := by
    rcases lookup_insert_cases ht with ⟨-, hEq⟩ | ⟨-, hOld⟩
    · cases hEq
      cases hp
    · refine (h.waiting t key' verify' l hOld).imp_left fun hLeads => ?_
      exact hLeads.advance hCall hp
  once r hr hMem := by
    rcases mem_insert.mp hMem with hEq | hOld
    · exact h.once r hr (hEq ▸ mem_of_lookup_eq_some hCall)
    · exact h.once r hr hOld
  holds t c' hc := by
    rcases lookup_insert_cases hc with ⟨-, rfl⟩ | ⟨-, hOld⟩
    · exact hSound
    · exact h.holds t c' hOld

/-- A part of `getInner`. -/
theorem inner {p : InnerPhase} (hCall : s.calls.lookup tid = some ⟨key, verify, .inner p⟩)
    (out : Outside) :
    { s.advance tid ⟨key, verify, .inner p⟩
        (.inner (s.dht.innerStep cr key verify out p).2) with
      dht := (s.dht.innerStep cr key verify out p).1 }.Coalesced cr := by
  have hSound : p.Sound cr key verify := h.holds tid _ hCall
  have hNext := DHT.innerStep_sound hSound s.dht out
  refine h.advance (p := .inner _) hCall rfl hNext _ ?_
  intro k leader hk
  obtain ⟨key', verify', q, hLeader, hKey⟩ := h.listed k leader hk
  by_cases hSame : leader = tid
  · subst hSame
    rw [hCall] at hLeader
    cases hLeader
    exact ⟨key, verify, _, lookup_insert _, hKey⟩
  · exact ⟨key', verify', q, by rw [lookup_insert_of_ne _ hSame, hLeader], hKey⟩

/-- The leader takes its entry off the map. -/
theorem unlist (hCall : s.calls.lookup tid = some ⟨key, verify, .inner (.ended result)⟩) :
    { s.advance tid ⟨key, verify, .inner (.ended result)⟩ (.close result) with
      inflightGet := s.inflightGet.erase (cacheKey key verify) }.Coalesced cr := by
  have hSound : cr.SoundResult key verify result := h.holds tid _ hCall
  refine h.advance (p := .close result) hCall rfl hSound s.dht ?_
  intro k leader hk
  obtain ⟨hNe, hOld⟩ := lookup_of_lookup_erase hk
  obtain ⟨key', verify', q, hLeader, hKey⟩ := h.listed k leader hOld
  have hOther : leader ≠ tid := by
    -- its own entry is the one that is gone
    rintro rfl
    rw [hCall] at hLeader
    cases hLeader
    exact hNe hKey.symm
  exact ⟨key', verify', q, by rw [lookup_insert_of_ne _ hOther, hLeader], hKey⟩

/-- A call returns. What it must bring along: readable results stay readable,
a leader's becomes so, and the result is the one of the call it waited on. -/
theorem finish (hCall : s.calls.lookup tid = some c) (hOut : ∀ p, c.phase ≠ .inner p)
    {joined : Option Nat} {done : GoMap Nat (Except DhtError Bytes)}
    (hKeep : ∀ l r, l ∉ s.calls → s.done.lookup l = some r → done.lookup l = some r)
    (hNew : ∀ l r, done.lookup l = some r → l = tid ∨ s.done.lookup l = some r)
    (hOwn : c.phase.leading = true → joined = none ∧ done.lookup tid = some result)
    (hSound : cr.SoundResult c.key c.verify result)
    (hJoined : ∀ l, joined = some l → ⟨l, c.key, c.verify, none, result⟩ ∈ s.returned) :
    { s.finish tid c joined result with done }.Coalesced cr where
  listed k l hk := by
    obtain ⟨key', verify', p, hLeader, hKey⟩ := h.listed k l hk
    have hNe : l ≠ tid := by
      rintro rfl
      rw [hCall] at hLeader
      cases hLeader
      exact hOut p rfl
    exact ⟨key', verify', p, by rw [← hLeader]; exact lookup_erase_ne hNe, hKey⟩
  waiting t key' verify' l ht := by
    obtain ⟨-, hOld⟩ := lookup_of_lookup_erase ht
    rcases h.waiting t key' verify' l hOld with ⟨p, hp, hLeader⟩ | ⟨result', hResult, hMem⟩
    · by_cases hSame : l = tid
      · -- it is the leader that returns
        subst hSame
        rw [hCall] at hLeader
        cases hLeader
        obtain ⟨rfl, hRead⟩ := hOwn hp
        exact .inr ⟨result, hRead, mem_cons_self⟩
      · exact .inl ⟨p, hp, by rw [← hLeader]; exact lookup_erase_ne hSame⟩
    · have hKept : done.lookup l = some result' := hKeep l result' (h.once _ hMem) hResult
      exact .inr ⟨result', hKept, mem_cons_of_mem _ hMem⟩
  once r hr hMem := by
    obtain ⟨hNe, hOld⟩ := mem_erase.mp hMem
    rcases mem_cons.mp hr with rfl | hr
    · exact hNe rfl
    · exact h.once r hr hOld
  closed l result' hl := by
    rcases hNew l result' hl with rfl | hOld
    · exact ⟨_, mem_cons_self, rfl⟩
    · obtain ⟨r, hr, hTid⟩ := h.closed l result' hOld
      exact ⟨r, mem_cons_of_mem _ hr, hTid⟩
  holds t c hc := h.holds t c (lookup_of_lookup_erase hc).2
  sound r hr := by
    rcases mem_cons.mp hr with rfl | hr
    · exact hSound
    · exact h.sound r hr
  joined r hr l hl := by
    rcases mem_cons.mp hr with rfl | hr
    · exact mem_cons_of_mem _ (hJoined l hl)
    · exact mem_cons_of_mem _ (h.joined r hr l hl)

/-- The leader closes the channel and returns. -/
theorem close (hCall : s.calls.lookup tid = some ⟨key, verify, .close result⟩) :
    { s.finish tid ⟨key, verify, .close result⟩ none result with
      done := s.done.insert tid result }.Coalesced cr := by
  refine h.finish hCall nofun ?_ ?_ (fun _ => ⟨rfl, lookup_insert _⟩) (h.holds tid _ hCall)
    nofun
  · intro l r hl hOld
    have hNe : l ≠ tid := fun hEq => hl (hEq ▸ mem_of_lookup_eq_some hCall)
    rw [lookup_insert_of_ne _ hNe, hOld]
  · intro l r hl
    exact (lookup_insert_cases hl).imp (fun hNew => hNew.1) fun hOld => hOld.2

/-- Who waits reads the result of its leader and returns it. -/
theorem wake (hCall : s.calls.lookup tid = some ⟨key, verify, .wait leader⟩)
    (hDone : s.done.lookup leader = some result) :
    (s.finish tid ⟨key, verify, .wait leader⟩ (some leader) result).Coalesced cr := by
  have hLeader : ⟨leader, key, verify, none, result⟩ ∈ s.returned := by
    rcases h.waiting tid key verify leader hCall with hLeads | ⟨result', hResult, hMem⟩
    · -- a leader whose result can be read is no longer at work
      obtain ⟨r, hr, rfl⟩ := h.closed leader result hDone
      exact absurd hLeads.mem (h.once r hr)
    · rw [hDone] at hResult
      cases hResult
      exact hMem
  have hSound : cr.SoundResult key verify result := h.sound _ hLeader
  refine h.finish hCall nofun (fun _ _ _ hOld => hOld) (fun _ _ hOld => .inr hOld) nofun hSound ?_
  rintro l ⟨⟩
  exact hLeader

/-- **Every step keeps the invariant.** -/
theorem step {a : GetAction} (hStep : stepOf (next cr) s a s') : s'.Coalesced cr := by
  have hStep : s.next cr a = some s' := hStep
  cases a with
  | get tid key verify =>
    unfold next at hStep
    dsimp only at hStep
    split at hStep
    · cases hStep
    rename_i hFree
    obtain ⟨hNew, hAny⟩ := not_or.mp hFree
    have hFresh : ∀ r ∈ s.returned, r.tid ≠ tid := by
      intro r hr hEq
      exact hAny (any_eq_true.mpr ⟨r, hr, by simpa using hEq⟩)
    split at hStep
    · rename_i leader hListed
      cases hStep
      exact h.join hNew hFresh hListed
    · cases hStep
      exact h.lead hNew hFresh
  | others d =>
    cases hStep
    exact { h with }
  | step tid out =>
    unfold next at hStep
    dsimp only at hStep
    split at hStep
    · cases hStep
    rename_i c hCall
    obtain ⟨key, verify, phase⟩ := c
    unfold advanceCall at hStep
    split at hStep
    · rename_i result hPhase
      cases hPhase
      cases hStep
      exact h.unlist hCall
    · rename_i p hPhase
      cases hPhase
      cases hStep
      exact h.inner hCall out
    · rename_i result hPhase
      cases hPhase
      cases hStep
      exact h.close hCall
    · rename_i leader hPhase
      cases hPhase
      obtain ⟨result, hDone, rfl⟩ := Option.map_eq_some_iff.mp hStep
      exact h.wake hCall hDone

/-- **What a call adds to the store** hashes to its key. -/
theorem stored {out : Outside} (hStep : s.next cr (.step tid out) = some s') {x : GoString}
    {v : Bytes} (hEntry : s'.dht.store.data.lookup x = some v) :
    s.dht.store.data.lookup x = some v ∨ ∃ c, s.calls.lookup tid = some c ∧ x = c.key.hex ∧
      cr.sha256 v = c.key := by
  obtain ⟨c, hCall, ⟨p, hPhase, hDht, -⟩ | ⟨hDht, -⟩⟩ := next_step hStep
  · rw [hDht] at hEntry
    rcases DHT.innerStep_stored hEntry with hOld | ⟨rfl, hKey⟩
    · exact .inl hOld
    have hSound := h.holds tid c hCall
    rw [hPhase] at hSound
    obtain ⟨hVerify, hGood⟩ := hSound
    rw [hVerify] at hGood
    exact .inr ⟨c, hCall, hKey, Crypto.acceptable_verified.mp hGood⟩
  · exact .inl (hDht ▸ hEntry)

end Coalesced

end GetState

/-- **Coalesced lookups are sound.** Whatever calls of `Get` and
`GetUnverified` run interleaved on a node, whatever the network replies and
whatever else happens to the node between any two of their parts:

* what a verified call returns hashes to its key, whether it made the lookup
  or joined one;
* so does every value that the next part of a call adds to the store, where it
  stands under the key of the call;
* a call that joined has returned what its leader returned, and the leader
  had asked for the same key in the same mode; one that still waits has such a
  leader at work, or its result can be read;
* once no call is running, nothing is listed in `inflightGet`. -/
theorem get_sound_coalesced (cr : Crypto) (d : DHT) {as : List GetAction} {s : GetState}
    (hRun : Exec (stepOf (GetState.next cr)) (GetState.init d) as s) :
    (∀ r ∈ s.returned, r.verify = true → ∀ v, r.result = .ok v → cr.sha256 v = r.key) ∧
    (∀ tid out s', s.next cr (.step tid out) = some s' → ∀ x v,
      s'.dht.store.data.lookup x = some v → s.dht.store.data.lookup x = some v ∨
        ∃ c, s.calls.lookup tid = some c ∧ x = c.key.hex ∧ cr.sha256 v = c.key) ∧
    (∀ r ∈ s.returned, ∀ leader, r.joined = some leader →
      ⟨leader, r.key, r.verify, none, r.result⟩ ∈ s.returned) ∧
    (∀ tid key verify leader, s.calls.lookup tid = some ⟨key, verify, .wait leader⟩ →
      GetState.Leads s.calls leader key verify ∨
        ∃ result, s.Published leader key verify result) ∧
    (s.calls = ∅ → s.inflightGet = ∅) := by
  have hInv : s.Coalesced cr :=
    hRun.invariant (I := GetState.Coalesced cr) (.init d) fun h hStep => h.step hStep
  refine ⟨?_, fun _ _ _ hStep _ _ => hInv.stored hStep, hInv.joined, hInv.waiting, ?_⟩
  · intro r hr hVerify v hOk
    have hGood := hInv.sound r hr v hOk
    rw [hVerify] at hGood
    exact Crypto.acceptable_verified.mp hGood
  · intro hNone
    apply ext_lookup
    intro k
    cases hk : s.inflightGet.lookup k with
    | none => rfl
    | some leader =>
      obtain ⟨key, verify, p, hCall, -⟩ := hInv.listed k leader hk
      rw [hNone] at hCall
      cases hCall

/-- A node that knows one contact, which has the value. -/
def answeringNet : Outside := ⟨1, [], steadyNet fun _ => .value [9]⟩

/-- Two verified calls for one key; the second one joins. -/
def joinedRun : List GetAction :=
  [.get 0 (fill 9) true, .step 0 answeringNet, .get 1 (fill 9) true] ++
    List.replicate 6 (.step 0 answeringNet) ++ [.step 1 answeringNet]

/-- Both calls return the value, and it is in the store. -/
theorem get_sound_joinedRun :
    ∃ s, Exec (stepOf (GetState.next firstByte)) (GetState.init (nodeKnowing [contactOf 4]))
        joinedRun s ∧
      s.returned = [⟨1, fill 9, true, some 0, .ok [9]⟩,
        ⟨0, fill 9, true, none, .ok [9]⟩] ∧
      s.dht.store.data.lookup (fill 9).hex = some [9] ∧
      (∀ r ∈ s.returned, r.verify = true → ∀ v, r.result = .ok v → firstByte.sha256 v = r.key) ∧
      s.inflightGet = ∅ := by
  refine Exec.exists_of_runFrom (p := fun s =>
    s.returned = [⟨1, fill 9, true, some 0, .ok [9]⟩,
      ⟨0, fill 9, true, none, .ok [9]⟩] ∧
    s.dht.store.data.lookup (fill 9).hex = some [9] ∧ s.calls.keys = ∅)
    (by decide +kernel) ?_
  rintro s hRun ⟨hReturned, hStored, hKeys⟩
  obtain ⟨hSound, -, -, -, hEmpty⟩ := get_sound_coalesced firstByte _ hRun
  refine ⟨hReturned, hStored, hSound, hEmpty ?_⟩
  apply ext_lookup
  intro tid
  have hNone : tid ∉ s.calls := by
    rw [← Finmap.mem_keys, hKeys]
    exact Finset.notMem_empty tid
  rw [lookup_eq_none.mpr hNone, lookup_empty]

end AltNet
