import AltNet.Dht.Id
import AltNet.Lib.Pool
import AltNet.Lib.Trace
import AltNet.Peer.Conn

/-!
# AltNet — the cap on connections (`core/peer/peer.go`)

`Connect`, `handleIncoming` and `handleIncomingFromRelay` all begin with
`atConnectionLimit` and, when that lets them pass, go through a handshake
before they call `registerConn`. The check and the registration are two
sections of the lock with the handshake between them, and `registerConn` does
not check again: two calls that both pass while one place is left both
register, `two_calls_exceed_cap`.

Any number of calls run side by side here. A connection is named by the index
of the call that made it; `ids i` is the identity that the handshake of call
`i` verifies, so two calls may be with the same peer or with different ones.

Main results:

* `ConnPool.load_step` — of all steps only a check that is passed adds to the
  connections that are registered or on their way;
* `connection_cap_window` — the cap holds all along a run in which a call passes
  the check only while no other is on its way from the check to `registerConn`;
  with up to `k` calls on their way, there are at most `k - 1` connections too
  many.
-/

namespace AltNet

open List ConnTable Option

/-- The calls that make a connection, with the address each has at hand. -/
inductive ConnEntry where
  | connect (address : GoString)
  | incoming (addr : GoString)
  | fromRelay (relayAddr : GoString)
  deriving DecidableEq

/-- The address that the connection is registered under. A tunnel is known by
the relay and the peer that the handshake has verified. -/
def ConnEntry.address (remoteID : GoString) : ConnEntry → GoString
  | .connect address => address
  | .incoming addr => addr
  | .fromRelay relayAddr => "relay://".toList ++ relayAddr ++ "/".toList ++ remoteID

/-- Where a call stands: before `atConnectionLimit`, before `dialAddress`,
before the handshake, before `registerConn`, before the hello, in the read
loop, and at its end. -/
inductive ConnPhase where
  | arrived
  | admitted
  | opened
  | verified
  | registered
  | reading
  | ended
  deriving DecidableEq

/-- What follows the check: an incoming connection is open already. -/
def ConnEntry.admitted : ConnEntry → ConnPhase
  | .connect _ => .admitted
  | .incoming _ | .fromRelay _ => .opened

/-- Between the check and `registerConn`. -/
def ConnPhase.inFlight : ConnPhase → Bool
  | .admitted | .opened | .verified => true
  | .arrived | .registered | .reading | .ended => false

structure ConnCall where
  entry : ConnEntry
  phase : ConnPhase
  deriving DecidableEq

structure ConnPool where
  table : ConnTable Nat
  calls : List ConnCall

/-- The steps of the calls; `ok` says whether the network lets one succeed. -/
inductive PoolAction where
  | call (entry : ConnEntry)
  | check (i : Nat)
  | dialAddress (i : Nat) (ok : Bool)
  | handshake (i : Nat) (ok : Bool)
  | registerConn (i : Nat)
  | hello (i : Nat) (ok : Bool)
  | disconnect (i : Nat)
  | addPeerAddress (peerID addr : GoString)
  deriving DecidableEq

/-- `atConnectionLimit`. -/
def ConnTable.atConnectionLimit {κ : Type} (t : ConnTable κ) (maxConnections : Int) : Bool :=
  decide (0 < maxConnections) && decide (maxConnections ≤ t.peersByID.len)

namespace ConnPool

/-- A peer without connections; `ids i` is who call `i` reaches. -/
def init (ids : Nat → NodeID) : ConnPool where
  table := new fun i => (ids i).hex
  calls := []

/-- The call `i`, if it stands at `p`. -/
def callAt (s : ConnPool) (i : Nat) (p : ConnPhase) : Option ConnCall :=
  s.calls[i]?.filter fun c => c.phase = p

/-- Call `i`, which is `c`, moves on. -/
def move (s : ConnPool) (i : Nat) (c : ConnCall) (p : ConnPhase) : ConnPool :=
  { s with calls := s.calls.set i { c with phase := p } }

/-- Call `i` registers its connection, or finds it to be a duplicate and
closes it. -/
def register (s : ConnPool) (i : Nat) (c : ConnCall) : ConnPool :=
  let out := s.table.registerConn i (c.entry.address (s.table.remoteID i))
  { s.move i c (if out.2.isSome then .ended else .registered) with table := out.1 }

/-- Call `i` takes its connection out of the maps. -/
def drop (s : ConnPool) (i : Nat) (c : ConnCall) : ConnPool :=
  { s.move i c .ended with table := s.table.removeConn i }

/-- The next state; `none` when the call is not at this step. -/
def next (maxConnections : Int) (s : ConnPool) : PoolAction → Option ConnPool
  | .call entry => some { s with calls := s.calls ++ [⟨entry, .arrived⟩] }
  | .check i => (s.callAt i .arrived).map fun c =>
      s.move i c (if s.table.atConnectionLimit maxConnections then .ended else c.entry.admitted)
  | .dialAddress i ok => (s.callAt i .admitted).map fun c =>
      s.move i c (if ok then .opened else .ended)
  | .handshake i ok => (s.callAt i .opened).map fun c =>
      s.move i c (if ok then .verified else .ended)
  | .registerConn i => (s.callAt i .verified).map fun c => s.register i c
  | .hello i ok => (s.callAt i .registered).map fun c =>
      if ok then s.move i c .reading else s.drop i c
  | .disconnect i => (s.callAt i .reading).map fun c => s.drop i c
  | .addPeerAddress peerID addr =>
      some { s with table := (s.table.addPeerAddress peerID addr).1 }

/-- How many calls have passed the check and have not come to `registerConn`. -/
def inFlight (s : ConnPool) : Nat := s.calls.countP fun c => c.phase.inFlight

/-- A call passes the check only while fewer than `k` are on their way. -/
def Windowed (k : Nat) (maxConnections : Int) (s : ConnPool) : PoolAction → Prop
  | .check _ => s.table.atConnectionLimit maxConnections = false → s.inFlight < k
  | _ => True

instance (k : Nat) (maxConnections : Int) (s : ConnPool) :
    (act : PoolAction) → Decidable (s.Windowed k maxConnections act)
  | .check _ => inferInstanceAs (Decidable (_ → _))
  | .call _ | .dialAddress _ _ | .handshake _ _ | .registerConn _ | .hello _ _ | .disconnect _
  | .addPeerAddress _ _ => .isTrue trivial

end ConnPool

open ConnPool

/-! ## The number of entries in `peersByID` -/

namespace ConnTable

variable {κ : Type} [DecidableEq κ] {t : ConnTable κ} {pc : κ}

/-- A registration adds an entry exactly when the peer had none. -/
theorem registerConn_len (hID : t.remoteID pc ≠ []) (addr : GoString) :
    (t.registerConn pc addr).1.peersByID.len =
      if t.remoteID pc ∈ t.peersByID then t.peersByID.len else t.peersByID.len + 1 := by
  unfold registerConn
  rw [if_pos hID]
  cases hCur : t.peersByID.lookup (t.remoteID pc) with
  | none =>
    have hNew : t.remoteID pc ∉ t.peersByID := Finmap.lookup_eq_none.mp hCur
    rw [if_neg hNew]
    exact GoMap.len_insert_of_notMem hNew
  | some cur =>
    have hOld : t.remoteID pc ∈ t.peersByID := Finmap.mem_iff.mpr ⟨cur, hCur⟩
    rw [if_pos hOld]
    dsimp only
    split
    · rfl
    · exact GoMap.len_insert_of_mem hOld

theorem removeConn_len_le (t : ConnTable κ) (pc : κ) :
    (t.removeConn pc).peersByID.len ≤ t.peersByID.len := by
  unfold removeConn
  dsimp only
  split
  · exact GoMap.len_erase_le _ _
  · exact le_rfl

end ConnTable

/-! ## What a step can do -/

namespace ConnPool

theorem callAt_eq_some {s : ConnPool} {i : Nat} {c : ConnCall} {p : ConnPhase}
    (h : s.callAt i p = some c) : s.calls[i]? = some c ∧ c.phase = p := by
  obtain ⟨hCall, hPhase⟩ := filter_eq_some_iff.mp h
  exact ⟨hCall, by simpa using hPhase⟩

variable {n : Int} {s t : ConnPool} {act : PoolAction} {i : Nat} {c : ConnCall} {p : ConnPhase}

/-- A call that stood at `p` moves on. -/
theorem inFlight_move (h : s.callAt i p = some c) (q : ConnPhase) :
    (s.move i c q).inFlight + (if p.inFlight then 1 else 0) =
      s.inFlight + if q.inFlight then 1 else 0 := by
  obtain ⟨hCall, rfl⟩ := callAt_eq_some h
  exact countP_pool_set (f := fun c => c.phase.inFlight) hCall

theorem inFlight_admitted (entry : ConnEntry) : entry.admitted.inFlight = true := by
  cases entry <;> rfl

/-- Who is at the other end of a connection does not change. -/
theorem next_remoteID (h : s.next n act = some t) : t.table.remoteID = s.table.remoteID := by
  cases act with
  | call | addPeerAddress =>
    cases h
    first | rfl | exact addPeerAddress_remoteID _ _ _
  | registerConn i =>
    obtain ⟨c, -, rfl⟩ := map_eq_some_iff.mp h
    exact registerConn_remoteID
  | hello i ok =>
    obtain ⟨c, -, rfl⟩ := map_eq_some_iff.mp h
    cases ok <;> rfl
  | check | dialAddress | handshake | disconnect =>
    obtain ⟨c, -, rfl⟩ := map_eq_some_iff.mp h
    rfl

/-- Every connection is with an authenticated peer. -/
def Named (s : ConnPool) : Prop := ∀ i, s.table.remoteID i ≠ []

/-- The connections that are registered or on their way. -/
def load (s : ConnPool) : Nat := s.table.peersByID.len + s.inFlight

/-- **One step.** Only a call that passes the check adds to the load. -/
theorem load_step (hNamed : s.Named) (h : s.next n act = some t) :
    t.load ≤ s.load ∨ ∃ i, act = .check i ∧ s.table.atConnectionLimit n = false ∧
      t.load = s.load + 1 := by
  unfold load
  cases act with
  | call entry =>
    left
    cases h
    simp [inFlight, ConnPhase.inFlight]
  | check i =>
    obtain ⟨c, hCall, rfl⟩ := map_eq_some_iff.mp h
    have hMove := inFlight_move hCall
    cases hLimit : s.table.atConnectionLimit n with
    | true => exact .inl (Nat.add_le_add_left (hMove .ended).le _)
    | false =>
      have hPassed := hMove c.entry.admitted
      rw [inFlight_admitted] at hPassed
      exact .inr ⟨i, rfl, rfl, congrArg (s.table.peersByID.len + ·) hPassed⟩
  | dialAddress i ok | handshake i ok =>
    left
    obtain ⟨c, hCall, rfl⟩ := map_eq_some_iff.mp h
    refine Nat.add_le_add_left ?_ _
    cases ok with
    | false => exact (Nat.le_succ _).trans (inFlight_move hCall .ended).le
    | true => exact Nat.le_of_add_le_add_right (inFlight_move hCall _).le
  | registerConn i =>
    left
    obtain ⟨c, hCall, rfl⟩ := map_eq_some_iff.mp h
    -- the call is not on its way any more, whatever becomes of its connection
    have hDone : (s.register i c).inFlight + 1 = s.inFlight := by
      have hMove := inFlight_move hCall
        (if (s.table.registerConn i (c.entry.address (s.table.remoteID i))).2.isSome
          then .ended else .registered)
      rw [apply_ite ConnPhase.inFlight] at hMove
      simp only [ConnPhase.inFlight, if_true, Bool.false_eq_true, if_false, ite_self] at hMove
      exact hMove
    have hLen := registerConn_len (hNamed i) (c.entry.address (s.table.remoteID i))
    have hMore : (s.register i c).table.peersByID.len ≤ s.table.peersByID.len + 1 := by
      refine hLen.le.trans ?_
      split <;> omega
    omega
  | hello i ok =>
    left
    obtain ⟨c, hCall, rfl⟩ := map_eq_some_iff.mp h
    cases ok with
    | true => exact Nat.add_le_add_left (inFlight_move hCall .reading).le _
    | false =>
      exact Nat.add_le_add (removeConn_len_le _ _) (inFlight_move hCall .ended).le
  | disconnect i =>
    left
    obtain ⟨c, hCall, rfl⟩ := map_eq_some_iff.mp h
    exact Nat.add_le_add (removeConn_len_le _ _) (inFlight_move hCall .ended).le
  | addPeerAddress peerID addr =>
    left
    cases h
    refine Nat.add_le_add_right (le_of_eq ?_) _
    show (s.table.addPeerAddress peerID addr).1.peersByID.len = _
    rw [addPeerAddress_byID]

theorem atConnectionLimit_eq_false (hCap : 0 < n) :
    s.table.atConnectionLimit n = false ↔ (s.table.peersByID.len : Int) < n := by
  simp [atConnectionLimit, hCap]

/-- What the check and the window leave room for. -/
structure Bounded (k : Nat) (n : Int) (s : ConnPool) : Prop where
  named : s.Named
  load : (s.load : Int) < n + k

theorem Bounded.init {k : Nat} (hCap : 0 < n) (ids : Nat → NodeID) :
    (init ids).Bounded k n where
  named i := (ids i).hex_ne_nil
  load := by
    show ((0 : Nat) : Int) < n + k
    omega

theorem Bounded.step {k : Nat} (hCap : 0 < n) (h : s.Bounded k n)
    (hStep : s.next n act = some t) (hWindow : s.Windowed k n act) : t.Bounded k n where
  named := by
    unfold Named
    rw [next_remoteID hStep]
    exact h.named
  load := by
    have hBefore := h.load
    rcases load_step h.named hStep with hLess | ⟨i, rfl, hRoom, hMore⟩
    · omega
    · -- the check has seen fewer than `n` registered
      have hPass : s.inFlight < k := hWindow hRoom
      have hLen := (atConnectionLimit_eq_false hCap).mp hRoom
      have hLoad : s.load = s.table.peersByID.len + s.inFlight := rfl
      omega

end ConnPool

/-- **The cap on connections.** Let a call pass the check only while fewer than
`k` others are between the check and `registerConn`, however all of them are
interleaved otherwise. Then there are never more than `n + k - 1` registered
connections, so with one call at a time the cap `n` holds all along. -/
theorem connection_cap_window {n : Int} (hCap : 0 < n) (k : Nat) (ids : Nat → NodeID)
    {acts : List PoolAction}
    (hWindow : EachStep (stepOf (next n)) (init ids) acts
      (ConnPool.Windowed k n)) :
    Throughout (stepOf (next n)) (init ids) acts
      fun s => (s.table.peersByID.len : Int) ≤ n + k - 1 := by
  intro done t hPre hDone
  have hBound := hWindow.throughout (J := ConnPool.Bounded k n) (.init hCap ids)
    (fun _ _ _ ht hStep hQ => ht.step hCap hStep hQ) done t hPre hDone
  have hLoad := hBound.load
  unfold load at hLoad
  omega

/-- Two peers come in at the same time, each with an identity of its own. -/
def twoIncoming : List PoolAction :=
  [.call (.incoming "192.0.2.1:4000".toList), .call (.incoming "192.0.2.2:4000".toList),
    .check 0, .check 1, .handshake 0 true, .handshake 1 true, .registerConn 0, .registerConn 1]

/-- **The cap is exceeded.** With a cap of one and no connection yet, two
incoming connections of different peers both pass the check, and both are
registered. -/
theorem two_calls_exceed_cap :
    ∃ s, Exec (stepOf (next 1))
        (init fun i => NodeID.fill (UInt8.ofNat i)) twoIncoming s ∧
      NodeID.fill (UInt8.ofNat 0) ≠ NodeID.fill (UInt8.ofNat 1) ∧
      ¬ (s.table.peersByID.len : Int) ≤ 1 := by
  refine Exec.exists_of_runFrom (p := fun s => ¬ (s.table.peersByID.len : Int) ≤ 1)
    (by decide +kernel) ?_
  exact fun s _ hMore => ⟨by decide +kernel, hMore⟩

/-- One peer after the other: the second one is refused. -/
def oneByOne : List PoolAction :=
  [.call (.incoming "192.0.2.1:4000".toList), .check 0, .handshake 0 true, .registerConn 0,
    .call (.connect "192.0.2.2:4000".toList), .check 1, .hello 0 true]

/-- With a cap of one, this run is within it. -/
theorem one_by_one_within_cap :
    ∃ s, Exec (stepOf (next 1))
        (init fun i => NodeID.fill (UInt8.ofNat i)) oneByOne s ∧
      Throughout (stepOf (next 1))
        (init fun i => NodeID.fill (UInt8.ofNat i)) oneByOne
        (fun s => (s.table.peersByID.len : Int) ≤ 1) ∧
      s.table.peersByID.len = 1 ∧ (s.calls.map ConnCall.phase) = [.reading, .ended] := by
  refine Exec.exists_of_eachStep
    (p := fun s => s.table.peersByID.len = 1 ∧ (s.calls.map ConnCall.phase) = [.reading, .ended])
    (next 1) (fun s act => decide (s.Windowed 1 1 act)) stepOf_unique
    (fun hNext hOk => ⟨hNext, of_decide_eq_true hOk⟩) (by decide +kernel) ?_
  exact fun s hExec hEach hEnd =>
    ⟨connection_cap_window (by decide) 1 _ hEach, hEnd⟩

end AltNet
