import AltNet.Lib.Trace
import AltNet.Dht.Id
import AltNet.Peer.Conn

/-!
# AltNet — two peers that dial each other at once (`core/peer/peer.go`)

Peer `a` and peer `b` each run `Connect` towards the other and each accept the
other's dial in `handleIncoming`. Both handshakes succeed, so there are two
connections, and each has an end at each side: four ends, four goroutines.
Every one of them registers its end; if another connection to the same peer is
installed it closes its own, else it sends a hello and reads until the
connection is closed, and then takes it out of the maps.

Each side keeps the connection that *it* registered first. When the two sides
differ in this, either may close what the other keeps, and
`simultaneous_dial_loses_both` is a run that ends with no connection at all.

Main results:

* `DialInv.step` — the connection in `peersByID` is the one whose end is in
  use, and a connection is closed exactly when one of its ends was refused as
  a duplicate;
* `simultaneous_dial_iff` — a run that has ended has left an open connection
  that both sides have registered if and only if no registration of the run
  gave way to a connection that a side had already refused.
-/

namespace AltNet

open Function ConnTable Option

/-- The two peers. -/
inductive Side where
  | a
  | b
  deriving DecidableEq

/-- The other peer. -/
def Side.other : Side → Side
  | .a => .b
  | .b => .a

/-- The two connections: `ab` is dialed by `a`, `ba` by `b`. -/
inductive Link where
  | ab
  | ba
  deriving DecidableEq

/-- Where the goroutine of one end of a connection stands: before
`registerConn`, told by it to drop the connection, done with that, before the
hello, in the read loop, and after `removeConn`. -/
inductive EndPhase where
  | ready
  | duplicate
  | refused
  | registered
  | reading
  | gone
  deriving DecidableEq

/-- The identities of the two peers, and the address under which each side
registers each connection. -/
structure Dial where
  id : Side → NodeID
  addr : Side → Link → GoString

structure DialState where
  table : Side → ConnTable Link
  phase : Side → Link → EndPhase
  closed : Link → Bool

/-- The steps of the goroutine that serves the end of `l` at side `x`. -/
inductive DialAction where
  | register (x : Side) (l : Link)
  | closeDuplicate (x : Side) (l : Link)
  | helloSent (x : Side) (l : Link)
  | helloFailed (x : Side) (l : Link)
  | readFails (x : Side) (l : Link)
  deriving DecidableEq

namespace DialState

/-- Both handshakes are done, nothing is registered yet. -/
def init (d : Dial) : DialState where
  table := fun x => new fun _ => (d.id x.other).hex
  phase := fun _ _ => .ready
  closed := fun _ => false

/-- Move one end to its next phase. -/
def setPhase (s : DialState) (x : Side) (l : Link) (p : EndPhase) : DialState :=
  { s with phase := fun y m => if y = x ∧ m = l then p else s.phase y m }

/-- Replace the connection maps of one side. -/
def setTable (s : DialState) (x : Side) (t : ConnTable Link) : DialState :=
  { s with table := update s.table x t }

/-- What `registerConn` returns at side `x` for its end of `l`. -/
def existing (d : Dial) (s : DialState) (x : Side) (l : Link) : Option Link :=
  ((s.table x).registerConn l (d.addr x l)).2

/-- The connection that side `x` has for the other peer. -/
def current (d : Dial) (s : DialState) (x : Side) : Option Link :=
  (s.table x).peersByID.lookup (d.id x.other).hex

/-- The next state. Closing one end closes the connection; a hello on a closed
connection may still go out into the buffer, or fail; a read fails only on a
closed connection. -/
def next (d : Dial) (s : DialState) : DialAction → Option DialState
  | .register x l =>
    if s.phase x l = .ready then
      some ((s.setTable x ((s.table x).registerConn l (d.addr x l)).1).setPhase x l
        (if (s.existing d x l).isSome then .duplicate else .registered))
    else none
  | .closeDuplicate x l =>
    if s.phase x l = .duplicate then
      some { s.setPhase x l .refused with closed := update s.closed l true }
    else none
  | .helloSent x l =>
    if s.phase x l = .registered then some (s.setPhase x l .reading) else none
  | .helloFailed x l =>
    if s.phase x l = .registered ∧ s.closed l = true then
      some ((s.setTable x ((s.table x).removeConn l)).setPhase x l .gone)
    else none
  | .readFails x l =>
    if s.phase x l = .reading ∧ s.closed l = true then
      some ((s.setTable x ((s.table x).removeConn l)).setPhase x l .gone)
    else none

/-- No step remains. -/
def Finished (d : Dial) (s : DialState) : Prop := ∀ act, s.next d act = none

/-- An open connection is the one both sides have registered. -/
def KeepsConnection (d : Dial) (s : DialState) : Prop :=
  ∃ l, s.closed l = false ∧ ∀ x, s.current d x = some l

/-- Side `x` has found `l` to be a duplicate. -/
def RefusedAt (s : DialState) (x : Side) (l : Link) : Prop :=
  s.phase x l = .duplicate ∨ s.phase x l = .refused

/-- The registration gives way to a connection that some side has already
refused. -/
def Crossed (d : Dial) (s : DialState) : DialAction → Prop
  | .register x l => ∃ cur, s.existing d x l = some cur ∧ ∃ y, s.RefusedAt y cur
  | _ => False

/-! ## One end at a time -/

variable {d : Dial} {s t : DialState} {x y : Side} {l m : Link} {p : EndPhase}

@[simp] theorem setPhase_self : (s.setPhase x l p).phase x l = p := by
  simp [setPhase]

theorem setPhase_other (h : ¬ (y = x ∧ m = l)) :
    (s.setPhase x l p).phase y m = s.phase y m := by
  simp only [setPhase, h, if_false]

@[simp] theorem setPhase_table : (s.setPhase x l p).table = s.table := rfl

@[simp] theorem setTable_phase (u : ConnTable Link) : (s.setTable x u).phase = s.phase := rfl

@[simp] theorem setTable_self (u : ConnTable Link) : (s.setTable x u).table x = u :=
  update_self ..

theorem setTable_other (u : ConnTable Link) (h : y ≠ x) :
    (s.setTable x u).table y = s.table y :=
  update_of_ne h ..

variable {act : DialAction}

/-- **What a step can do.** An end that was ready is registered or found to be
a duplicate; a duplicate is closed; a registered end goes on to read; an end of
a closed connection is removed. -/
theorem next_cases (h : s.next d act = some t) :
    (∃ x l, act = .register x l ∧ s.phase x l = .ready ∧
      t = (s.setTable x ((s.table x).registerConn l (d.addr x l)).1).setPhase x l
        (if (s.existing d x l).isSome then .duplicate else .registered)) ∨
    (∃ x l, act = .closeDuplicate x l ∧ s.phase x l = .duplicate ∧
      t = { s.setPhase x l .refused with closed := update s.closed l true }) ∨
    (∃ x l, act = .helloSent x l ∧ s.phase x l = .registered ∧ t = s.setPhase x l .reading) ∨
    (∃ x l, (act = .helloFailed x l ∨ act = .readFails x l) ∧
      (s.phase x l = .registered ∨ s.phase x l = .reading) ∧ s.closed l = true ∧
      t = (s.setTable x ((s.table x).removeConn l)).setPhase x l .gone) := by
  cases act with
  | register x l =>
    simp only [next] at h
    split at h
    · exact .inl ⟨x, l, rfl, ‹_›, (some.inj h).symm⟩
    · cases h
  | closeDuplicate x l =>
    simp only [next] at h
    split at h
    · exact .inr (.inl ⟨x, l, rfl, ‹_›, (some.inj h).symm⟩)
    · cases h
  | helloSent x l =>
    simp only [next] at h
    split at h
    · exact .inr (.inr (.inl ⟨x, l, rfl, ‹_›, (some.inj h).symm⟩))
    · cases h
  | helloFailed x l =>
    simp only [next] at h
    split at h
    · rename_i hc
      exact .inr (.inr (.inr ⟨x, l, .inl rfl, .inl hc.1, hc.2, (some.inj h).symm⟩))
    · cases h
  | readFails x l =>
    simp only [next] at h
    split at h
    · rename_i hc
      exact .inr (.inr (.inr ⟨x, l, .inr rfl, .inr hc.1, hc.2, (some.inj h).symm⟩))
    · cases h

/-- What is left to do where no step remains: nothing, or to read from an open
connection. -/
theorem Finished.phase (h : s.Finished d) (x : Side) (l : Link) :
    s.phase x l = .refused ∨ s.phase x l = .gone ∨
      (s.phase x l = .reading ∧ s.closed l = false) := by
  have hRegister := h (.register x l)
  have hClose := h (.closeDuplicate x l)
  have hHello := h (.helloSent x l)
  have hRead := h (.readFails x l)
  simp only [next] at hRegister hClose hHello hRead
  cases hPhase : s.phase x l with
  | ready => simp [hPhase] at hRegister
  | duplicate => simp [hPhase] at hClose
  | refused => exact .inl rfl
  | registered => simp [hPhase] at hHello
  | reading =>
    refine .inr (.inr ⟨rfl, ?_⟩)
    simpa [hPhase] using hRead
  | gone => exact .inr (.inl rfl)

theorem finished_of_done (h : ∀ x l, s.phase x l = .refused ∨ s.phase x l = .gone) :
    s.Finished d := by
  intro act
  cases hNext : s.next d act with
  | none => rfl
  | some t =>
    -- every step starts from an end that is not done
    rcases next_cases hNext with ⟨x, l, -, hp, -⟩ | ⟨x, l, -, hp, -⟩ | ⟨x, l, -, hp, -⟩ |
        ⟨x, l, -, hp, -⟩ <;>
      rcases h x l with hDone | hDone <;> simp [hDone] at hp

/-! ## Refusals -/

/-- The step refuses `l` at side `x`. -/
def Refuses (d : Dial) (s : DialState) (act : DialAction) (x : Side) (l : Link) : Prop :=
  act = .register x l ∧ (s.existing d x l).isSome = true

/-- A refusal is never taken back, and only a registration adds one. -/
theorem refusedAt_step (h : s.next d act = some t) (y : Side) (m : Link) :
    t.RefusedAt y m ↔ s.RefusedAt y m ∨ s.Refuses d act y m := by
  unfold RefusedAt Refuses
  rcases next_cases h with ⟨x, l, rfl, hp, rfl⟩ | ⟨x, l, rfl, hp, rfl⟩ | ⟨x, l, rfl, hp, rfl⟩ |
    ⟨x, l, hAct, hp, -, rfl⟩
  · by_cases hEnd : y = x ∧ m = l
    · obtain ⟨rfl, rfl⟩ := hEnd
      rw [setPhase_self, hp]
      cases hExisting : s.existing d y m <;> simp
    · rw [setPhase_other hEnd, setTable_phase]
      have hAct : ¬ (DialAction.register x l = .register y m) := by
        rintro ⟨⟩
        exact hEnd ⟨rfl, rfl⟩
      simp [hAct]
  · show (s.setPhase x l .refused).phase y m = _ ∨ (s.setPhase x l .refused).phase y m = _ ↔ _
    by_cases hEnd : y = x ∧ m = l
    · obtain ⟨rfl, rfl⟩ := hEnd
      rw [setPhase_self, hp]
      simp
    · rw [setPhase_other hEnd]
      simp
  · by_cases hEnd : y = x ∧ m = l
    · obtain ⟨rfl, rfl⟩ := hEnd
      rw [setPhase_self, hp]
      simp
    · rw [setPhase_other hEnd]
      simp
  · have hNot : act ≠ .register y m := by rcases hAct with rfl | rfl <;> simp
    by_cases hEnd : y = x ∧ m = l
    · obtain ⟨rfl, rfl⟩ := hEnd
      rw [setPhase_self]
      rcases hp with hp | hp <;> simp [hp, hNot]
    · rw [setPhase_other hEnd, setTable_phase]
      simp [hNot]

/-- A connection gives way to the other one, never to itself. -/
theorem existing_ne {cur : Link} (h : s.existing d x l = some cur) : cur ≠ l :=
  (registerConn_result.mp h).2.2

/-- Some connection has been refused by no side. -/
def Spared (s : DialState) : Prop := ∃ l, ∀ x, ¬ s.RefusedAt x l

/-- **One step.** As long as some connection is spared, a step keeps it so
exactly when it is not crossed. -/
theorem spared_step_iff (hSpared : s.Spared) (h : s.next d act = some t) :
    t.Spared ↔ ¬ s.Crossed d act := by
  have hStep := refusedAt_step h
  constructor
  · rintro ⟨m, hm⟩ hCrossed
    cases act with
    | register x l =>
      obtain ⟨cur, hCur, y, hy⟩ := hCrossed
      have hl : t.RefusedAt x l := (hStep x l).mpr (.inr ⟨rfl, by rw [hCur]; rfl⟩)
      have hOther : t.RefusedAt y cur := (hStep y cur).mpr (.inl hy)
      have hne := existing_ne hCur
      -- `l` and `cur` are the two connections, and both are refused
      have hBoth : m = l ∨ m = cur := by
        revert hne
        cases m <;> cases l <;> cases cur <;> decide
      rcases hBoth with rfl | rfl
      · exact hm x hl
      · exact hm y hOther
    | closeDuplicate | helloSent | helloFailed | readFails => exact hCrossed
  · intro hNot
    obtain ⟨m, hm⟩ := hSpared
    by_cases hRefuses : ∃ x, s.Refuses d act x m
    · obtain ⟨x, rfl, hSome⟩ := hRefuses
      obtain ⟨cur, hCur⟩ := isSome_iff_exists.mp hSome
      refine ⟨cur, fun y hy => ?_⟩
      rcases (hStep y cur).mp hy with hOld | ⟨hAct, -⟩
      · exact hNot ⟨cur, hCur, y, hOld⟩
      · cases hAct
        exact existing_ne hCur rfl
    · refine ⟨m, fun x hx => ?_⟩
      rcases (hStep x m).mp hx with hOld | hNew
      · exact hm x hOld
      · exact hRefuses ⟨x, hNew⟩

/-- What was spared in the end was spared all along. -/
theorem spared_of_step (h : s.next d act = some t) (hSpared : t.Spared) : s.Spared := by
  obtain ⟨l, hl⟩ := hSpared
  exact ⟨l, fun x hx => hl x ((refusedAt_step h x l).mpr (.inl hx))⟩

end DialState

open DialState

/-! ## The invariant -/

/-- The end is in use: registered, and not yet removed. -/
def EndPhase.inUse : EndPhase → Bool
  | .registered | .reading => true
  | _ => false

/-- What holds in every state of a run. -/
structure DialInv (d : Dial) (s : DialState) : Prop where
  remoteID : ∀ x l, (s.table x).remoteID l = (d.id x.other).hex
  current : ∀ x l, s.current d x = some l ↔ (s.phase x l).inUse = true
  closed : ∀ l, s.closed l = true ↔ ∃ x, s.phase x l = .refused
  gone : ∀ x l, s.phase x l = .gone → s.closed l = true

namespace DialInv

variable {d : Dial} {s t : DialState}

theorem init (d : Dial) : DialInv d (DialState.init d) where
  remoteID := fun _ _ => rfl
  current := by
    intro x l
    simp [DialState.current, DialState.init, new, EndPhase.inUse]
  closed := by
    intro l
    simp [DialState.init]
  gone := by
    intro x l h
    cases h

variable {l : Link} {p : EndPhase} {x : Side}

variable (h : DialInv d s)

include h

theorem existing_iff {cur : Link} :
    s.existing d x l = some cur ↔ s.current d x = some cur ∧ cur ≠ l := by
  have hID := h.remoteID x l
  rw [existing, registerConn_result, hID]
  simp [DialState.current, NodeID.hex_ne_nil]

/-- Moving one end on, without closing anything: it remains to see that the
connection of each side is still the one in use. -/
theorem move (hID : ∀ y m, (t.table y).remoteID m = (s.table y).remoteID m)
    (hPhase : t.phase = (s.setPhase x l p).phase) (hClosed : t.closed = s.closed)
    (hOld : s.phase x l ≠ .refused) (hNew : p ≠ .refused) (hGone : p = .gone → s.closed l = true)
    (hCurrent : ∀ y m, t.current d y = some m ↔ ((s.setPhase x l p).phase y m).inUse = true) :
    DialInv d t where
  remoteID := by
    intro y m
    rw [hID]
    exact h.remoteID y m
  current := by
    intro y m
    rw [hPhase]
    exact hCurrent y m
  closed := by
    intro m
    rw [hClosed, hPhase, h.closed m]
    apply exists_congr
    intro y
    by_cases hEnd : y = x ∧ m = l
    · obtain ⟨rfl, rfl⟩ := hEnd
      rw [setPhase_self]
      exact iff_of_false hOld hNew
    · rw [setPhase_other hEnd]
  gone := by
    intro y m hp
    rw [hPhase] at hp
    rw [hClosed]
    by_cases hEnd : y = x ∧ m = l
    · obtain ⟨rfl, rfl⟩ := hEnd
      rw [setPhase_self] at hp
      exact hGone hp
    · rw [setPhase_other hEnd] at hp
      exact h.gone y m hp

/-- At the side that does not move, the connection in use stays. -/
theorem current_elsewhere {y : Side} {m : Link} (u : ConnTable Link) (hy : y ≠ x) :
    ((s.setTable x u).setPhase x l p).current d y = some m ↔
      ((s.setPhase x l p).phase y m).inUse = true := by
  rw [setPhase_other (fun hEnd => hy hEnd.1), DialState.current, setPhase_table,
    setTable_other _ hy]
  exact h.current y m

/-- A phase that is in use exactly when the old one was. -/
theorem current_setPhase (hSame : (s.phase x l).inUse = p.inUse) (y : Side) (m : Link) :
    s.current d y = some m ↔ ((s.setPhase x l p).phase y m).inUse = true := by
  refine (h.current y m).trans ?_
  by_cases hEnd : y = x ∧ m = l
  · obtain ⟨rfl, rfl⟩ := hEnd
    rw [setPhase_self, hSame]
  · rw [setPhase_other hEnd]

/-- A registration, accepted or not. -/
theorem register (hReady : s.phase x l = .ready) :
    DialInv d ((s.setTable x ((s.table x).registerConn l (d.addr x l)).1).setPhase x l
      (if (s.existing d x l).isSome then .duplicate else .registered)) := by
  have hID : (s.table x).remoteID l = (d.id x.other).hex := h.remoteID x l
  have hNotEmpty : (s.table x).remoteID l ≠ [] := by
    rw [hID]
    exact NodeID.hex_ne_nil _
  refine h.move ?_ rfl rfl (by rw [hReady]; decide) (by split <;> decide) ?_ ?_
  · intro y m
    by_cases hy : y = x
    · subst hy
      rw [setPhase_table, setTable_self, registerConn_remoteID]
    · rw [setPhase_table, setTable_other _ hy]
  · intro hGone
    split at hGone <;> cases hGone
  · intro y m
    by_cases hy : y = x
    · subst hy
      have hNow := registerConn_byID hNotEmpty (d.addr y l) (d.id y.other).hex
      rw [DialState.current, setPhase_table, setTable_self, hNow, hID]
      cases hExisting : s.existing d y l with
      | some cur =>
        -- refused: the entry is the old one, and the end is not in use
        rw [if_neg (fun hNone => by rw [existing, hNone.2] at hExisting; cases hExisting)]
        exact h.current_setPhase (by rw [hReady]; rfl) y m
      | none =>
        -- accepted: the entry is the new one, and no other end was in use
        rw [if_pos ⟨rfl, hExisting⟩]
        by_cases hm : m = l
        · subst hm
          rw [setPhase_self]
          exact iff_of_true rfl rfl
        rw [setPhase_other (fun hEnd => hm hEnd.2), ← h.current y m]
        refine iff_of_false (fun hEq => hm (some.inj hEq).symm) fun hCur => ?_
        rw [h.existing_iff.mpr ⟨hCur, hm⟩] at hExisting
        cases hExisting
    · exact h.current_elsewhere _ hy

/-- The removal of an end of a closed connection. -/
theorem remove (hUse : (s.phase x l).inUse = true) (hClosed : s.closed l = true) :
    DialInv d ((s.setTable x ((s.table x).removeConn l)).setPhase x l .gone) := by
  have hID : (s.table x).remoteID l = (d.id x.other).hex := h.remoteID x l
  have hCur : s.current d x = some l := (h.current x l).mpr hUse
  refine h.move ?_ rfl rfl ?_ (by decide) (fun _ => hClosed) ?_
  · intro y m
    by_cases hy : y = x
    · subst hy
      rw [setPhase_table, setTable_self]
      rfl
    · rw [setPhase_table, setTable_other _ hy]
  · intro hRefused
    rw [hRefused] at hUse
    cases hUse
  · intro y m
    by_cases hy : y = x
    · subst hy
      have hNow : ((s.table y).removeConn l).peersByID.lookup (d.id y.other).hex = none := by
        rw [removeConn_byID (by rw [hID]; exact NodeID.hex_ne_nil _)]
        exact if_pos ⟨hID.symm, hCur⟩
      rw [DialState.current, setPhase_table, setTable_self, hNow]
      by_cases hm : m = l
      · subst hm
        rw [setPhase_self]
        exact iff_of_false (by simp) (by decide)
      · rw [setPhase_other (fun hEnd => hm hEnd.2), ← h.current y m, hCur]
        exact iff_of_false (by simp) fun hEq => hm (some.inj hEq).symm
    · exact h.current_elsewhere _ hy

/-- The hello is out; the end stays in use. -/
theorem helloSent (hPhase : s.phase x l = .registered) : DialInv d (s.setPhase x l .reading) := by
  refine h.move (fun _ _ => rfl) rfl rfl (by rw [hPhase]; decide) (by decide) (by simp) ?_
  exact h.current_setPhase (by rw [hPhase]; rfl)

/-- A duplicate is closed. -/
theorem closeDuplicate (hPhase : s.phase x l = .duplicate) :
    DialInv d { s.setPhase x l .refused with closed := update s.closed l true } where
  remoteID := h.remoteID
  current := h.current_setPhase (by rw [hPhase]; rfl)
  closed := by
    intro m
    show update s.closed l true m = true ↔
      ∃ y, (s.setPhase x l .refused).phase y m = .refused
    by_cases hm : m = l
    · subst hm
      rw [update_self]
      exact iff_of_true rfl ⟨x, setPhase_self⟩
    rw [update_of_ne hm, h.closed m]
    apply exists_congr
    intro y
    rw [setPhase_other (fun hEnd => hm hEnd.2)]
  gone := by
    intro y m hp
    change (s.setPhase x l .refused).phase y m = .gone at hp
    show update s.closed l true m = true
    by_cases hm : m = l
    · subst hm
      exact update_self ..
    · rw [update_of_ne hm]
      rw [setPhase_other (fun hEnd => hm hEnd.2)] at hp
      exact h.gone y m hp

/-- **One step.** Every step keeps the invariant. -/
theorem step {act : DialAction} (hStep : s.next d act = some t) : DialInv d t := by
  rcases next_cases hStep with ⟨x, l, -, hp, rfl⟩ | ⟨x, l, -, hp, rfl⟩ | ⟨x, l, -, hp, rfl⟩ |
    ⟨x, l, -, hp, hClosed, rfl⟩
  · exact h.register hp
  · exact h.closeDuplicate hp
  · exact h.helloSent hp
  · refine h.remove ?_ hClosed
    rcases hp with hp | hp <;> rw [hp] <;> rfl

/-- Where no step remains, a connection is kept exactly when one was spared. -/
theorem keepsConnection_iff (hEnd : s.Finished d) : s.KeepsConnection d ↔ s.Spared := by
  constructor
  · rintro ⟨l, hOpen, hBoth⟩
    refine ⟨l, fun x hRefused => ?_⟩
    have hUse := (h.current x l).mp (hBoth x)
    rcases hRefused with hp | hp <;> rw [hp] at hUse <;> cases hUse
  · rintro ⟨l, hl⟩
    have hOpen : s.closed l = false := by
      rw [← Bool.not_eq_true, h.closed l]
      rintro ⟨x, hx⟩
      exact hl x (.inr hx)
    refine ⟨l, hOpen, fun x => (h.current x l).mpr ?_⟩
    rcases hEnd.phase x l with hp | hp | ⟨hp, -⟩
    · exact absurd (.inr hp) (hl x)
    · rw [h.gone x l hp] at hOpen
      cases hOpen
    · rw [hp]
      rfl

end DialInv

/-! ## Whole runs -/

/-- **When a simultaneous dial keeps a connection.** Where no step remains, an
open connection is registered at both sides if and only if no registration of
the run gave way to a connection that some side had already refused. -/
theorem simultaneous_dial_iff {d : Dial} {as : List DialAction} {s : DialState}
    (hRun : Exec (stepOf (DialState.next d)) (DialState.init d) as s) (hEnd : s.Finished d) :
    s.KeepsConnection d ↔
      EachStep (stepOf (DialState.next d)) (DialState.init d) as
        fun t act => ¬ t.Crossed d act := by
  have hInv : DialInv d s := hRun.invariant (DialInv.init d) fun h hStep => h.step hStep
  have hInit : (DialState.init d).Spared :=
    ⟨.ab, fun x hRefused => by rcases hRefused with h | h <;> cases h⟩
  rw [hInv.keepsConnection_iff hEnd, ← throughout_iff_eachStep hRun hInit stepOf_unique
    fun t act u => spared_step_iff]
  constructor
  · -- what is spared at the end was spared in every state before
    intro hSpared done t hPre hDone
    obtain ⟨rest, rfl⟩ := hPre
    obtain ⟨t', hDone', hRest⟩ := hRun.split
    obtain rfl := hDone.unique stepOf_unique hDone'
    clear hRun hDone hDone' hEnd hInv
    induction hRest with
    | nil => exact hSpared
    | snoc _ hLast ih => exact ih (spared_of_step hLast hSpared)
  · intro hAll
    exact hAll as s (List.prefix_refl as) hRun

/-- Two peers with identifiers of their own. -/
def samplePeers : Dial where
  id := fun x => NodeID.fill (if x = .a then 1 else 2)
  addr := fun x _ => if x = .a then "b".toList else "a".toList

/-- Both sides register the connection that `a` dialed first, and refuse the
other. -/
def agreedDial : List DialAction :=
  [.register .a .ab, .register .b .ab, .helloSent .a .ab, .register .a .ba, .helloSent .b .ab,
   .register .b .ba, .closeDuplicate .a .ba, .closeDuplicate .b .ba]

/-- The theorem on such a run: it has ended with a connection, so none of its
steps is crossed. -/
theorem simultaneous_dial_agreed :
    ∃ s, Exec (stepOf (DialState.next samplePeers)) (DialState.init samplePeers) agreedDial s ∧
      s.Finished samplePeers ∧ s.KeepsConnection samplePeers ∧
      EachStep (stepOf (DialState.next samplePeers)) (DialState.init samplePeers) agreedDial
        fun t act => ¬ t.Crossed samplePeers act := by
  refine Exec.exists_of_runFrom (p := fun s => (s.phase .a .ab = .reading ∧
      s.phase .a .ba = .refused ∧ s.phase .b .ab = .reading ∧ s.phase .b .ba = .refused) ∧
      s.closed .ab = false ∧ s.current samplePeers .a = some .ab ∧
      s.current samplePeers .b = some .ab) (by decide +kernel) ?_
  rintro s hExec ⟨⟨hp1, hp2, hp3, hp4⟩, hOpen, hCurA, hCurB⟩
  have hEnd : s.Finished samplePeers := by
    intro act
    cases act with
    | register x l | closeDuplicate x l | helloSent x l | helloFailed x l | readFails x l =>
      cases x <;> cases l <;> simp [DialState.next, hp1, hp2, hp3, hp4, hOpen]
  have hKeeps : s.KeepsConnection samplePeers := by
    refine ⟨.ab, hOpen, fun x => ?_⟩
    cases x
    · exact hCurA
    · exact hCurB
  exact ⟨hEnd, hKeeps, (simultaneous_dial_iff hExec hEnd).mp hKeeps⟩

/-- Each side registers the connection that it dialed, and refuses and closes
the other one. -/
def crossedDial : List DialAction :=
  [.register .a .ab, .register .b .ba, .register .a .ba, .register .b .ab,
   .helloSent .a .ab, .helloSent .b .ba, .closeDuplicate .a .ba, .closeDuplicate .b .ab,
   .readFails .a .ab, .readFails .b .ba]

/-- In this run both connections are closed, and neither side is left with
one. -/
theorem simultaneous_dial_loses_both :
    ∃ s, Exec (stepOf (DialState.next samplePeers)) (DialState.init samplePeers) crossedDial s ∧
      s.Finished samplePeers ∧ (∀ l, s.closed l = true) ∧
      (∀ x, s.current samplePeers x = none) ∧ ¬ s.KeepsConnection samplePeers := by
  refine Exec.exists_of_runFrom (p := fun s => (s.phase .a .ab = .gone ∧
      s.phase .a .ba = .refused ∧ s.phase .b .ab = .refused ∧ s.phase .b .ba = .gone) ∧
      (s.closed .ab = true ∧ s.closed .ba = true) ∧ s.current samplePeers .a = none ∧
      s.current samplePeers .b = none) (by decide +kernel) ?_
  rintro s - ⟨⟨hp1, hp2, hp3, hp4⟩, ⟨hAb, hBa⟩, hCurA, hCurB⟩
  have hClosed : ∀ l, s.closed l = true := by
    intro l
    cases l
    · exact hAb
    · exact hBa
  have hNone : ∀ x, s.current samplePeers x = none := by
    intro x
    cases x
    · exact hCurA
    · exact hCurB
  have hEnd : s.Finished samplePeers := by
    refine finished_of_done fun x l => ?_
    cases x <;> cases l <;> simp [hp1, hp2, hp3, hp4]
  refine ⟨hEnd, hClosed, hNone, ?_⟩
  rintro ⟨l, hOpen, -⟩
  rw [hClosed l] at hOpen
  cases hOpen

end AltNet
