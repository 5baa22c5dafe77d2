import AltNet.Lib.Chan
import AltNet.Lib.GoMap
import AltNet.Lib.Pool
import AltNet.Lib.Text
import AltNet.Lib.Trace

/-!
# AltNet — one dial for all who need it (`core/peer/peer.go`)

`EnsureConnected` returns at once when the address is connected. Otherwise it
looks into `dialing`: if a call is dialing the address it waits on that call's
channel and checks again when the channel is closed; if not, it enters a
channel of its own, calls `Connect`, takes its entry out again and closes the
channel.

Any number of calls run side by side. What `Connect` returns is free, and so
is which addresses are connected: connections come and go with other calls and
with the network. A channel is named by the call that made it.

Main results:

* `DialPool.Inv.step` — the entries of `dialing` are those of the calls that
  are in `Connect` or just out of it, one for each address, and who waits does
  so on the channel of a call for the same address;
* `ensureConnected_coalesces` — one `Connect` at a time for each address, no
  lost wake-up, no stale entry, and no success without a connection.
-/

namespace AltNet

open Option

/-- The errors of `Connect`, up to the text of the error that each wraps. -/
inductive ConnectError where
  | atLimit
  | dial
  | handshake
  | sendHello
  deriving DecidableEq

/-- The errors of `EnsureConnected`. -/
inductive EnsureError where
  | connect (err : ConnectError)
  | concurrentDial
  deriving DecidableEq

/-- Where an `EnsureConnected` stands: before the first check, before it looks
into `dialing`, in `Connect`, before it takes out its entry, before it closes
its channel; or waiting on the channel of call `w`, and before the second
check; or at its end. -/
inductive EnsurePhase where
  | checking
  | looking
  | connecting
  | connected (err : Option ConnectError)
  | removed (err : Option ConnectError)
  | waiting (w : Nat)
  | woken
  | returned (err : Option EnsureError)
  deriving DecidableEq

/-- The call has an entry in `dialing`. -/
def EnsurePhase.entered : EnsurePhase → Bool
  | .connecting | .connected _ => true
  | _ => false

/-- The call dials, and has not closed its channel yet. -/
def EnsurePhase.dialing : EnsurePhase → Bool
  | .connecting | .connected _ | .removed _ => true
  | _ => false

structure EnsureCall where
  addr : GoString
  phase : EnsurePhase
  wakeup : Option (Chan Unit 0)

structure DialPool where
  connected : GoString → Bool
  dialing : GoMap GoString Nat
  calls : List EnsureCall

/-- The steps of the calls, and a change of what is connected. -/
inductive DialPoolAction where
  | call (addr : GoString)
  | isConnected (i : Nat)
  | look (i : Nat)
  | connectReturns (i : Nat) (err : Option ConnectError)
  | remove (i : Nat)
  | close (i : Nat)
  | wake (i : Nat)
  | recheck (i : Nat)
  | network (addr : GoString) (connected : Bool)
  deriving DecidableEq

namespace DialPool

def init (connected : GoString → Bool) : DialPool where
  connected := connected
  dialing := ∅
  calls := []

def setCall (s : DialPool) (i : Nat) (c : EnsureCall) : DialPool :=
  { s with calls := s.calls.set i c }

/-- The call `i`, if it stands at `p`. -/
def callAt (s : DialPool) (i : Nat) (p : EnsurePhase) : Option EnsureCall :=
  s.calls[i]?.filter fun c => c.phase = p

/-- The section that holds `dialMu` for the first time. -/
def enter (s : DialPool) (i : Nat) (c : EnsureCall) : DialPool :=
  match s.dialing.lookup c.addr with
  | some w => s.setCall i { c with phase := .waiting w }
  | none => { s.setCall i { c with phase := .connecting, wakeup := some Chan.make } with
      dialing := s.dialing.insert c.addr i }

/-- The channel of call `w` is closed. -/
def isClosed (s : DialPool) (w : Nat) : Bool :=
  (s.calls[w]?.bind (·.wakeup)).any (·.closed)

/-- The next state; `none` when the step cannot be taken, when it has to wait,
or when it panics. -/
def next (s : DialPool) : DialPoolAction → Option DialPool
  | .call addr => some { s with calls := s.calls ++ [⟨addr, .checking, none⟩] }
  | .isConnected i => (s.callAt i .checking).map fun c =>
      s.setCall i { c with phase := if s.connected c.addr then .returned none else .looking }
  | .look i => (s.callAt i .looking).map fun c => s.enter i c
  | .connectReturns i err => (s.callAt i .connecting).map fun c =>
      s.setCall i { c with phase := .connected err }
  | .remove i =>
    s.calls[i]?.bind fun c =>
      match c.phase with
      | .connected err =>
        some { s.setCall i { c with phase := .removed err } with dialing := s.dialing.erase c.addr }
      | _ => none
  | .close i =>
    s.calls[i]?.bind fun c =>
      match c.phase with
      | .removed err => (c.wakeup.bind (·.close)).map fun ch =>
          s.setCall i { c with phase := .returned (err.map .connect), wakeup := some ch }
      | _ => none
  | .wake i =>
    s.calls[i]?.bind fun c =>
      match c.phase with
      | .waiting w => if s.isClosed w then some (s.setCall i { c with phase := .woken }) else none
      | _ => none
  | .recheck i => (s.callAt i .woken).map fun c =>
      s.setCall i { c with
        phase := .returned (if s.connected c.addr then none else some .concurrentDial) }
  | .network addr connected =>
    some { s with connected := Function.update s.connected addr connected }

/-! ## What a step can do -/

/-- What a step does. The checks, and the step by which a waiter wakes, are one
case: the call does not dial and holds no channel that others wait on. -/
inductive Step (s : DialPool) : DialPoolAction → DialPool → Prop
  | call (addr : GoString) :
      Step s (.call addr) { s with calls := s.calls ++ [⟨addr, .checking, none⟩] }
  | goOn {act : DialPoolAction} {i : Nat} {c : EnsureCall} {p : EnsurePhase}
      (hCall : s.calls[i]? = some c) (hFrom : c.phase.dialing = false ∧ ∀ e, c.phase ≠ .returned e)
      (hTo : p.dialing = false) (hWait : ∀ w, p = .waiting w → s.dialing.lookup c.addr = some w)
      (hNil : c.phase = .woken → p = .returned none → s.connected c.addr = true) :
      Step s act (s.setCall i { c with phase := p })
  | dial {i : Nat} {c : EnsureCall} (hCall : s.calls[i]? = some c) (hPhase : c.phase = .looking)
      (hFree : s.dialing.lookup c.addr = none) :
      Step s (.look i) { s.setCall i { c with phase := .connecting, wakeup := some Chan.make } with
        dialing := s.dialing.insert c.addr i }
  | connectReturns {i : Nat} {c : EnsureCall} (err : Option ConnectError)
      (hCall : s.calls[i]? = some c) (hPhase : c.phase = .connecting) :
      Step s (.connectReturns i err) (s.setCall i { c with phase := .connected err })
  | remove {i : Nat} {c : EnsureCall} {err : Option ConnectError} (hCall : s.calls[i]? = some c)
      (hPhase : c.phase = .connected err) :
      Step s (.remove i) { s.setCall i { c with phase := .removed err } with
        dialing := s.dialing.erase c.addr }
  | close {i : Nat} {c : EnsureCall} {err : Option ConnectError} {ch : Chan Unit 0}
      (hCall : s.calls[i]? = some c) (hPhase : c.phase = .removed err)
      (hClose : c.wakeup.bind (·.close) = some ch) :
      Step s (.close i)
        (s.setCall i { c with phase := .returned (err.map .connect), wakeup := some ch })
  | network (addr : GoString) (connected : Bool) :
      Step s (.network addr connected)
        { s with connected := Function.update s.connected addr connected }

variable {s t : DialPool} {act : DialPoolAction} {addr : GoString} {c : EnsureCall} {i w : Nat}
  {p : EnsurePhase}

theorem callAt_eq_some (h : s.callAt i p = some c) : s.calls[i]? = some c ∧ c.phase = p := by
  obtain ⟨hCall, hPhase⟩ := filter_eq_some_iff.mp h
  exact ⟨hCall, of_decide_eq_true hPhase⟩

/-- **One step.** -/
theorem next_step (h : s.next act = some t) : Step s act t := by
  cases act with
  | call addr =>
    cases h
    exact .call addr
  | isConnected i =>
    obtain ⟨c, hc, rfl⟩ := map_eq_some_iff.mp h
    obtain ⟨hCall, hPhase⟩ := callAt_eq_some hc
    refine .goOn hCall (by simp [hPhase, EnsurePhase.dialing]) ?_ ?_ (by simp [hPhase])
    · split <;> rfl
    · split <;> simp
  | look i =>
    obtain ⟨c, hc, rfl⟩ := map_eq_some_iff.mp h
    obtain ⟨hCall, hPhase⟩ := callAt_eq_some hc
    unfold enter
    split
    · rename_i w hEntry
      refine .goOn hCall (by simp [hPhase, EnsurePhase.dialing]) rfl ?_ (by simp [hPhase])
      rintro w' ⟨⟩
      exact hEntry
    · rename_i hFree
      exact .dial hCall hPhase hFree
  | connectReturns i err =>
    obtain ⟨c, hc, rfl⟩ := map_eq_some_iff.mp h
    obtain ⟨hCall, hPhase⟩ := callAt_eq_some hc
    exact .connectReturns err hCall hPhase
  | remove i =>
    obtain ⟨c, hCall, h⟩ := bind_eq_some_iff.mp h
    split at h
    case h_1 err hPhase =>
      cases h
      exact .remove hCall hPhase
    all_goals cases h
  | close i =>
    obtain ⟨c, hCall, h⟩ := bind_eq_some_iff.mp h
    split at h
    case h_1 err hPhase =>
      obtain ⟨ch, hClose, rfl⟩ := map_eq_some_iff.mp h
      exact .close hCall hPhase hClose
    all_goals cases h
  | wake i =>
    obtain ⟨c, hCall, h⟩ := bind_eq_some_iff.mp h
    split at h
    case h_1 w hPhase =>
      obtain ⟨-, h⟩ := ite_none_right_eq_some.mp h
      cases h
      exact .goOn hCall (by simp [hPhase, EnsurePhase.dialing]) rfl (by simp) (by simp)
    all_goals cases h
  | recheck i =>
    obtain ⟨c, hc, rfl⟩ := map_eq_some_iff.mp h
    obtain ⟨hCall, hPhase⟩ := callAt_eq_some hc
    refine .goOn hCall (by simp [hPhase, EnsurePhase.dialing]) rfl (by simp) ?_
    intro _ hNil
    by_contra hNot
    simp [hNot] at hNil
  | network addr connected =>
    cases h
    exact .network addr connected

/-! ## The invariant -/

/-- A call that dials has a channel; a channel is open as long as its call
dials, and closed when the call has returned. -/
structure Signals (c : EnsureCall) : Prop where
  made : c.phase.dialing = true → ∃ ch, c.wakeup = some ch
  state : ∀ ch, c.wakeup = some ch →
    (ch.closed = false ∧ c.phase.dialing = true) ∨
      (ch.closed = true ∧ ∃ err, c.phase = .returned err)

/-- The entries of `dialing` are those of the calls that have entered, and who
waits has a channel to wait on. -/
structure Inv (s : DialPool) : Prop where
  entry : ∀ addr w, s.dialing.lookup addr = some w →
    ∃ d, s.calls[w]? = some d ∧ d.addr = addr ∧ d.phase.entered = true
  holder : ∀ (i : Nat) c, s.calls[i]? = some c → c.phase.entered = true →
    s.dialing.lookup c.addr = some i
  signal : ∀ (i : Nat) c, s.calls[i]? = some c → Signals c
  waiter : ∀ (i : Nat) c w, s.calls[i]? = some c → c.phase = .waiting w →
    ∃ d, s.calls[w]? = some d ∧ d.addr = c.addr ∧ d.wakeup.isSome = true

theorem inv_init (connected : GoString → Bool) : (init connected).Inv where
  entry := fun addr w h => by cases h
  holder := fun i c h => by cases h
  signal := fun i c h => by cases h
  waiter := fun i c w h => by cases h

theorem dialing_of_entered (h : p.entered = true) : p.dialing = true := by
  cases p <;> simp_all [EnsurePhase.entered, EnsurePhase.dialing]

/-- A call that neither dials nor has returned has no channel. -/
theorem Signals.none (h : Signals c) (hDial : c.phase.dialing = false)
    (hReturned : ∀ e, c.phase ≠ .returned e) : c.wakeup = none := by
  cases hChan : c.wakeup with
  | none => rfl
  | some ch =>
    rcases h.state ch hChan with ⟨-, hYes⟩ | ⟨-, err, hErr⟩
    · rw [hDial] at hYes
      cases hYes
    · exact absurd hErr (hReturned err)

/-- Every call keeps its address, and its channel if it has one. -/
theorem Step.calls (h : Step s act t) :
    Evolves (fun c c' : EnsureCall => c'.addr = c.addr ∧
      (c.wakeup.isSome = true → c'.wakeup.isSome = true)) s.calls t.calls := by
  have hRefl : ∀ c : EnsureCall, c.addr = c.addr ∧
      (c.wakeup.isSome = true → c.wakeup.isSome = true) := fun c => ⟨rfl, id⟩
  cases h with
  | call => exact .append hRefl
  | network => exact fun i c hc => ⟨c, hc, hRefl c⟩
  | goOn hCall | connectReturns _ hCall | remove hCall => exact .set hRefl hCall ⟨rfl, id⟩
  | dial hCall | close hCall => exact .set hRefl hCall ⟨rfl, fun _ => rfl⟩

/-- **One step: the entries.** -/
theorem Inv.entry_step (hInv : s.Inv) (h : Step s act t) : ∀ addr w,
    t.dialing.lookup addr = some w →
    ∃ d, t.calls[w]? = some d ∧ d.addr = addr ∧ d.phase.entered = true := by
  intro addr w hLookup
  cases h with
  | call =>
    obtain ⟨d, hd, hRest⟩ := hInv.entry addr w hLookup
    exact ⟨d, pool_append_old hd, hRest⟩
  | network => exact hInv.entry addr w hLookup
  | @goOn _ i c p hCall hFrom =>
    obtain ⟨d, hd, hAddr, hEntered⟩ := hInv.entry addr w hLookup
    -- the call that moves does not dial
    have hwi : w ≠ i := by
      rintro rfl
      rw [hCall] at hd
      cases hd
      rw [dialing_of_entered hEntered] at hFrom
      cases hFrom.1
    exact ⟨d, pool_set_other hwi hd, hAddr, hEntered⟩
  | @dial i c hCall hPhase hFree =>
    rcases GoMap.lookup_insert_cases hLookup with ⟨rfl, rfl⟩ | ⟨-, hOld⟩
    · exact ⟨_, pool_set_self hCall, rfl, rfl⟩
    obtain ⟨d, hd, hAddr, hEntered⟩ := hInv.entry addr w hOld
    have hwi : w ≠ i := by
      rintro rfl
      rw [hCall] at hd
      cases hd
      rw [hPhase] at hEntered
      cases hEntered
    exact ⟨d, pool_set_other hwi hd, hAddr, hEntered⟩
  | @connectReturns i c err hCall hPhase =>
    obtain ⟨d, hd, hAddr, hEntered⟩ := hInv.entry addr w hLookup
    by_cases hwi : w = i
    · subst hwi
      rw [hCall] at hd
      cases hd
      exact ⟨_, pool_set_self hCall, hAddr, rfl⟩
    · exact ⟨d, pool_set_other hwi hd, hAddr, hEntered⟩
  | @remove i c err hCall hPhase =>
    obtain ⟨hNe, hOld⟩ := GoMap.lookup_of_lookup_erase hLookup
    obtain ⟨d, hd, hAddr, hEntered⟩ := hInv.entry addr w hOld
    have hwi : w ≠ i := by
      rintro rfl
      rw [hCall] at hd
      cases hd
      exact hNe hAddr.symm
    exact ⟨d, pool_set_other hwi hd, hAddr, hEntered⟩
  | @close i c err ch hCall hPhase =>
    obtain ⟨d, hd, hAddr, hEntered⟩ := hInv.entry addr w hLookup
    have hwi : w ≠ i := by
      rintro rfl
      rw [hCall] at hd
      cases hd
      rw [hPhase] at hEntered
      cases hEntered
    exact ⟨d, pool_set_other hwi hd, hAddr, hEntered⟩

/-- **One step: who has entered.** -/
theorem Inv.holder_step (hInv : s.Inv) (h : Step s act t) : ∀ (i : Nat) c,
    t.calls[i]? = some c → c.phase.entered = true → t.dialing.lookup c.addr = some i := by
  cases h with
  | call addr => exact forall_pool_append hInv.holder nofun
  | network => exact hInv.holder
  | goOn hCall _ hTo =>
    refine forall_pool_set hInv.holder fun hEntered => ?_
    rw [dialing_of_entered hEntered] at hTo
    cases hTo
  | @dial i c hCall hPhase hFree =>
    refine forall_pool_set (fun j d hd hEntered => ?_) fun _ => Finmap.lookup_insert _
    have hOld := hInv.holder j d hd hEntered
    have hNe : d.addr ≠ c.addr := by
      intro hEq
      rw [hEq, hFree] at hOld
      cases hOld
    show (s.dialing.insert c.addr i).lookup d.addr = some j
    rw [Finmap.lookup_insert_of_ne _ hNe]
    exact hOld
  | connectReturns err hCall hPhase =>
    have hOwn := hInv.holder _ _ hCall (by rw [hPhase]; rfl)
    exact forall_pool_set hInv.holder fun _ => hOwn
  | @remove i c err hCall hPhase =>
    have hOwn := hInv.holder i c hCall (by rw [hPhase]; rfl)
    intro j d hd hEntered
    rcases pool_set_cases hd with ⟨rfl, rfl⟩ | ⟨hji, hd⟩
    · cases hEntered
    -- another call that has entered is for another address
    have hOld := hInv.holder j d hd hEntered
    have hNe : d.addr ≠ c.addr := by
      intro hEq
      rw [hEq, hOwn] at hOld
      exact hji (some.inj hOld).symm
    show (s.dialing.erase c.addr).lookup d.addr = some j
    rw [Finmap.lookup_erase_ne hNe]
    exact hOld
  | close => exact forall_pool_set hInv.holder nofun

/-- **One step: the channels.** -/
theorem Inv.signal_step (hInv : s.Inv) (h : Step s act t) : ∀ (i : Nat) c,
    t.calls[i]? = some c → Signals c := by
  cases h with
  | call addr => exact forall_pool_append hInv.signal ⟨nofun, nofun⟩
  | network => exact hInv.signal
  | goOn hCall hFrom hTo =>
    refine forall_pool_set hInv.signal ⟨fun hDial => ?_, fun ch hChan => ?_⟩
    · rw [hTo] at hDial
      cases hDial
    · have hNone := (hInv.signal _ _ hCall).none hFrom.1 hFrom.2
      rw [hNone] at hChan
      cases hChan
  | dial hCall =>
    refine forall_pool_set hInv.signal ⟨fun _ => ⟨_, rfl⟩, fun ch hChan => ?_⟩
    cases hChan
    exact .inl ⟨rfl, rfl⟩
  | connectReturns err hCall hPhase | remove hCall hPhase =>
    have hOld := hInv.signal _ _ hCall
    refine forall_pool_set hInv.signal ⟨fun _ => hOld.made (by rw [hPhase]; rfl), ?_⟩
    intro ch hChan
    rcases hOld.state ch hChan with ⟨hOpen, -⟩ | ⟨-, err, hErr⟩
    · exact .inl ⟨hOpen, rfl⟩
    · rw [hPhase] at hErr
      cases hErr
  | close hCall hPhase hClose =>
    obtain ⟨ch, -, hClose⟩ := bind_eq_some_iff.mp hClose
    refine forall_pool_set hInv.signal ⟨nofun, fun ch' hChan => ?_⟩
    cases hChan
    rw [(Chan.close_eq_some hClose).2]
    exact .inr ⟨rfl, _, rfl⟩

/-- **One step: who waits.** -/
theorem Inv.waiter_step (hInv : s.Inv) (h : Step s act t) : ∀ (i : Nat) c w,
    t.calls[i]? = some c → c.phase = .waiting w →
    ∃ d, t.calls[w]? = some d ∧ d.addr = c.addr ∧ d.wakeup.isSome = true := by
  -- the call that is waited for keeps its address and its channel
  have hKeep : ∀ {w : Nat} {addr : GoString},
      (∃ d, s.calls[w]? = some d ∧ d.addr = addr ∧ d.wakeup.isSome = true) →
      ∃ d, t.calls[w]? = some d ∧ d.addr = addr ∧ d.wakeup.isSome = true := by
    rintro w addr ⟨d, hd, hAddr, hChan⟩
    obtain ⟨d', hd', hSame, hStill⟩ := h.calls w d hd
    exact ⟨d', hd', hSame.trans hAddr, hStill hChan⟩
  have hOld : ∀ (i : Nat) c, s.calls[i]? = some c → ∀ w, c.phase = .waiting w →
      ∃ d, t.calls[w]? = some d ∧ d.addr = c.addr ∧ d.wakeup.isSome = true :=
    fun i c hc w hw => hKeep (hInv.waiter i c w hc hw)
  suffices hAll : ∀ (i : Nat) c, t.calls[i]? = some c → ∀ w, c.phase = .waiting w →
      ∃ d, t.calls[w]? = some d ∧ d.addr = c.addr ∧ d.wakeup.isSome = true from
    fun i c w hc => hAll i c hc w
  cases h with
  | call addr => exact forall_pool_append hOld nofun
  | network => exact hOld
  | goOn hCall _ _ hWait =>
    refine forall_pool_set hOld fun w hw => ?_
    obtain ⟨d, hd, hAddr, hEntered⟩ := hInv.entry _ w (hWait w hw)
    obtain ⟨ch, hChan⟩ := (hInv.signal w d hd).made (dialing_of_entered hEntered)
    exact hKeep ⟨d, hd, hAddr, by rw [hChan]; rfl⟩
  | dial | connectReturns | remove | close => exact forall_pool_set hOld nofun

theorem Inv.step (hInv : s.Inv) (h : Step s act t) : t.Inv where
  entry := hInv.entry_step h
  holder := hInv.holder_step h
  signal := hInv.signal_step h
  waiter := hInv.waiter_step h

theorem inv_of_exec {connected : GoString → Bool} {acts : List DialPoolAction}
    (hRun : Exec (stepOf next) (init connected) acts s) : s.Inv :=
  hRun.invariant (inv_init connected) fun hInv hStep => hInv.step (next_step hStep)

/-! ## What the calls can rely on -/

/-- Two calls that have entered are for different addresses. -/
theorem Inv.entered_unique (hInv : s.Inv) {j : Nat} {d : EnsureCall} (hc : s.calls[i]? = some c)
    (hd : s.calls[j]? = some d) (hcEntered : c.phase.entered = true)
    (hdEntered : d.phase.entered = true) (hAddr : c.addr = d.addr) : i = j := by
  have hi := hInv.holder i c hc hcEntered
  have hj := hInv.holder j d hd hdEntered
  rw [hAddr] at hi
  exact some.inj (hi.symm.trans hj)

/-- The call that a waiter waits for dials the same address and its channel is
open, or it has returned and its channel is closed. -/
theorem Inv.waited_for (hInv : s.Inv) (hc : s.calls[i]? = some c) (hPhase : c.phase = .waiting w) :
    ∃ d, s.calls[w]? = some d ∧ d.addr = c.addr ∧
      ((d.phase.dialing = true ∧ s.isClosed w = false) ∨
        ((∃ err, d.phase = .returned err) ∧ s.isClosed w = true)) := by
  obtain ⟨d, hd, hAddr, hChan⟩ := hInv.waiter i c w hc hPhase
  obtain ⟨ch, hChan⟩ := isSome_iff_exists.mp hChan
  have hClosed : s.isClosed w = ch.closed := by simp [isClosed, hd, hChan]
  refine ⟨d, hd, hAddr, ?_⟩
  rw [hClosed]
  rcases (hInv.signal w d hd).state ch hChan with ⟨hOpen, hDial⟩ | ⟨hShut, hReturned⟩
  · exact .inl ⟨hDial, hOpen⟩
  · exact .inr ⟨hReturned, hShut⟩

/-- Where no call dials an address, nobody is blocked for it. -/
theorem Inv.nobody_blocked (hInv : s.Inv)
    (hNone : ∀ (i : Nat) c, s.calls[i]? = some c → c.addr = addr → c.phase.dialing = false)
    (hc : s.calls[i]? = some c) (hAddr : c.addr = addr) (hPhase : c.phase = .waiting w) :
    (s.next (.wake i)).isSome = true := by
  obtain ⟨d, hd, hSame, ⟨hDial, -⟩ | ⟨-, hClosed⟩⟩ := hInv.waited_for hc hPhase
  · rw [hNone w d hd (hSame.trans hAddr)] at hDial
    cases hDial
  · simp [next, hc, hPhase, hClosed]

theorem Inv.no_stale_entry (hInv : s.Inv)
    (hNone : ∀ (i : Nat) c, s.calls[i]? = some c → c.addr = addr → c.phase.dialing = false) :
    addr ∉ s.dialing := by
  intro hMem
  obtain ⟨w, hLookup⟩ := Finmap.mem_iff.mp hMem
  obtain ⟨d, hd, hAddr, hEntered⟩ := hInv.entry addr w hLookup
  have hDial := hNone w d hd hAddr
  rw [dialing_of_entered hEntered] at hDial
  cases hDial

/-- A call that has taken out its entry can close its channel. -/
theorem Inv.close_isSome (hInv : s.Inv) {d : EnsureCall} {err : Option ConnectError}
    (hd : s.calls[w]? = some d) (hPhase : d.phase = .removed err) :
    (s.next (.close w)).isSome = true := by
  have hDial : d.phase.dialing = true := by
    rw [hPhase]
    rfl
  obtain ⟨ch, hChan⟩ := (hInv.signal w d hd).made hDial
  have hOpen : ch.closed = false := by
    rcases (hInv.signal w d hd).state ch hChan with ⟨hOpen, -⟩ | ⟨-, err', hErr⟩
    · exact hOpen
    · rw [hPhase] at hErr
      cases hErr
  simp [next, hd, hPhase, hChan, Chan.close, hOpen]

/-- A call that dials goes on dialing until it closes its channel. -/
theorem Step.stops_dialing (h : Step s act t) {d d' : EnsureCall} (hd : s.calls[w]? = some d)
    (hd' : t.calls[w]? = some d') (hDial : d.phase.dialing = true)
    (hStop : d'.phase.dialing = false) : act = .close w ∧ t.isClosed w = true := by
  have hSame : t.calls[w]? = s.calls[w]? → act = .close w ∧ t.isClosed w = true := by
    intro hEq
    rw [hEq, hd] at hd'
    cases hd'
    rw [hDial] at hStop
    cases hStop
  cases h with
  | call => exact hSame ((pool_append_old hd).trans hd.symm)
  | network => exact hSame rfl
  | @goOn _ i c p hCall hFrom =>
    by_cases hwi : w = i
    · subst hwi
      rw [hCall] at hd
      cases hd
      rw [hFrom.1] at hDial
      cases hDial
    · exact hSame ((pool_set_other hwi hd).trans hd.symm)
  | @dial i c hCall | @connectReturns i c _ hCall | @remove i c _ hCall =>
    by_cases hwi : w = i
    · subst hwi
      have hSelf := (pool_set_self hCall).symm.trans hd'
      cases hSelf
      cases hStop
    · exact hSame ((pool_set_other hwi hd).trans hd.symm)
  | @close i c err ch hCall hPhase hClose =>
    by_cases hwi : w = i
    · subst hwi
      obtain ⟨ch', -, hClose⟩ := bind_eq_some_iff.mp hClose
      have hShut : ch.closed = true := by rw [(Chan.close_eq_some hClose).2]
      refine ⟨rfl, ?_⟩
      show ((s.calls.set w _)[w]?.bind (·.wakeup)).any (·.closed) = true
      rw [pool_set_self hCall]
      exact hShut
    · exact hSame ((pool_set_other hwi hd).trans hd.symm)

/-- Who has waited returns without an error only while the address is
connected. -/
theorem Step.waiter_succeeds (h : Step s act t) {c' : EnsureCall} (hc : s.calls[i]? = some c)
    (hc' : t.calls[i]? = some c') (hPhase : c.phase = .woken) (hNil : c'.phase = .returned none) :
    s.connected c.addr = true := by
  have hSame : t.calls[i]? ≠ s.calls[i]? := by
    intro hEq
    rw [hEq, hc] at hc'
    cases hc'
    rw [hPhase] at hNil
    cases hNil
  cases h with
  | call => exact absurd ((pool_append_old hc).trans hc.symm) hSame
  | network => exact absurd rfl hSame
  | @goOn _ j d p hCall _ _ _ hReturn =>
    by_cases hij : i = j
    · subst hij
      rw [hCall] at hc
      cases hc
      have hSelf := (pool_set_self hCall).symm.trans hc'
      cases hSelf
      exact hReturn hPhase hNil
    · exact absurd ((pool_set_other hij hc).trans hc.symm) hSame
  | @dial j d hCall hd | @connectReturns j d _ hCall hd | @remove j d _ hCall hd
  | @close j d _ _ hCall hd =>
    by_cases hij : i = j
    · subst hij
      rw [hCall] at hc
      cases hc
      rw [hPhase] at hd
      cases hd
    · exact absurd ((pool_set_other hij hc).trans hc.symm) hSame

end DialPool

open DialPool

/-- **One dial for all who need it.** In every state that any interleaving of
calls leads to, whatever `Connect` returns and whatever becomes connected or is
lost meanwhile:

* at most one call for each address is in `Connect`;
* who waits does so on the channel of a call for the same address, which is
  still dialing, or has returned and closed it;
* a call that dials stops doing so only by closing its channel, which it can
  always do once it has taken its entry out;
* where no call dials an address, nobody is blocked for it and `dialing` has no
  entry for it;
* who has waited returns without an error only if the address is connected
  when it checks again. -/
theorem ensureConnected_coalesces {connected : GoString → Bool} {acts : List DialPoolAction}
    {s : DialPool} (hRun : Exec (stepOf next) (init connected) acts s) :
    (∀ (i j : Nat) c d, s.calls[i]? = some c → s.calls[j]? = some d → c.phase = .connecting →
      d.phase = .connecting → c.addr = d.addr → i = j) ∧
    (∀ (i : Nat) c w, s.calls[i]? = some c → c.phase = .waiting w →
      ∃ d, s.calls[w]? = some d ∧ d.addr = c.addr ∧
        ((d.phase.dialing = true ∧ s.isClosed w = false) ∨
          ((∃ err, d.phase = .returned err) ∧ s.isClosed w = true))) ∧
    (∀ (w : Nat) d, s.calls[w]? = some d → d.phase.dialing = true →
      (∀ act t d', s.next act = some t → t.calls[w]? = some d' → d'.phase.dialing = false →
        act = .close w ∧ t.isClosed w = true) ∧
      (d.phase = .connecting → ∀ err, (s.next (.connectReturns w err)).isSome = true) ∧
      (∀ err, d.phase = .connected err → (s.next (.remove w)).isSome = true) ∧
      (∀ err, d.phase = .removed err → (s.next (.close w)).isSome = true)) ∧
    (∀ addr, (∀ (i : Nat) c, s.calls[i]? = some c → c.addr = addr → c.phase.dialing = false) →
      addr ∉ s.dialing ∧ ∀ (i : Nat) c w, s.calls[i]? = some c → c.addr = addr →
        c.phase = .waiting w → (s.next (.wake i)).isSome = true) ∧
    (∀ act t (i : Nat) c c', s.next act = some t → s.calls[i]? = some c →
      t.calls[i]? = some c' → c.phase = .woken → c'.phase = .returned none →
      s.connected c.addr = true) := by
  have hInv := inv_of_exec hRun
  refine ⟨?_, ?_, ?_, ?_, ?_⟩
  · intro i j c d hc hd hcPhase hdPhase hAddr
    exact hInv.entered_unique hc hd (by rw [hcPhase]; rfl) (by rw [hdPhase]; rfl) hAddr
  · intro i c w hc hPhase
    exact hInv.waited_for hc hPhase
  · intro w d hd hDial
    refine ⟨?_, ?_, ?_, ?_⟩
    · intro act t d' hStep hd' hStop
      exact (next_step hStep).stops_dialing hd hd' hDial hStop
    · intro hPhase err
      simp [next, callAt, hd, hPhase]
    · intro err hPhase
      simp [next, hd, hPhase]
    · intro err hPhase
      exact hInv.close_isSome hd hPhase
  · intro addr hNone
    refine ⟨hInv.no_stale_entry hNone, ?_⟩
    intro i c w hc hAddr hPhase
    exact hInv.nobody_blocked hNone hc hAddr hPhase
  · intro act t i c c' hStep hc hc' hPhase hNil
    exact (next_step hStep).waiter_succeeds hc hc' hPhase hNil

/-- Two calls for one address: the second waits, and the dial fails. -/
def failedDial : List DialPoolAction :=
  let addr := "192.0.2.1:4000".toList
  [.call addr, .call addr, .isConnected 0, .isConnected 1, .look 0, .look 1,
    .connectReturns 0 (some .dial), .remove 0, .close 0]

theorem ensureConnected_coalesces_failed :
    ∃ s c, Exec (stepOf next) (init fun _ => false) failedDial s ∧
      s.calls[1]? = some c ∧ c.phase = .waiting 0 ∧ c.addr ∉ s.dialing ∧
      (s.next (.wake 1)).isSome = true := by
  have hRun : (runFrom next (init fun _ => false) failedDial).any (fun s =>
      (s.calls.all fun c => !c.phase.dialing) &&
        s.calls[1]?.any fun c => decide (c.phase = .waiting 0)) = true := by
    decide +kernel
  obtain ⟨s, hs, hBoth⟩ := (any_eq_true _ _).mp hRun
  obtain ⟨hAll, hSecond⟩ := Bool.and_eq_true_iff.mp hBoth
  obtain ⟨c, hc, hPhase⟩ := (any_eq_true _ _).mp hSecond
  have hPhase := of_decide_eq_true hPhase
  have hExec := Exec.of_runFrom hs
  have hNone := (ensureConnected_coalesces hExec).2.2.2.1 c.addr fun i d hd _ => by
    simpa using List.all_eq_true.mp hAll d (List.mem_of_getElem? hd)
  exact ⟨s, c, hExec, hc, hPhase, hNone.1, hNone.2 1 c 0 hc rfl hPhase⟩

end AltNet
