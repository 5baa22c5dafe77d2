import AltNet.Lib.Trace

/-!
# AltNet — the client of a relay (`core/relay/client.go`)

`Run` dials the relay, registers, reads pushes until the connection fails,
waits and dials again. `Stop` may be called at any time, by any number of
goroutines, also before `Run` starts. A step of the model is what one of them
does between two points at which another can come in. `openTunnel`, which a
push starts, has a connection of its own and touches nothing of this.

Main results:

* `client_connections` — one control connection at a time, and none when `Stop`
  has returned;
* `client_stop_returns` — `Run` does not keep `Stop` waiting;
* `client_backoff` — no connection, however long it lasted, resets the time
  between two of them.
-/

namespace AltNet.Relay

open Option

/-- Where `Run` stands. `err` says whether `runOnce` returns an error. -/
inductive RunAt where
  | idle
  | top
  | dialling
  | dialled (conn : Nat)
  | registering (conn : Nat)
  | polling (conn : Nat)
  | reading (conn : Nat)
  | leaving (conn : Nat) (err : Bool)
  | closing (conn : Nat) (err : Bool)
  | waiting
  | returned
  deriving DecidableEq

/-- Where the call of `Stop` stands that came first. -/
inductive StopAt where
  | idle
  | closing (conn : Option Nat)
  | waiting
  | returned
  deriving DecidableEq

/-- The client. `stopped` is also whether the channel `stop` is closed; control
connections are numbered as they are dialled; `backoff` is in seconds. -/
structure Control where
  stopped : Bool
  activeConn : Option Nat
  opened : Nat
  closed : List Nat
  run : RunAt
  stop : StopAt
  backoff : Nat

inductive ControlAction where
  | run | poll | lock | close | timer
  /-- A dial, the registration or a read comes back. -/
  | io (ok : Bool)
  | stop | stopClose | stopWait
  deriving DecidableEq

namespace Control

/-- `NewClient`. -/
def init : Control := ⟨false, none, 0, [], .idle, .idle, 1⟩

/-- The next state; `none` when the step cannot be taken. -/
def next (s : Control) : ControlAction → Option Control
  | .run => if s.run = .idle then some { s with run := .top } else none
  | .poll =>
    match s.run with
    | .top => some { s with run := if s.stopped then .returned else .dialling }
    | .polling c => some { s with run := if s.stopped then .leaving c false else .reading c }
    | .waiting => if s.stopped then some { s with run := .returned } else none
    | _ => none
  | .io ok =>
    match s.run with
    | .dialling =>
      some (if ok then { s with run := .dialled s.opened, opened := s.opened + 1 }
        else { s with run := .waiting })
    | .registering c | .reading c =>
      some { s with run := if ok then .polling c else .leaving c true }
    | _ => none
  | .lock =>
    match s.run with
    | .dialled c =>
      some (if s.stopped then { s with run := .closing c false }
        else { s with run := .registering c, activeConn := some c })
    | .leaving c err => some { s with run := .closing c err, activeConn := none }
    | _ => none
  | .close =>
    match s.run with
    -- only a `runOnce` that returns no error sets `backoff` back
    | .closing c true => some { s with run := .waiting, closed := c :: s.closed }
    | .closing c false => some { s with run := .top, closed := c :: s.closed, backoff := 1 }
    | _ => none
  | .timer =>
    if s.run = .waiting then some { s with run := .top, backoff := min (s.backoff * 2) 60 }
    else none
  -- a second call of `Stop` returns at once
  | .stop =>
    some (if s.stopped then s else { s with stopped := true, stop := .closing s.activeConn })
  | .stopClose =>
    match s.stop with
    | .closing conn => some { s with closed := conn.toList ++ s.closed, stop := .waiting }
    | _ => none
  -- `Run` is not yet, or no longer, in the wait group
  | .stopWait =>
    if s.stop = .waiting ∧ (s.run = .idle ∨ s.run = .returned) then
      some { s with stop := .returned }
    else none

end Control

/-! ## What every step keeps -/

/-- The connection that is in `activeConn`. -/
def RunAt.active : RunAt → Option Nat
  | .registering c | .polling c | .reading c | .leaving c _ => some c
  | _ => none

/-- The connection that `Run` has yet to close. -/
def RunAt.conn : RunAt → Option Nat
  | .dialled c | .closing c _ => some c
  | p => p.active

/-- `runOnce` is about to return no error. -/
def RunAt.clean : RunAt → Bool
  | .leaving _ err | .closing _ err => !err
  | _ => false

/-- The steps that `Run` has left, at most, once the client is stopped. -/
def RunAt.stepsLeft : RunAt → Nat
  | .returned => 0
  | .top => 1
  | .idle | .waiting => 2
  | .closing .. => 3
  | .leaving .. | .dialled _ => 4
  | .polling _ | .dialling => 5
  | .reading _ | .registering _ => 6

/-- `Run` has no connection, and none is being dialled. -/
def RunAt.resting : RunAt → Bool
  | .idle | .top | .returned => true
  | _ => false

theorem RunAt.conn_of_resting {p : RunAt} (h : p.resting = true) : p.conn = none := by
  cases p with
  | idle | top | returned => rfl
  | _ => cases h

/-- The steps that are taken by `Run`. -/
def ControlAction.ofRun : ControlAction → Bool
  | .stop | .stopClose | .stopWait => false
  | _ => true

namespace Control

/-- What holds in every state. `Stop` reads `activeConn` and closes what it has
read in two steps; in between `Run` may leave that connection, but as the client
is stopped it cannot take another. -/
structure Inv (s : Control) : Prop where
  conn : ∀ c < s.opened, c ∈ s.closed ∨ s.run.conn = some c
  active : s.activeConn = s.run.active
  clean : s.run.clean = true → s.stopped = true
  stopped : s.stop ≠ .idle → s.stopped = true
  captured : ∀ conn, s.stop = .closing conn → ∀ c, s.run.active = some c → conn = some c
  severed : s.stop = .waiting → ∀ c, s.run.active = some c → c ∈ s.closed
  returned : s.stop = .returned → s.run.resting = true

variable {s t : Control} {a : ControlAction} {as : List ControlAction} {p q : RunAt} {c b : Nat}

section Steps

variable (h : s.Inv)

include h

/-- `Stop` returns only to a `Run` that rests. -/
theorem Inv.busy (hAt : s.run = p) (hBusy : p.resting = false) {P : Prop}
    (hStop : s.stop = .returned) : P := by
  have hRest := h.returned hStop
  rw [hAt, hBusy] at hRest
  cases hRest

/-- `Run` goes on with the connection it has, or without one. -/
theorem Inv.goesOn (hAt : s.run = p) (hConn : q.conn = p.conn) (hActive : q.active = p.active)
    (hClean : q.clean = true → s.stopped = true)
    (hRest : s.stop = .returned → q.resting = true) :
    Inv { s with run := q, backoff := b } := by
  subst hAt
  refine ⟨fun c hc => ?_, h.active.trans hActive.symm, hClean, h.stopped, fun conn hStop c hc => ?_,
    fun hStop c hc => ?_, hRest⟩
  · rw [hConn]
    exact h.conn c hc
  · exact h.captured conn hStop c (hActive.symm.trans hc)
  · exact h.severed hStop c (hActive.symm.trans hc)

/-- `Run` comes to a place at which its connection, if it has one, is not in
`activeConn`. -/
theorem Inv.detached {opened : Nat} {closed : List Nat} (hAt : s.run = p)
    (hBusy : p.resting = false) (hConn : ∀ c < opened, c ∈ closed ∨ q.conn = some c)
    (hActive : q.active = none) (hClean : q.clean = true → s.stopped = true) :
    Inv { s with activeConn := none, opened, closed, run := q, backoff := b } := by
  refine ⟨hConn, hActive.symm, hClean, h.stopped, fun _ _ c hc => ?_, fun _ c hc => ?_,
    h.busy hAt hBusy⟩
  · cases hActive.symm.trans hc
  · cases hActive.symm.trans hc

/-- `Run` closes the connection that it has left. -/
theorem Inv.closes {err : Bool} (hAt : s.run = .closing c err) (hActive : q.active = none)
    (hClean : q.clean = false) :
    Inv { s with run := q, closed := c :: s.closed, backoff := b } := by
  have hNone : s.activeConn = none := h.active.trans (by rw [hAt]; rfl)
  rw [hNone]
  refine h.detached hAt rfl (fun d hd => .inl ?_) hActive fun hq => ?_
  · rcases h.conn d hd with hClosed | hHeld
    · exact List.mem_cons_of_mem c hClosed
    · rw [hAt] at hHeld
      cases hHeld
      exact List.mem_cons_self
  · cases hClean.symm.trans hq

theorem Inv.poll (hNext : s.next .poll = some t) : t.Inv := by
  cases hAt : s.run with
  | top =>
    rw [next, hAt] at hNext
    cases hNext
    split
    · exact h.goesOn hAt rfl rfl nofun fun _ => rfl
    · rename_i hOpen
      exact h.goesOn hAt rfl rfl nofun fun hStop => absurd (h.stopped (by simp [hStop])) hOpen
  | polling c =>
    rw [next, hAt] at hNext
    cases hNext
    split
    · rename_i hStopped
      exact h.goesOn hAt rfl rfl (fun _ => hStopped) (h.busy hAt rfl)
    · exact h.goesOn hAt rfl rfl nofun (h.busy hAt rfl)
  | waiting =>
    rw [next, hAt] at hNext
    obtain ⟨-, ⟨⟩⟩ := ite_none_right_eq_some.mp hNext
    exact h.goesOn hAt rfl rfl nofun (h.busy hAt rfl)
  | _ => simp [next, hAt] at hNext

theorem Inv.io {ok : Bool} (hNext : s.next (.io ok) = some t) : t.Inv := by
  cases hAt : s.run with
  | dialling =>
    rw [next, hAt] at hNext
    cases hNext
    split
    · -- the new connection is the only one that is open
      have hNone : s.activeConn = none := h.active.trans (by rw [hAt]; rfl)
      rw [hNone]
      refine h.detached hAt rfl (fun c hc => ?_) rfl nofun
      rcases Nat.lt_succ_iff_lt_or_eq.mp hc with hOld | rfl
      · have hConn := h.conn c hOld
        rw [hAt] at hConn
        exact .inl (hConn.resolve_right nofun)
      · exact .inr rfl
    · exact h.goesOn hAt rfl rfl nofun (h.busy hAt rfl)
  | registering c | reading c =>
    rw [next, hAt] at hNext
    cases hNext
    split
    · exact h.goesOn hAt rfl rfl nofun (h.busy hAt rfl)
    · exact h.goesOn hAt rfl rfl nofun (h.busy hAt rfl)
  | _ => simp [next, hAt] at hNext

theorem Inv.lock (hNext : s.next .lock = some t) : t.Inv := by
  cases hAt : s.run with
  | dialled c =>
    have hConn := h.conn
    rw [hAt] at hConn
    rw [next, hAt] at hNext
    cases hNext
    split
    · rename_i hStopped
      exact h.goesOn hAt rfl rfl (fun _ => hStopped) (h.busy hAt rfl)
    · -- `Stop` was not called
      rename_i hOpen
      have hIdle : s.stop = .idle := by
        by_contra hStop
        exact hOpen (h.stopped hStop)
      refine ⟨hConn, rfl, nofun, h.stopped, ?_, ?_, h.busy hAt rfl⟩
      · intro conn hStop
        cases hIdle.symm.trans hStop
      · intro hStop
        cases hIdle.symm.trans hStop
  | leaving c err =>
    have hConn := h.conn
    have hClean := h.clean
    rw [hAt] at hConn hClean
    rw [next, hAt] at hNext
    cases hNext
    exact h.detached hAt rfl hConn rfl hClean
  | _ => simp [next, hAt] at hNext

/-- **One step.** -/
theorem Inv.step (hNext : s.next a = some t) : t.Inv := by
  cases a with
  | run =>
    obtain ⟨hAt, ⟨⟩⟩ := ite_none_right_eq_some.mp hNext
    exact h.goesOn hAt rfl rfl nofun fun _ => rfl
  | poll => exact h.poll hNext
  | io ok => exact h.io hNext
  | lock => exact h.lock hNext
  | close =>
    cases hAt : s.run with
    | closing c err =>
      cases err <;> rw [next, hAt] at hNext <;> cases hNext
      · exact h.closes hAt rfl rfl
      · exact h.closes hAt rfl rfl
    | _ => simp [next, hAt] at hNext
  | timer =>
    obtain ⟨hAt, ⟨⟩⟩ := ite_none_right_eq_some.mp hNext
    exact h.goesOn hAt rfl rfl nofun fun _ => rfl
  | stop =>
    cases hNext
    split
    · exact h
    · refine ⟨h.conn, h.active, fun _ => rfl, fun _ => rfl, fun conn hStop c hc => ?_, nofun,
        nofun⟩
      cases hStop
      exact h.active.trans hc
  | stopClose =>
    cases hStop : s.stop with
    | closing conn =>
      rw [next, hStop] at hNext
      cases hNext
      refine ⟨fun c hc => (h.conn c hc).imp_left (List.mem_append_right _), h.active, h.clean,
        fun _ => h.stopped (by simp [hStop]), nofun, fun _ c hc => ?_, nofun⟩
      rw [h.captured conn hStop c hc]
      exact List.mem_append_left _ List.mem_cons_self
    | _ => simp [next, hStop] at hNext
  | stopWait =>
    obtain ⟨⟨hStop, hRest⟩, ⟨⟩⟩ := ite_none_right_eq_some.mp hNext
    refine ⟨h.conn, h.active, h.clean, fun _ => h.stopped (by simp [hStop]), nofun, nofun,
      fun _ => ?_⟩
    rcases hRest with hAt | hAt
    · rw [hAt]
      rfl
    · rw [hAt]
      rfl

end Steps

theorem Inv.run (hRun : Exec (stepOf next) init as s) : s.Inv :=
  hRun.invariant (by constructor <;> simp [init, RunAt.active, RunAt.clean]) fun h => h.step

/-- **What a step of `Run` leaves alone**, and what it uses up. -/
theorem step_run (hNext : s.next a = some t) (hOfRun : a.ofRun = true) :
    t.stopped = s.stopped ∧ (s.stopped = true → t.run.stepsLeft < s.run.stepsLeft) ∧
      (s.run.clean = true ∨
        t.backoff = if a = .timer then min (s.backoff * 2) 60 else s.backoff) := by
  cases a with
  | run | timer =>
    obtain ⟨hAt, ⟨⟩⟩ := ite_none_right_eq_some.mp hNext
    exact ⟨rfl, fun _ => by simp [hAt, RunAt.stepsLeft], .inr rfl⟩
  | poll =>
    cases hAt : s.run with
    | top | polling =>
      rw [next, hAt] at hNext
      cases hNext
      exact ⟨rfl, fun hStopped => by simp [hStopped, RunAt.stepsLeft], .inr rfl⟩
    | waiting =>
      rw [next, hAt] at hNext
      obtain ⟨-, ⟨⟩⟩ := ite_none_right_eq_some.mp hNext
      exact ⟨rfl, fun _ => by simp [RunAt.stepsLeft], .inr rfl⟩
    | _ => simp [next, hAt] at hNext
  | io ok =>
    cases hAt : s.run with
    | dialling | registering | reading =>
      rw [next, hAt] at hNext
      cases ok <;> cases hNext <;> exact ⟨rfl, fun _ => by simp [RunAt.stepsLeft], .inr rfl⟩
    | _ => simp [next, hAt] at hNext
  | lock =>
    cases hAt : s.run with
    | dialled c =>
      rw [next, hAt] at hNext
      cases hNext
      split
      · exact ⟨rfl, fun _ => by simp [RunAt.stepsLeft], .inr rfl⟩
      · rename_i hOpen
        exact ⟨rfl, fun hStopped => absurd hStopped hOpen, .inr rfl⟩
    | leaving c err =>
      rw [next, hAt] at hNext
      cases hNext
      exact ⟨rfl, fun _ => by simp [RunAt.stepsLeft], .inr rfl⟩
    | _ => simp [next, hAt] at hNext
  | close =>
    cases hAt : s.run with
    | closing c err =>
      cases err <;> rw [next, hAt] at hNext <;> cases hNext
      · exact ⟨rfl, fun _ => by simp [RunAt.stepsLeft], .inl rfl⟩
      · exact ⟨rfl, fun _ => by simp [RunAt.stepsLeft], .inr rfl⟩
    | _ => simp [next, hAt] at hNext
  | stop | stopClose | stopWait => cases hOfRun

/-- The steps of `Stop` move neither `Run` nor its clock. -/
theorem step_stop (hNext : s.next a = some t) (hOfRun : a.ofRun = false) :
    t.run = s.run ∧ t.backoff = s.backoff ∧ (s.stopped = true → t.stopped = true) := by
  cases a with
  | stop =>
    cases hNext
    split
    · exact ⟨rfl, rfl, id⟩
    · exact ⟨rfl, rfl, fun _ => rfl⟩
  | stopClose =>
    cases hStop : s.stop with
    | closing conn =>
      rw [next, hStop] at hNext
      cases hNext
      exact ⟨rfl, rfl, id⟩
    | _ => simp [next, hStop] at hNext
  | stopWait =>
    obtain ⟨-, ⟨⟩⟩ := ite_none_right_eq_some.mp hNext
    exact ⟨rfl, rfl, id⟩
  | _ => cases hOfRun

theorem stepsLeft_stopped (hStopped : s.stopped = true) (hNext : s.next a = some t) :
    t.stopped = true ∧ [a].countP (·.ofRun) + t.run.stepsLeft ≤ s.run.stepsLeft := by
  rw [List.countP_singleton]
  cases hOfRun : a.ofRun with
  | true =>
    obtain ⟨hSame, hLeft, -⟩ := step_run hNext hOfRun
    have hLess := hLeft hStopped
    refine ⟨hSame.trans hStopped, ?_⟩
    rw [if_pos rfl]
    omega
  | false =>
    obtain ⟨hRun, -, hStays⟩ := step_stop hNext hOfRun
    rw [hRun, if_neg Bool.false_ne_true, Nat.zero_add]
    exact ⟨hStays hStopped, Nat.le_refl _⟩

/-- The time between two connections changes with a wait, or with a `runOnce`
that returns no error. -/
theorem backoff_step (hNext : s.next a = some t) (hOpen : t.stopped = false) :
    s.stopped = false ∧ (s.run.clean = true ∨
      t.backoff = if a = .timer then min (s.backoff * 2) 60 else s.backoff) := by
  cases hOfRun : a.ofRun with
  | true =>
    obtain ⟨hSame, -, hBackoff⟩ := step_run hNext hOfRun
    exact ⟨hSame.symm.trans hOpen, hBackoff⟩
  | false =>
    obtain ⟨-, hBackoff, hStays⟩ := step_stop hNext hOfRun
    have hTimer : a ≠ .timer := by
      rintro rfl
      cases hOfRun
    rw [if_neg hTimer]
    refine ⟨Bool.eq_false_iff.mpr fun hStopped => ?_, .inr hBackoff⟩
    cases (hStays hStopped).symm.trans hOpen

end Control

open Control

variable {s t : Control} {as bs : List ControlAction}

/-- **One control connection.** At no time are two of them open, and from when
`Stop` has returned none is. -/
theorem client_connections (hRun : Exec (stepOf next) init as s) (c d : Nat)
    (hc : c < s.opened ∧ c ∉ s.closed) (hd : d < s.opened ∧ d ∉ s.closed) :
    c = d ∧ s.stop ≠ .returned := by
  have hInv := Inv.run hRun
  have hHeld := (hInv.conn c hc.1).resolve_left hc.2
  have hHeld' := (hInv.conn d hd.1).resolve_left hd.2
  refine ⟨some.inj (hHeld.symm.trans hHeld'), fun hStop => ?_⟩
  rw [RunAt.conn_of_resting (hInv.returned hStop)] at hHeld
  cases hHeld

/-- The first connection is refused; while the second one is registered, `Stop`
reads it. -/
def reconnectRun : List ControlAction :=
  [.run, .poll, .io true, .lock, .io false, .lock, .close, .timer,
    .poll, .io true, .lock, .stop]

/-- `Stop` closes the second one, `Run` ends, and `Stop` returns. -/
def stopRun : List ControlAction :=
  [.stopClose, .io false, .lock, .close, .timer, .poll, .stopWait]

theorem client_connections_reconnecting :
    (∃ s, Exec (stepOf next) init reconnectRun s ∧
      (1 < s.opened ∧ 1 ∉ s.closed) ∧ ∀ c < s.opened, c ∉ s.closed → c = 1) ∧
    ∃ s, Exec (stepOf next) init (reconnectRun ++ stopRun) s ∧
      s.opened = 2 ∧ ∀ c < s.opened, c ∈ s.closed := by
  constructor
  · refine Exec.exists_of_runFrom (p := fun s => 1 < s.opened ∧ 1 ∉ s.closed) (by decide) ?_
    intro s hRun hOne
    exact ⟨hOne, fun c hc hOpen => (client_connections hRun c 1 ⟨hc, hOpen⟩ hOne).1⟩
  · refine Exec.exists_of_runFrom (p := fun s => s.opened = 2 ∧ s.stop = .returned)
      (by decide) ?_
    rintro s hRun ⟨hTwo, hStop⟩
    refine ⟨hTwo, fun c hc => ?_⟩
    by_contra hOpen
    exact (client_connections hRun c c ⟨hc, hOpen⟩ ⟨hc, hOpen⟩).2 hStop

/-- **`Stop` returns.** When it waits, the connection that `Run` may be reading
from is closed, and `Run` takes no more than six steps. As long as `Stop` cannot
return `Run` has a step to take. -/
theorem client_stop_returns (hRun : Exec (stepOf next) init as s) (hStop : s.stop = .waiting)
    (hLater : Exec (stepOf next) s bs t) :
    (∀ c, s.run.active = some c → c ∈ s.closed) ∧ bs.countP (·.ofRun) ≤ 6 ∧
      ((s.next .stopWait).isSome ∨ ∃ a, a.ofRun ∧ a ≠ .timer ∧ (s.next a).isSome) := by
  have hInv := Inv.run hRun
  have hStopped := hInv.stopped (by simp [hStop])
  have hCount := hLater.rank (·.run.stepsLeft) (·.ofRun) (P := fun s => s.stopped) hStopped
    stepsLeft_stopped
  have hMost : s.run.stepsLeft ≤ 6 := by cases s.run <;> simp [RunAt.stepsLeft]
  refine ⟨hInv.severed hStop, by omega, ?_⟩
  cases hAt : s.run with
  | idle | returned => exact .inl (by simp [next, hStop, hAt])
  | top | polling | waiting => exact .inr ⟨.poll, rfl, nofun, by simp [next, hAt, hStopped]⟩
  | dialling | registering | reading => exact .inr ⟨.io false, rfl, nofun, by simp [next, hAt]⟩
  | dialled | leaving => exact .inr ⟨.lock, rfl, nofun, by simp [next, hAt]⟩
  | closing _ err => exact .inr ⟨.close, rfl, nofun, by cases err <;> simp [next, hAt]⟩

theorem client_stop_returns_registering :
    ∃ s, Exec (stepOf next) init [.run, .poll, .io true, .lock, .stop, .stopClose] s ∧
      ∀ c, s.run.active = some c → c ∈ s.closed :=
  Exec.exists_of_runFrom (p := fun s => s.stop = .waiting) (by decide)
    fun _ hRun h => (client_stop_returns hRun h (.nil _)).1

/-- **The time between two connections.** Until the client is stopped it has
doubled with each wait, up to a minute, whatever became of the connections. -/
theorem client_backoff (hRun : Exec (stepOf next) init as s) (hStopped : s.stopped = false) :
    s.backoff = min (2 ^ as.count .timer) 60 := by
  induction hRun with
  | nil => rfl
  | @snoc _ _ _ a hInit hLast ih =>
    obtain ⟨hOpen, hClean | hBackoff⟩ := backoff_step hLast hStopped
    · -- a `runOnce` that returns no error has seen the client stopped
      cases hOpen.symm.trans ((Inv.run hInit).clean hClean)
    · rw [hBackoff, ih hOpen, List.count_append, pow_add, List.count_singleton]
      by_cases hTimer : a = .timer
      · rw [if_pos hTimer, if_pos (by simp [hTimer]), pow_one]
        omega
      · rw [if_neg hTimer, if_neg (by simpa using hTimer), pow_zero, mul_one]

theorem client_backoff_twice :
    ∃ s, Exec (stepOf next) init [.run, .poll, .io false, .timer, .poll, .io false, .timer] s ∧
      s.backoff = 4 :=
  Exec.exists_of_runFrom (p := fun s => s.stopped = false) (by decide)
    fun _ hRun h => client_backoff hRun h

end AltNet.Relay
