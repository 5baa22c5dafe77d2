import AltNet.Relay.History

/-!
# AltNet — the steps of a tunnel (`core/relay/server.go`)

A `handleDial` enters a token with a channel, pushes the token to the peer and
waits at the channel. A `handleTunnel` looks its token up and puts its
connection into the channel, if there is room; what becomes of it is then up to
the `handleDial`. The token can be looked up until the `handleDial` returns, that
is during the whole tunnel, and the channel has room for a connection again as
soon as one has been taken out.

Main results:

* `Server.step_turn` — what one step of the relay can do to tokens, channels
  and connections, and whether it was timely.
-/

namespace AltNet.Relay

open List

/-! ## Where a connection stands with regard to tokens -/

/-- What a `handleDial` that has entered its token is doing. -/
inductive Dial where
  /-- it is still to receive from its channel -/
  | awaiting (token : GoString) (ch : Nat)
  /-- it has received connection `t` -/
  | holding (token : GoString) (t : Nat)
  deriving DecidableEq

def Handler.dial : Handler → Option Dial
  | .pushing _ token ch | .waiting token ch => some (.awaiting token ch)
  | .answering token t | .confirming token t | .piping token t => some (.holding token t)
  | _ => none

/-- The `handleDial` of this token has come to a `return`. -/
def Handler.returned (token : GoString) (h : Handler) : Prop := h = .leaving token ∨ h = .done

/-- The `handleDial` is still to receive from this channel. -/
def Handler.awaits (ch : Nat) : Handler → Bool
  | .pushing _ _ ch' | .waiting _ ch' => ch' = ch
  | _ => false

/-- A connection that may still become one side of a tunnel: nobody has
written to it or closed it. -/
def Handler.early : Handler → Bool
  | .reading | .tunnelling _ | .handing _ => true
  | _ => false

/-- Goroutines that have nothing to do with tokens yet. -/
def Handler.plain : Handler → Bool
  | .reading | .registering _ | .greeting _ | .refused _ | .listening _ | .dropping _ | .closing _
  | .joining _ | .dialing _ | .found _ => true
  | _ => false

/-- The connection whose goroutine has left the mark, if it is about a
token. -/
def Mark.conn : Mark → Option Nat
  | .entered c _ _ => some c
  | .presented t _ | .handed t _ => some t
  | _ => none

/-- The mark is about this token being entered. -/
def Mark.enters (token : GoString) : Mark → Bool
  | .entered _ token' _ => token' = token
  | _ => false

def Mark.ofToken : Mark → Bool
  | .entered _ _ _ | .presented _ _ | .handed _ _ => true
  | _ => false

namespace Server

/-- A connection waits in the channel. -/
def filled (s : Server) (ch : Nat) : Bool := s.tunnels[ch]?.any fun q => q.buffer ≠ []

/-- A `handleDial` is still to receive from the channel. -/
def awaited (s : Server) (ch : Nat) : Bool := s.handlers.any fun h => h.awaits ch

/-- There is no room for another `OPEN`. -/
def queueFull (s : Server) (r : Nat) : Bool :=
  s.regs[r]?.any fun g => !g.out.closed && decide (16 ≤ g.out.buffer.length)

/-- A connection is handed over only to a `handleDial` that is still to receive
it, and no `handleDial` gives up while a connection waits for it. -/
def timely (s : Server) : Action → Bool
  | .handler c e =>
    match s.handlers[c]?, e with
    | some (.handing ch), .run => s.filled ch || s.awaited ch
    | some (.pushing r _ ch), .run => !s.queueFull r || !s.filled ch
    | some (.waiting _ ch), .timeout => !s.filled ch
    | _, _ => true
  | _ => true

/-- Connection `c` was answered `ERR`, and closed. -/
def Refused (s : Server) (c : Nat) : Prop :=
  ∃ k, s.conns[c]? = some k ∧ k.closed = true ∧ ∃ e : Refusal, e.line ∈ k.written

/-- The connections that have registered. -/
def regConns (s : Server) : List Nat := s.regs.map Registration.conn

/-- What tokens have to do with. -/
structure View where
  handlers : List Handler
  tunnels : List (Chan Nat 1)
  pending : GoMap GoString Nat
  regConns : List Nat
  conns : List Conn

def view (s : Server) : View := ⟨s.handlers, s.tunnels, s.pending, s.regConns, s.conns⟩

def View.filled (v : View) (ch : Nat) : Bool := v.tunnels[ch]?.any fun q => q.buffer ≠ []

def View.awaited (v : View) (ch : Nat) : Bool := v.handlers.any fun h => h.awaits ch

def Opened (ks : List Conn) (c : Nat) : Prop := ∃ k, ks[c]? = some k ∧ k.closed = false

def Shut (ks : List Conn) (c : Nat) : Prop := ∃ k, ks[c]? = some k ∧ k.closed = true

def Denied (ks : List Conn) (c : Nat) : Prop :=
  ∃ k, ks[c]? = some k ∧ k.closed = true ∧ ∃ e : Refusal, e.line ∈ k.written

/-- Lines may have been written to connections, and those of `may` may have
been closed. -/
structure Touches (may : Nat → Prop) (ks ks' : List Conn) : Prop where
  length : ks'.length = ks.length
  conns : ∀ (j : Nat) k, ks[j]? = some k → ∃ k', ks'[j]? = some k' ∧
    k.written <+: k'.written ∧ (k'.closed = k.closed ∨ may j ∧ k'.closed = true)

/-- All that a step can do to tokens, channels and connections: whether it was
timely, the marks it leaves that are about tokens, and what comes of it. -/
inductive Turn (v : View) : Bool → List Mark → View → Prop
  /-- none of the goroutines of the connections -/
  | quiet {ks} : Touches (· ∈ v.regConns) v.conns ks → Turn v true [] { v with conns := ks }
  | accept : Turn v true [] { v with
      handlers := v.handlers ++ [.reading], conns := v.conns ++ [⟨false, []⟩] }
  /-- a goroutine that no token concerns -/
  | plain {c h h' regs ks} : v.handlers[c]? = some h → h.plain = true → h'.dial = none →
      (∀ ch, h' ≠ .handing ch) → (h'.early = true → h.early = true ∧ ks = v.conns) →
      (regs = v.regConns ∨ regs = v.regConns ++ [c] ∧ h'.early = false) →
      Touches (fun j => j = c ∨ j ∈ v.regConns) v.conns ks →
      Turn v true [] { v with handlers := v.handlers.set c h', regConns := regs, conns := ks }
  /-- a token is made and entered -/
  | enter {c r token} : v.handlers[c]? = some (.found r) →
      Turn v true [.entered c token v.tunnels.length] { v with
        handlers := v.handlers.set c (.pushing r token v.tunnels.length)
        tunnels := v.tunnels ++ [Chan.make]
        pending := v.pending.insert token v.tunnels.length }
  /-- a `handleDial` goes on with what it has -/
  | onward {c h h' d ks} : v.handlers[c]? = some h → h.dial = some d → h'.dial = some d →
      Touches (fun _ => False) v.conns ks →
      Turn v true [] { v with handlers := v.handlers.set c h', conns := ks }
  /-- a `handleDial` returns before it has received anything -/
  | giveUp {c h token ch ks} : v.handlers[c]? = some h → h.dial = some (.awaiting token ch) →
      Touches (· = c) v.conns ks → Turn v (!v.filled ch) []
        { v with handlers := v.handlers.set c (.leaving token), conns := ks }
  | receive {c token ch q q' t h'} : v.handlers[c]? = some (.waiting token ch) →
      v.tunnels[ch]? = some q → q.buffer = t :: q'.buffer → h'.dial = some (.holding token t) →
      Turn v true [] { v with handlers := v.handlers.set c h', tunnels := v.tunnels.set ch q' }
  | hangUp {c h token t ks} : v.handlers[c]? = some h → h.dial = some (.holding token t) →
      Touches (fun j => j = c ∨ j = t) v.conns ks → (∀ k, v.conns[t]? = some k → Shut ks t) →
      Turn v true [] { v with handlers := v.handlers.set c (.leaving token), conns := ks }
  | leave {c token} : v.handlers[c]? = some (.leaving token) → Turn v true [] { v with
      handlers := v.handlers.set c .done, pending := v.pending.erase token }
  /-- a token is looked up and found -/
  | present {c token ch} : v.handlers[c]? = some (.tunnelling token) →
      v.pending.lookup token = some ch →
      Turn v true [.presented c token] { v with handlers := v.handlers.set c (.handing ch) }
  /-- a `TUNNEL` is turned away -/
  | reject {c h ms ks} : v.handlers[c]? = some h →
      (∃ token, h = .tunnelling token ∧ ms = [.presented c token]) ∨
        (∃ ch, h = .handing ch ∧ ms = []) →
      Touches (· = c) v.conns ks → (∀ k, v.conns[c]? = some k → Denied ks c) →
      Turn v true ms { v with handlers := v.handlers.set c .done, conns := ks }
  | handOver {c ch q q'} : v.handlers[c]? = some (.handing ch) → v.tunnels[ch]? = some q →
      q.buffer = [] → q'.buffer = [c] → Turn v (v.awaited ch) [.handed c ch]
        { v with handlers := v.handlers.set c .done, tunnels := v.tunnels.set ch q' }

variable {s s' t : Server} {a : Action} {c r : Nat} {e : Event} {h h' : Handler}

/-! ## Connections -/

variable {may may' : Nat → Prop}

theorem Touches.refl {ks : List Conn} : Touches may ks ks :=
  ⟨rfl, fun _ k hk => ⟨k, hk, prefix_rfl, .inl rfl⟩⟩

theorem Touches.none {ks : List Conn} : Touches (fun _ => False) ks ks :=
  Touches.refl

theorem Touches.trans {ks₁ ks₂ ks₃ : List Conn} (h : Touches may ks₁ ks₂)
    (h' : Touches may ks₂ ks₃) : Touches may ks₁ ks₃ := by
  refine ⟨h'.length.trans h.length, ?_⟩
  intro j k hk
  obtain ⟨k₁, hk₁, hWritten₁, hClosed₁⟩ := h.conns j k hk
  obtain ⟨k₂, hk₂, hWritten₂, hClosed₂⟩ := h'.conns j k₁ hk₁
  refine ⟨k₂, hk₂, hWritten₁.trans hWritten₂, ?_⟩
  rcases hClosed₂ with hSame | hMay
  · rw [hSame]
    exact hClosed₁
  · exact .inr hMay

theorem Touches.modify {f : Conn → Conn} (hWritten : ∀ k, k.written <+: (f k).written)
    (hClosed : ∀ k, (f k).closed = k.closed ∨ may c ∧ (f k).closed = true) :
    Touches may s.conns (s.conns.modify c f) := by
  refine ⟨length_modify .., ?_⟩
  intro j k hk
  rw [getElem?_modify, hk]
  by_cases hSame : c = j
  · subst hSame
    exact ⟨f k, by simp, hWritten k, hClosed k⟩
  · exact ⟨k, by simp [hSame], prefix_rfl, .inl rfl⟩

theorem Touches.closeConn (hMay : may c) : Touches may s.conns (s.closeConn c).conns :=
  Touches.modify (fun _ => prefix_rfl) fun _ => .inr ⟨hMay, rfl⟩

variable {g : Registration} {line token : GoString}

theorem Touches.writeLine : Touches may s.conns (s.writeLine c line).conns :=
  Touches.modify (fun _ => prefix_append _ _) fun _ => .inl rfl

theorem Touches.refuse {e : Refusal} (hMay : may c) : Touches may s.conns (s.refuse c e).conns :=
  Touches.writeLine.trans (Touches.closeConn hMay)

theorem isClosed_iff : s.isClosed c = true ↔ Shut s.conns c := by
  simp [isClosed, Shut, Option.any_eq_true]

variable {ks ks' : List Conn} (hTouches : Touches may ks ks')

include hTouches

theorem Touches.shut (hShut : Shut ks c) : Shut ks' c := by
  obtain ⟨k, hk, hClosed⟩ := hShut
  obtain ⟨k', hk', -, hCases⟩ := hTouches.conns c k hk
  refine ⟨k', hk', ?_⟩
  rcases hCases with hSame | ⟨-, hNow⟩
  · exact hSame.trans hClosed
  · exact hNow

theorem Touches.opened (hNot : ¬ may c) (hOpen : Opened ks c) : Opened ks' c := by
  obtain ⟨k, hk, hOpen⟩ := hOpen
  obtain ⟨k', hk', -, hCases⟩ := hTouches.conns c k hk
  rcases hCases with hSame | ⟨hMay, -⟩
  · exact ⟨k', hk', hSame.trans hOpen⟩
  · exact absurd hMay hNot

theorem Touches.denied (hDenied : Denied ks c) : Denied ks' c := by
  obtain ⟨k, hk, hClosed, e, hLine⟩ := hDenied
  obtain ⟨k', hk', hWritten, hCases⟩ := hTouches.conns c k hk
  refine ⟨k', hk', ?_, e, hWritten.subset hLine⟩
  rcases hCases with hSame | ⟨-, hNow⟩
  · exact hSame.trans hClosed
  · exact hNow

omit hTouches

theorem refuse_denied {k : Conn} {e : Refusal} (hk : s.conns[c]? = some k) :
    Denied (s.refuse c e).conns c := by
  refine ⟨⟨true, k.written ++ [e.line]⟩, ?_, rfl, e, by simp⟩
  simp [refuse, Server.writeLine, Server.closeConn, hk]

/-! ## What a step can do -/

/-- A goroutine that no token concerns goes on, after something that changes
at most its own connection and those of registrations. -/
theorem Turn.aside (hAt : s.handlers[c]? = some h) (hPlain : h.plain = true)
    (hDial : h'.dial = none) (hLate : h'.early = false)
    (hView : t.view = { s.view with conns := t.conns })
    (hTouches : Touches (fun j => j = c ∨ j ∈ s.regConns) s.conns t.conns) :
    Turn s.view true [] (t.goto c h').view := by
  have hGoto : (t.goto c h').view = { t.view with handlers := t.view.handlers.set c h' } := rfl
  rw [hGoto, hView]
  refine .plain hAt hPlain hDial ?_ ?_ (.inl rfl) hTouches
  · rintro ch rfl
    cases hLate
  · intro hEarly
    cases hLate.symm.trans hEarly

theorem regConns_set {g' : Registration} (hReg : s.regs[r]? = some g)
    (hRegs : t.regs = s.regs.set r g') (hConn : g'.conn = g.conn) : t.regConns = s.regConns := by
  rw [regConns, hRegs]
  exact pool_map_set hReg hConn

theorem view_of_regs (hRegs : t.regConns = s.regConns) :
    t.view = ⟨t.handlers, t.tunnels, t.pending, s.regConns, t.conns⟩ := by
  rw [← hRegs]
  rfl

/-- The registrations change, but not whose they are. -/
theorem Turn.of_regs {b : Bool} {ms : List Mark} (hRegs : t.regConns = s.regConns)
    (hTurn : Turn s.view b ms ⟨t.handlers, t.tunnels, t.pending, s.regConns, t.conns⟩) :
    Turn s.view b ms t.view := by
  rw [view_of_regs hRegs]
  exact hTurn

theorem mem_regConns (hReg : s.regs[r]? = some g) : g.conn ∈ s.regConns :=
  mem_map_of_mem (mem_of_getElem? hReg)

theorem handle_turn (hAt : s.handlers[c]? = some .reading) :
    Turn s.view true [] (s.handle c line).view := by
  unfold handle
  split
  case h_1 h hOk =>
    have hKind : h.dial = none ∧ ∀ ch, h ≠ .handing ch := by
      rcases dispatch_cases hOk with ⟨_, rfl⟩ | ⟨_, rfl⟩ | ⟨_, rfl⟩
      · exact ⟨rfl, nofun⟩
      · exact ⟨rfl, nofun⟩
      · exact ⟨rfl, nofun⟩
    exact .plain hAt rfl hKind.1 hKind.2 (fun _ => ⟨rfl, rfl⟩) (.inl rfl) Touches.refl
  case h_2 => exact .aside hAt rfl rfl rfl rfl (Touches.refuse (.inl rfl))

theorem register_turn {peerID : GoString} (hAt : s.handlers[c]? = some (.registering peerID)) :
    Turn s.view true [] (s.register c peerID).view := by
  have hRegs : (s.register c peerID).regConns = s.regConns ++ [c] := map_append
  -- all that happens to connections is that the one of an older registration is closed
  have hOld : (s.register c peerID).view = { s.view with
        handlers := s.handlers.set c (.greeting s.regs.length)
        regConns := (s.register c peerID).regConns
        conns := (s.register c peerID).conns } ∧
      Touches (fun j => j = c ∨ j ∈ s.regConns) s.conns (s.register c peerID).conns := by
    unfold register
    split
    case h_1 old hFound =>
      split
      case h_1 g hReg => exact ⟨rfl, Touches.closeConn (.inr (mem_regConns hReg))⟩
      case h_2 => exact ⟨rfl, Touches.refl⟩
    case h_2 => exact ⟨rfl, Touches.refl⟩
  rw [hOld.1]
  exact .plain hAt rfl rfl nofun nofun (.inr ⟨hRegs, rfl⟩) hOld.2

theorem drop_turn (hAt : s.handlers[c]? = some h) (hPlain : h.plain = true)
    (hDial : h'.dial = none) (hLate : h'.early = false) :
    Turn s.view true [] ((s.dropRegistration r).goto c h').view := by
  unfold dropRegistration
  split
  case h_1 => exact .aside hAt hPlain hDial hLate rfl Touches.refl
  case h_2 g hReg =>
    have hMay : g.conn = c ∨ g.conn ∈ s.regConns := .inr (mem_regConns hReg)
    dsimp only
    split
    · exact .aside hAt hPlain hDial hLate rfl (Touches.closeConn hMay)
    · exact .aside hAt hPlain hDial hLate rfl (Touches.closeConn hMay)

theorem View.filled_eq {v : View} {ch : Nat} {q : Chan Nat 1} (hChan : v.tunnels[ch]? = some q) :
    v.filled ch = decide (q.buffer ≠ []) := by
  simp only [filled, hChan, Option.any_some]

theorem queueFull_eq (hReg : s.regs[r]? = some g) :
    s.queueFull r = (!g.out.closed && decide (16 ≤ g.out.buffer.length)) := by
  simp only [queueFull, hReg, Option.any_some]

variable (hAt : s.handlers[c]? = some h)

include hAt

/-- A `handleDial` returns before it has received anything. -/
theorem Turn.refuse_dial {ch : Nat} {e : Refusal} (hDial : h.dial = some (.awaiting token ch)) :
    Turn s.view (!s.filled ch) [] ((s.refuse c e).goto c (.leaving token)).view :=
  .giveUp hAt hDial (Touches.refuse rfl)

theorem hangUp_turn {u : Nat} (hDial : h.dial = some (.holding token u)) :
    Turn s.view true [] (s.hangUp c u token).view := by
  refine .hangUp hAt hDial
    (Touches.trans (Touches.closeConn (.inl rfl)) (Touches.closeConn (.inr rfl))) ?_
  intro k hk
  have hk : s.conns[u]? = some k := hk
  refine ⟨⟨true, k.written⟩, ?_, rfl⟩
  show ((s.conns.modify c _).modify u _)[u]? = _
  by_cases hSame : c = u
  · subst hSame
    simp [hk]
  · simp [hk, hSame]

theorem Acts.turn (hActs : s.Acts c h e s') :
    Turn s.view (s.timely (.handler c e)) ((s.marks (.handler c e)).filter Mark.ofToken)
      s'.view := by
  simp only [timely, marks, hAt]
  cases hActs with
  | gone => exact .aside hAt rfl rfl rfl rfl (Touches.closeConn (.inl rfl))
  | handle => exact handle_turn hAt
  -- `handleRegister`
  | register => exact register_turn hAt
  | greet hReg =>
    exact .aside hAt rfl rfl rfl (view_of_regs (regConns_set hReg rfl rfl)) Touches.writeLine
  | giveUp | drop => exact drop_turn hAt rfl rfl rfl
  | closeAgain => exact .quiet Touches.refl
  | close hReg =>
    exact .aside hAt rfl rfl rfl (view_of_regs (regConns_set hReg rfl rfl)) Touches.refl
  | greetFails | listen | lose | join => exact .aside hAt rfl rfl rfl rfl Touches.refl
  -- `handleDial`
  | miss hNone =>
    simp only [hNone]
    exact .aside hAt rfl rfl rfl rfl (Touches.refuse (.inl rfl))
  | find hFound =>
    simp only [hFound]
    exact .aside hAt rfl rfl rfl rfl Touches.refl
  | noRandom => exact .aside hAt rfl rfl rfl rfl (Touches.refuse (.inl rfl))
  | pend => exact .enter hAt
  | push hReg hSent =>
    have hRoom := Chan.length_lt_of_sent hSent
    show Turn s.view (!s.queueFull _ || !s.filled _) [] _
    rw [queueFull_eq hReg, decide_eq_false (by omega), Bool.and_false, Bool.not_false,
      Bool.true_or]
    exact .of_regs (regConns_set hReg rfl rfl) (.onward hAt rfl rfl Touches.refl)
  | pushFull hReg hFull =>
    obtain ⟨hOpen, hLength⟩ := Chan.trySend_eq_full hFull
    show Turn s.view (!s.queueFull _ || !s.filled _) [] _
    rw [queueFull_eq hReg, hOpen, decide_eq_true hLength, Bool.not_false, Bool.true_and,
      Bool.not_true, Bool.false_or]
    exact .refuse_dial hAt rfl
  | pushLate hReg hPanic =>
    show Turn s.view (!s.queueFull _ || !s.filled _) [] _
    rw [queueFull_eq hReg, Chan.trySend_eq_panic.mp hPanic, Bool.not_true, Bool.false_and,
      Bool.not_false, Bool.true_or]
    exact .quiet Touches.refl
  | receive hChan hItem => exact .receive hAt hChan (Chan.tryReceive_eq_item hItem).2 rfl
  | timeout => exact .refuse_dial hAt rfl
  | answer | confirm => exact .onward hAt rfl rfl Touches.writeLine
  | answerFails | confirmFails | pipeEnd => exact hangUp_turn hAt rfl
  | leave => exact .leave hAt
  -- `handleTunnel`
  | badToken =>
    exact .reject hAt (.inl ⟨_, rfl, rfl⟩) (Touches.refuse rfl) fun k hk => refuse_denied hk
  | present hFound => exact .present hAt hFound
  | @handOver ch q q' hChan hSent =>
    have hRoom := Chan.length_lt_of_sent hSent
    have hEmpty : q.buffer = [] := eq_nil_of_length_eq_zero (by omega)
    have hOne : q'.buffer = [c] := by
      rw [(Chan.trySend_eq_sent hSent).2.2, hEmpty]
      rfl
    have hFilled : s.filled ch = decide (q.buffer ≠ []) := View.filled_eq (v := s.view) hChan
    simp only [hFilled, hChan, hSent, hEmpty, ne_eq, not_true_eq_false, decide_false,
      Bool.false_or]
    exact .handOver hAt hChan hEmpty hOne
  | @race ch q hChan hFull =>
    have hLength := (Chan.trySend_eq_full hFull).2
    have hSome : q.buffer ≠ [] := by
      intro hNil
      rw [hNil, length_nil] at hLength
      omega
    have hFilled : s.filled ch = decide (q.buffer ≠ []) := View.filled_eq (v := s.view) hChan
    show Turn s.view (s.filled ch || s.awaited ch) _ _
    rw [hFilled, decide_eq_true hSome, Bool.true_or]
    simp only [hChan, hFull]
    exact .reject hAt (.inr ⟨ch, rfl, rfl⟩) (Touches.refuse rfl) fun k hk => refuse_denied hk

omit hAt

/-- **One step** of the relay, as far as tokens go. -/
theorem step_turn (hStep : s.step a = some s') :
    Turn s.view (s.timely a) ((s.marks a).filter Mark.ofToken) s'.view := by
  cases step_steps hStep with
  | accept => exact .accept
  | handler hAt hActs => exact hActs.turn hAt
  | take hReg | ended hReg | writeFails hReg =>
    exact .of_regs (regConns_set hReg rfl rfl) (.quiet Touches.refl)
  | write hReg => exact .of_regs (regConns_set hReg rfl rfl) (.quiet Touches.writeLine)
  | stopAgain | stop | stopListener => exact .quiet Touches.refl
  | stopConn _ hReg => exact .quiet (Touches.closeConn (mem_regConns hReg))

end Server

end AltNet.Relay
