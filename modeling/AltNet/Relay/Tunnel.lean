import AltNet.Relay.TunnelSteps

/-!
# AltNet — tunnels and their tokens (`core/relay/server.go`)

The protocol calls a tunnel token one-time. The relay takes it out of the map
only when the `handleDial` that has made it returns, and the channel to which
connections are handed has a buffer: a second `TUNNEL` with the token is let in
once the first one has been received, a `TUNNEL` may come while the `handleDial`
gives up, and one that has looked its channel up may use it when the
`handleDial` is gone. Nobody answers or closes these connections.

What holds of the log and of the goroutines in every run is in `Books`; in a run
whose steps are all timely every `handleDial` that has made a token is at one of
three stages.

Main results:

* `Server.View.Books.step` — what every step keeps;
* `Server.View.Staged.step` — what every timely step keeps;
* `Server.Turn.sharp` — a step that is not timely leaves a connection behind;
* `tokens_one_time` — tokens are one-time exactly in the runs whose steps are
  all timely;
* `second_tunnel_orphaned` — a run with a connection left behind.
-/

namespace AltNet.Relay

open List Recorded Mark Option

namespace Server.View

/-- Each token was entered once, for one channel, and each connection has
presented at most one. There are `n` channels. -/
structure Ledger (n : Nat) (L : List Mark) : Prop where
  bound : ∀ c token ch, .entered c token ch ∈ L → ch < n
  byToken : ∀ c c' token ch ch', .entered c token ch ∈ L → .entered c' token ch' ∈ L →
    c = c' ∧ ch = ch'
  byChan : ∀ c c' token token' ch, .entered c token ch ∈ L → .entered c' token' ch ∈ L →
    c = c' ∧ token = token'
  once : ∀ t token token', .presented t token ∈ L → .presented t token' ∈ L → token = token'

/-- What the log says about connection `j`, whose goroutine stands at `h`. -/
structure At (regs : List Nat) (ks : List Conn) (L : List Mark) (j : Nat) (h : Handler) :
    Prop where
  awaiting : ∀ token ch, h.dial = some (.awaiting token ch) → .entered j token ch ∈ L
  holding : ∀ token t, h.dial = some (.holding token t) →
    ∃ ch, .handed t ch ∈ L ∧ .entered j token ch ∈ L
  handing : ∀ ch, h = .handing ch → ∃ token c, .presented j token ∈ L ∧ .entered c token ch ∈ L
  presented : ∀ token, .presented j token ∈ L →
    (∃ ch, h = .handing ch) ∨ h = .done ∧ ((∃ ch, .handed j ch ∈ L) ∨ Denied ks j)
  handed : ∀ ch, .handed j ch ∈ L →
    h = .done ∧ ∃ token c, .presented j token ∈ L ∧ .entered c token ch ∈ L
  opened : h.early = true → Opened ks j
  settled : j ∈ regs → h.early = false ∧ ∀ token, .presented j token ∉ L

/-- What holds in every run, timely or not. -/
structure Books (v : View) (L : List Mark) : Prop where
  ledger : Ledger v.tunnels.length L
  conns : ∀ (j : Nat) h, v.handlers[j]? = some h → At v.regConns v.conns L j h
  known : ∀ j, j ∈ v.regConns ∨ (∃ token, .presented j token ∈ L) ∨ (∃ ch, .handed j ch ∈ L) →
    ∃ h, v.handlers[j]? = some h
  lengths : v.conns.length = v.handlers.length
  pending : ∀ token ch, v.pending.lookup token = some ch → ∃ c, .entered c token ch ∈ L
  buffered : ∀ (ch : Nat) q t, v.tunnels[ch]? = some q → t ∈ q.buffer → .handed t ch ∈ L

/-- How far the `handleDial` that has entered this token has come, and what has
become of the connections handed over to it. -/
inductive Stage (tunnels : List (Chan Nat 1)) (ks : List Conn) (L : List Mark) (token : GoString)
    (ch : Nat) (h : Handler) : Prop
  | awaiting {q : Chan Nat 1} : h.dial = some (.awaiting token ch) → tunnels[ch]? = some q →
      (∀ t, .handed t ch ∈ L ↔ t ∈ q.buffer) → (∀ t ∈ q.buffer, Opened ks t) →
      Stage tunnels ks L token ch h
  | holding {t : Nat} : h.dial = some (.holding token t) → (∀ u, .handed u ch ∈ L ↔ u = t) →
      Stage tunnels ks L token ch h
  | returned : h.returned token → (∀ t, .handed t ch ∈ L → Shut ks t) →
      (∀ t u, .handed t ch ∈ L → .handed u ch ∈ L → t = u) → Stage tunnels ks L token ch h

/-- There are no other channels, and no other connections in them. -/
def Drains (tunnels tunnels' : List (Chan Nat 1)) : Prop :=
  tunnels'.length = tunnels.length ∧
    ∀ (ch : Nat) q t, tunnels'[ch]? = some q → t ∈ q.buffer →
      ∃ q₀, tunnels[ch]? = some q₀ ∧ t ∈ q₀.buffer

/-- Every `handleDial` that has entered a token is at some stage. -/
def Staged (v : View) (L : List Mark) : Prop :=
  ∀ c token ch, .entered c token ch ∈ L →
    ∃ h, v.handlers[c]? = some h ∧ Stage v.tunnels v.conns L token ch h

variable {v v' : View} {c r : Nat} {e : Event} {h h' : Handler} {may : Nat → Prop}
  {tunnels tunnels' : List (Chan Nat 1)} {pending : GoMap GoString Nat} {regs regs' : List Nat}
  {ks ks' : List Conn}

/-! ## The books, in every run -/

variable {L ms : List Mark} {j : Nat}

/-- A mark that is not the last one was there before. -/
theorem mem_of_mem_concat {m m' : Mark} (hMem : m ∈ L ++ [m']) (hNe : m ≠ m') : m ∈ L :=
  (mem_append.mp hMem).resolve_right fun hNew => hNe (mem_singleton.mp hNew)

/-- A connection that has presented no token. -/
theorem At.unmarked (hPresented : ∀ token, .presented j token ∉ L)
    (hHanded : ∀ ch, .handed j ch ∉ L)
    (hAwaiting : ∀ token ch, h.dial = some (.awaiting token ch) → .entered j token ch ∈ L)
    (hHolding : ∀ token t, h.dial = some (.holding token t) →
      ∃ ch, .handed t ch ∈ L ∧ .entered j token ch ∈ L)
    (hHanding : ∀ ch, h ≠ .handing ch) (hOpened : h.early = true → Opened ks j)
    (hSettled : j ∈ regs → h.early = false) : At regs ks L j h where
  awaiting := hAwaiting
  holding := hHolding
  handing ch hEq := absurd hEq (hHanding ch)
  presented token hMem := absurd hMem (hPresented token)
  handed ch hMem := absurd hMem (hHanded ch)
  opened := hOpened
  settled hReg := ⟨hSettled hReg, hPresented⟩

theorem At.no_marks (hAt : At regs ks L j h) (hHanding : ∀ ch, h ≠ .handing ch)
    (hDone : h ≠ .done) : (∀ token, .presented j token ∉ L) ∧ ∀ ch, .handed j ch ∉ L := by
  refine ⟨?_, ?_⟩
  · intro token hMem
    rcases hAt.presented token hMem with ⟨ch, hEq⟩ | ⟨hEq, -⟩
    · exact hHanding ch hEq
    · exact hDone hEq
  · intro ch hMem
    exact hDone (hAt.handed ch hMem).1

/-- Another goroutine takes a step. -/
theorem At.keep (hAt : At regs ks L j h) (hMarks : ∀ m ∈ ms, m.conn ≠ some j)
    (hRegs : j ∈ regs' → j ∈ regs) (hDenied : Denied ks j → Denied ks' j)
    (hOpen : h.early = true → Opened ks j → Opened ks' j) : At regs' ks' (L ++ ms) j h := by
  have hLeft : ∀ {m}, m ∈ L → m ∈ L ++ ms := mem_append_left ms
  have hOld : ∀ {m : Mark}, m ∈ L ++ ms → m.conn = some j → m ∈ L := by
    intro m hMem hConn
    rcases mem_append.mp hMem with hOld | hNew
    · exact hOld
    · exact absurd hConn (hMarks m hNew)
  constructor
  · intro token ch hDial
    exact hLeft (hAt.awaiting token ch hDial)
  · intro token t hDial
    obtain ⟨ch, hHanded, hEntered⟩ := hAt.holding token t hDial
    exact ⟨ch, hLeft hHanded, hLeft hEntered⟩
  · intro ch hEq
    obtain ⟨token, c, hPresented, hEntered⟩ := hAt.handing ch hEq
    exact ⟨token, c, hLeft hPresented, hLeft hEntered⟩
  · intro token hMem
    rcases hAt.presented token (hOld hMem rfl) with hHanding | ⟨hDone, ⟨ch, hHanded⟩ | hNow⟩
    · exact .inl hHanding
    · exact .inr ⟨hDone, .inl ⟨ch, hLeft hHanded⟩⟩
    · exact .inr ⟨hDone, .inr (hDenied hNow)⟩
  · intro ch hMem
    obtain ⟨hDone, token, c, hPresented, hEntered⟩ := hAt.handed ch (hOld hMem rfl)
    exact ⟨hDone, token, c, hLeft hPresented, hLeft hEntered⟩
  · intro hEarly
    exact hOpen hEarly (hAt.opened hEarly)
  · intro hReg
    obtain ⟨hLate, hNone⟩ := hAt.settled (hRegs hReg)
    exact ⟨hLate, fun token hMem => hNone token (hOld hMem rfl)⟩

variable {b : Bool} {ch n t : Nat} {token token' : GoString}

/-- A connection that was handed over: its goroutine is done, and it is not
the connection of a registration. -/
theorem Books.handed_done (hBooks : v.Books L) (hHanded : .handed t ch ∈ L) :
    v.handlers[t]? = some .done ∧ t ∉ v.regConns ∧
      ∃ token c, .presented t token ∈ L ∧ .entered c token ch ∈ L := by
  obtain ⟨h, hAt⟩ := hBooks.known t (.inr (.inr ⟨ch, hHanded⟩))
  have hThere := hBooks.conns t h hAt
  obtain ⟨rfl, token, c, hPresented, hEntered⟩ := hThere.handed ch hHanded
  exact ⟨hAt, fun hReg => (hThere.settled hReg).2 token hPresented, token, c, hPresented, hEntered⟩

/-- A goroutine takes a step: what has to be shown of it, and what carries
over for the others. -/
theorem Books.advance (hBooks : v.Books L) (hAt : v.handlers[c]? = some h)
    (hMarks : ∀ m ∈ ms, m.conn = some c) (hRegs : ∀ j ∈ regs, j ∈ v.regConns ∨ j = c)
    (hTouches : Touches may v.conns ks)
    (hMay : ∀ (j : Nat) k, v.handlers[j]? = some k → j ≠ c → may j → k.early = false)
    (hLedger : Ledger tunnels.length (L ++ ms)) (hSelf : At regs ks (L ++ ms) c h')
    (hPending : ∀ token ch, pending.lookup token = some ch → ∃ c, .entered c token ch ∈ L ++ ms)
    (hBuffered : ∀ (ch : Nat) q t, tunnels[ch]? = some q → t ∈ q.buffer →
      .handed t ch ∈ L ++ ms) :
    Books ⟨v.handlers.set c h', tunnels, pending, regs, ks⟩ (L ++ ms) := by
  have hSet : ∀ {j : Nat} {k}, v.handlers[j]? = some k →
      ∃ k', (v.handlers.set c h')[j]? = some k' := by
    intro j k hj
    by_cases hSame : j = c
    · subst hSame
      exact ⟨h', pool_set_self hAt⟩
    · exact ⟨k, pool_set_other hSame hj⟩
  have hNew : ∀ {m : Mark} {j : Nat}, m ∈ L ++ ms → m.conn = some j → m ∈ L ∨ j = c := by
    intro m j hMem hConn
    rcases mem_append.mp hMem with hOld | hNew
    · exact .inl hOld
    · exact .inr (some.inj (hConn.symm.trans (hMarks m hNew)))
  refine ⟨hLedger, ?_, ?_, ?_, hPending, hBuffered⟩
  · intro j k hj
    rcases pool_set_cases hj with ⟨rfl, rfl⟩ | ⟨hOther, hOld⟩
    · exact hSelf
    refine (hBooks.conns j k hOld).keep ?_ ?_ hTouches.denied ?_
    · intro m hm hConn
      exact hOther (some.inj (hConn.symm.trans (hMarks m hm)))
    · intro hReg
      exact (hRegs j hReg).resolve_right hOther
    · exact fun hEarly => hTouches.opened fun hj =>
        Bool.false_ne_true ((hMay j k hOld hOther hj).symm.trans hEarly)
  · intro j hKnown
    by_cases hSame : j = c
    · subst hSame
      exact hSet hAt
    have hKnown' : j ∈ v.regConns ∨ (∃ token, .presented j token ∈ L) ∨
        ∃ ch, .handed j ch ∈ L := by
      rcases hKnown with hReg | ⟨token, hMem⟩ | ⟨ch, hMem⟩
      · exact .inl ((hRegs j hReg).resolve_right hSame)
      · exact .inr (.inl ⟨token, (hNew hMem rfl).resolve_right hSame⟩)
      · exact .inr (.inr ⟨ch, (hNew hMem rfl).resolve_right hSame⟩)
    obtain ⟨k, hk⟩ := hBooks.known j hKnown'
    exact hSet hk
  · rw [hTouches.length, length_set]
    exact hBooks.lengths

theorem Books.conn_of_handler (hBooks : v.Books L) (hAt : v.handlers[c]? = some h) :
    ∃ k, v.conns[c]? = some k := by
  have hLt := (List.getElem?_eq_some_iff.mp hAt).1
  rw [← hBooks.lengths] at hLt
  exact ⟨_, getElem?_eq_getElem hLt⟩

theorem Drains.refl : Drains tunnels tunnels := ⟨rfl, fun _ q _ hChan hMem => ⟨q, hChan, hMem⟩⟩

/-- A goroutine that has presented no token takes a step and leaves no
mark. -/
theorem Books.unmarked (hBooks : v.Books L) (hAt : v.handlers[c]? = some h)
    (hHanding : ∀ ch, h ≠ .handing ch) (hDone : h ≠ .done) (hHanding' : ∀ ch, h' ≠ .handing ch)
    (hTunnels : Drains v.tunnels tunnels)
    (hPending : ∀ token ch, pending.lookup token = some ch → v.pending.lookup token = some ch)
    (hRegs : ∀ j ∈ regs, j ∈ v.regConns ∨ j = c) (hTouches : Touches may v.conns ks)
    (hMay : ∀ (j : Nat) k, v.handlers[j]? = some k → j ≠ c → may j → k.early = false)
    (hAwaiting : ∀ token ch, h'.dial = some (.awaiting token ch) → .entered c token ch ∈ L)
    (hHolding : ∀ token t, h'.dial = some (.holding token t) →
      ∃ ch, .handed t ch ∈ L ∧ .entered c token ch ∈ L)
    (hOpened : h'.early = true → Opened ks c) (hSettled : c ∈ regs → h'.early = false) :
    Books ⟨v.handlers.set c h', tunnels, pending, regs, ks⟩ L := by
  obtain ⟨hPresented, hHanded⟩ := (hBooks.conns c h hAt).no_marks hHanding hDone
  have hNil : L ++ [] = L := append_nil L
  rw [← hNil]
  refine hBooks.advance hAt nofun hRegs hTouches hMay ?_ ?_ ?_ ?_
  · rw [hTunnels.1, hNil]
    exact hBooks.ledger
  · rw [hNil]
    exact .unmarked hPresented hHanded hAwaiting hHolding hHanding' hOpened hSettled
  · intro token ch hFound
    rw [hNil]
    exact hBooks.pending token ch (hPending token ch hFound)
  · intro ch q t hChan hMem
    obtain ⟨q₀, hChan₀, hMem₀⟩ := hTunnels.2 ch q t hChan hMem
    rw [hNil]
    exact hBooks.buffered ch q₀ t hChan₀ hMem₀

theorem Books.quiet (hBooks : v.Books L) (hTouches : Touches (· ∈ v.regConns) v.conns ks) :
    Books { v with conns := ks } L where
  __ := hBooks
  conns j h hj := by
    have hAt := hBooks.conns j h hj
    rw [← append_nil L]
    exact hAt.keep nofun id hTouches.denied fun hEarly => hTouches.opened fun hReg =>
      Bool.false_ne_true ((hAt.settled hReg).1.symm.trans hEarly)
  lengths := hTouches.length.trans hBooks.lengths

theorem Books.accept (hBooks : v.Books L) :
    Books { v with
      handlers := v.handlers ++ [.reading], conns := v.conns ++ [⟨false, []⟩] } L := by
  -- nothing is known yet about the new connection
  have hNew : ∀ {j}, j = v.handlers.length → ¬ (j ∈ v.regConns ∨
      (∃ token, .presented j token ∈ L) ∨ ∃ ch, .handed j ch ∈ L) := by
    rintro j rfl hKnown
    obtain ⟨h, hAt⟩ := hBooks.known _ hKnown
    exact absurd (List.getElem?_eq_some_iff.mp hAt).1 (Nat.lt_irrefl _)
  refine ⟨hBooks.ledger, ?_, ?_, ?_, hBooks.pending, hBooks.buffered⟩
  · intro j h hj
    rcases pool_append_cases hj with ⟨hLength, rfl⟩ | ⟨-, hOld⟩
    · have hNone := hNew hLength
      push Not at hNone
      refine .unmarked hNone.2.1 hNone.2.2 nofun nofun nofun ?_ fun hReg => absurd hReg hNone.1
      intro _
      refine ⟨⟨false, []⟩, ?_, rfl⟩
      rw [hLength, ← hBooks.lengths]
      exact pool_append_self
    · rw [← append_nil L]
      refine (hBooks.conns j h hOld).keep nofun id ?_ ?_
      · exact fun ⟨k, hk, hDenied⟩ => ⟨k, pool_append_old hk, hDenied⟩
      · exact fun _ ⟨k, hk, hOpen⟩ => ⟨k, pool_append_old hk, hOpen⟩
  · intro j hKnown
    obtain ⟨h, hj⟩ := hBooks.known j hKnown
    exact ⟨h, pool_append_old hj⟩
  · rw [length_append, length_append, hBooks.lengths]
    rfl

/-- A token is entered that has not been there before. -/
theorem Ledger.enter (hLedger : Ledger n L) (hFresh : ∀ c ch, .entered c token ch ∉ L) :
    Ledger (n + 1) (L ++ [.entered c token n]) := by
  have hNew : ∀ {c' token' ch'}, .entered c' token' ch' ∈ L ++ [entered c token n] →
      (.entered c' token' ch' ∈ L ∧ token' ≠ token ∧ ch' < n) ∨
        (c' = c ∧ token' = token ∧ ch' = n) := by
    intro c' token' ch' hMem
    rcases mem_append.mp hMem with hOld | hNew
    · refine .inl ⟨hOld, ?_, hLedger.bound _ _ _ hOld⟩
      rintro rfl
      exact hFresh c' ch' hOld
    · exact .inr (entered.inj (mem_singleton.mp hNew))
  constructor
  · intro c' token' ch' hMem
    rcases hNew hMem with ⟨-, -, hLt⟩ | ⟨-, -, rfl⟩
    · omega
    · omega
  · intro c₁ c₂ token' ch₁ ch₂ h₁ h₂
    rcases hNew h₁ with ⟨hOld₁, hNe, -⟩ | ⟨rfl, rfl, rfl⟩
    · rcases hNew h₂ with ⟨hOld₂, -, -⟩ | ⟨-, hEq, -⟩
      · exact hLedger.byToken _ _ _ _ _ hOld₁ hOld₂
      · exact absurd hEq hNe
    · rcases hNew h₂ with ⟨-, hNe, -⟩ | ⟨rfl, -, rfl⟩
      · exact absurd rfl hNe
      · exact ⟨rfl, rfl⟩
  · intro c₁ c₂ token₁ token₂ ch h₁ h₂
    rcases hNew h₁ with ⟨hOld₁, -, hLt⟩ | ⟨rfl, rfl, rfl⟩
    · rcases hNew h₂ with ⟨hOld₂, -, -⟩ | ⟨-, -, rfl⟩
      · exact hLedger.byChan _ _ _ _ _ hOld₁ hOld₂
      · omega
    · rcases hNew h₂ with ⟨-, -, hLt⟩ | ⟨rfl, rfl, -⟩
      · omega
      · exact ⟨rfl, rfl⟩
  · intro t token₁ token₂ h₁ h₂
    exact hLedger.once t token₁ token₂ (mem_of_mem_concat h₁ nofun) (mem_of_mem_concat h₂ nofun)

/-- A mark of another kind is left. -/
theorem Ledger.mark {m : Mark} (hLedger : Ledger n L)
    (hKind : ∀ c token ch, m ≠ .entered c token ch)
    (hOnce : ∀ t token, m = .presented t token → ∀ token', .presented t token' ∉ L) :
    Ledger n (L ++ [m]) := by
  have hSame : ∀ {c token ch}, .entered c token ch ∈ L ++ [m] → .entered c token ch ∈ L :=
    fun hMem => mem_of_mem_concat hMem (hKind _ _ _).symm
  constructor
  · intro c token ch hMem
    exact hLedger.bound c token ch (hSame hMem)
  · intro c c' token ch ch' h₁ h₂
    exact hLedger.byToken c c' token ch ch' (hSame h₁) (hSame h₂)
  · intro c c' token token' ch h₁ h₂
    exact hLedger.byChan c c' token token' ch (hSame h₁) (hSame h₂)
  · intro t token token' h₁ h₂
    rcases mem_append.mp h₁ with hOld₁ | hNew₁
    · rcases mem_append.mp h₂ with hOld₂ | hNew₂
      · exact hLedger.once t token token' hOld₁ hOld₂
      · exact absurd hOld₁ (hOnce t token' (mem_singleton.mp hNew₂).symm token)
    rcases mem_append.mp h₂ with hOld₂ | hNew₂
    · exact absurd hOld₂ (hOnce t token (mem_singleton.mp hNew₁).symm token')
    · have hEq := (mem_singleton.mp hNew₁).trans (mem_singleton.mp hNew₂).symm
      exact (presented.inj hEq).2

theorem plain_ne (hPlain : h.plain = true) : (∀ ch, h ≠ .handing ch) ∧ h ≠ .done := by
  refine ⟨?_, ?_⟩
  · rintro ch rfl
    cases hPlain
  · rintro rfl
    cases hPlain

theorem dial_ne {d : Dial} (hDial : h.dial = some d) :
    (∀ ch, h ≠ .handing ch) ∧ h ≠ .done ∧ h.early = false := by
  refine ⟨?_, ?_, ?_⟩
  · rintro ch rfl
    cases hDial
  · rintro rfl
    cases hDial
  · cases h with
    | reading | tunnelling | handing => cases hDial
    | _ => rfl

theorem dial_of_awaits (hAwaits : h.awaits ch = true) :
    ∃ token, h.dial = some (.awaiting token ch) := by
  cases h with
  | pushing r token ch' | waiting token ch' =>
    obtain rfl : ch' = ch := of_decide_eq_true hAwaits
    exact ⟨token, rfl⟩
  | _ => cases hAwaits

theorem awaits_of_dial (hDial : h.dial = some (.awaiting token ch)) : h.awaits ch = true := by
  cases h with
  | pushing r token' ch' | waiting token' ch' =>
    obtain ⟨-, rfl⟩ := Dial.awaiting.inj (some.inj hDial)
    exact decide_eq_true rfl
  | _ => cases hDial

/-- A `handleDial` that has entered its token takes a step. -/
theorem Books.dial (hBooks : v.Books L) (hAt : v.handlers[c]? = some h)
    (hHanding : ∀ ch, h ≠ .handing ch) (hDone : h ≠ .done) (hLate : h'.early = false)
    (hTunnels : Drains v.tunnels tunnels)
    (hPending : ∀ token ch, pending.lookup token = some ch → v.pending.lookup token = some ch)
    (hTouches : Touches may v.conns ks) (hMay : ∀ j, may j → j = c ∨ ∃ ch, .handed j ch ∈ L)
    (hAwaiting : ∀ token ch, h'.dial = some (.awaiting token ch) → .entered c token ch ∈ L)
    (hHolding : ∀ token t, h'.dial = some (.holding token t) →
      ∃ ch, .handed t ch ∈ L ∧ .entered c token ch ∈ L) :
    Books ⟨v.handlers.set c h', tunnels, pending, v.regConns, ks⟩ L := by
  refine hBooks.unmarked hAt hHanding hDone ?_ hTunnels hPending (fun _ hj => .inl hj) hTouches ?_
    hAwaiting hHolding ?_ fun _ => hLate
  · rintro ch rfl
    cases hLate
  · intro j k hj hOther hMayJ
    obtain ⟨ch, hHanded⟩ := (hMay j hMayJ).resolve_left hOther
    cases hj.symm.trans (hBooks.handed_done hHanded).1
    rfl
  · intro hEarly
    cases hLate.symm.trans hEarly

theorem Ledger.present (hLedger : Ledger n L) (hOnce : ∀ token, .presented c token ∉ L) :
    Ledger n (L ++ [.presented c token]) := by
  refine hLedger.mark nofun ?_
  intro t token' hEq
  obtain ⟨rfl, -⟩ := presented.inj hEq
  exact hOnce

/-- A `handleTunnel` takes a step. -/
theorem Books.tunnel (hBooks : v.Books L) (hAt : v.handlers[c]? = some h)
    (hMarks : ∀ m ∈ ms, m.conn = some c) (hLedger : Ledger v.tunnels.length (L ++ ms))
    (hLength : tunnels.length = v.tunnels.length)
    (hBuffered : ∀ (ch : Nat) q t, tunnels[ch]? = some q → t ∈ q.buffer → .handed t ch ∈ L ++ ms)
    (hTouches : Touches may v.conns ks) (hMay : ∀ j, may j → j = c)
    (hSelf : At v.regConns ks (L ++ ms) c h') :
    Books ⟨v.handlers.set c h', tunnels, v.pending, v.regConns, ks⟩ (L ++ ms) := by
  refine hBooks.advance hAt hMarks (fun _ hj => .inl hj) hTouches ?_ ?_ hSelf ?_ hBuffered
  · intro j k _ hOther hj
    exact absurd (hMay j hj) hOther
  · rw [hLength]
    exact hLedger
  · intro token' ch hFound
    obtain ⟨d, hMem⟩ := hBooks.pending token' ch hFound
    exact ⟨d, mem_append_left _ hMem⟩

/-- Where a `TUNNEL` has been turned away. -/
theorem At.reject (hHanded : ∀ ch, .handed c ch ∉ L)
    (hPresented : c ∈ regs → ∀ token, .presented c token ∉ L) (hDenied : Denied ks c) :
    At regs ks L c .done where
  awaiting := nofun
  holding := nofun
  handing := nofun
  presented _ _ := .inr ⟨rfl, .inr hDenied⟩
  handed ch hMem := absurd hMem (hHanded ch)
  opened := nofun
  settled hReg := ⟨rfl, hPresented hReg⟩

variable (hBooks : v.Books L)

include hBooks

theorem Books.buffered_append (ch : Nat) (q : Chan Nat 1) (t : Nat)
    (hChan : v.tunnels[ch]? = some q) (hMem : t ∈ q.buffer) : .handed t ch ∈ L ++ ms :=
  mem_append_left ms (hBooks.buffered ch q t hChan hMem)

theorem Books.settled (hAt : v.handlers[c]? = some h) (hReg : c ∈ v.regConns) : h.early = false :=
  ((hBooks.conns c h hAt).settled hReg).1

theorem Books.plain (hAt : v.handlers[c]? = some h) (hPlain : h.plain = true)
    (hDial : h'.dial = none) (hHanding : ∀ ch, h' ≠ .handing ch)
    (hEarly : h'.early = true → h.early = true ∧ ks = v.conns)
    (hRegs : regs = v.regConns ∨ regs = v.regConns ++ [c] ∧ h'.early = false)
    (hTouches : Touches (fun j => j = c ∨ j ∈ v.regConns) v.conns ks) :
    Books { v with handlers := v.handlers.set c h', regConns := regs, conns := ks } L := by
  refine hBooks.unmarked hAt (plain_ne hPlain).1 (plain_ne hPlain).2 hHanding .refl
    (fun _ _ => id) ?_ hTouches ?_ ?_ ?_ ?_ ?_
  · intro j hj
    rcases hRegs with rfl | ⟨rfl, -⟩
    · exact .inl hj
    · rw [mem_append, mem_singleton] at hj
      exact hj
  · intro j k hj hOther hMay
    exact hBooks.settled hj (hMay.resolve_left hOther)
  · intro token ch hSome
    cases hDial.symm.trans hSome
  · intro token t hSome
    cases hDial.symm.trans hSome
  · intro hEarly'
    obtain ⟨hWas, rfl⟩ := hEarly hEarly'
    exact (hBooks.conns c h hAt).opened hWas
  · intro hReg
    rcases hRegs with rfl | ⟨-, hLate⟩
    · by_contra hNow
      have hEarly' := hEarly (Bool.not_eq_false _ ▸ hNow)
      exact Bool.false_ne_true ((hBooks.settled hAt hReg).symm.trans hEarly'.1)
    · exact hLate

theorem Books.enter (hAt : v.handlers[c]? = some (.found r))
    (hFresh : ∀ c ch, .entered c token ch ∉ L) :
    Books { v with
      handlers := v.handlers.set c (.pushing r token v.tunnels.length)
      tunnels := v.tunnels ++ [Chan.make]
      pending := v.pending.insert token v.tunnels.length }
      (L ++ [.entered c token v.tunnels.length]) := by
  obtain ⟨hPresented, hHanded⟩ := (hBooks.conns c _ hAt).no_marks nofun nofun
  refine hBooks.advance hAt (forall_mem_singleton.mpr rfl)
    (fun _ hj => .inl hj) Touches.none nofun ?_ ?_ ?_ ?_
  · rw [length_append]
    exact hBooks.ledger.enter hFresh
  · refine .unmarked ?_ ?_ ?_ nofun nofun nofun fun _ => rfl
    · exact fun token' hMem => hPresented token' (mem_of_mem_concat hMem nofun)
    · exact fun ch hMem => hHanded ch (mem_of_mem_concat hMem nofun)
    · intro token' ch hDial
      obtain ⟨rfl, rfl⟩ := Dial.awaiting.inj (some.inj hDial)
      exact mem_concat_self
  · intro token' ch hFound
    rcases GoMap.lookup_insert_cases hFound with ⟨rfl, rfl⟩ | ⟨-, hOld⟩
    · exact ⟨c, mem_concat_self⟩
    · obtain ⟨c', hMem⟩ := hBooks.pending token' ch hOld
      exact ⟨c', mem_append_left _ hMem⟩
  · intro ch q t hChan hMem
    rcases pool_append_cases hChan with ⟨-, rfl⟩ | ⟨-, hOld⟩
    · cases hMem
    · exact mem_append_left _ (hBooks.buffered ch q t hOld hMem)

theorem Books.receive {q q' : Chan Nat 1} (hAt : v.handlers[c]? = some (.waiting token ch))
    (hChan : v.tunnels[ch]? = some q) (hBuffer : q.buffer = t :: q'.buffer)
    (hDial : h'.dial = some (.holding token t)) :
    Books { v with handlers := v.handlers.set c h', tunnels := v.tunnels.set ch q' } L := by
  refine hBooks.dial hAt nofun nofun (dial_ne hDial).2.2 ?_
    (fun _ _ => id) Touches.none nofun ?_ ?_
  · refine ⟨length_set, ?_⟩
    intro ch' q₁ u hChan' hMem
    rcases pool_set_cases hChan' with ⟨rfl, rfl⟩ | ⟨-, hOld⟩
    · refine ⟨q, hChan, ?_⟩
      rw [hBuffer]
      exact mem_cons_of_mem t hMem
    · exact ⟨q₁, hOld, hMem⟩
  · intro token' ch' hSome
    cases hDial.symm.trans hSome
  · intro token' u hSome
    obtain ⟨rfl, rfl⟩ := Dial.holding.inj (some.inj (hDial.symm.trans hSome))
    refine ⟨ch, hBooks.buffered ch q t hChan ?_, (hBooks.conns c _ hAt).awaiting token ch rfl⟩
    rw [hBuffer]
    exact mem_cons_self

theorem Books.present (hAt : v.handlers[c]? = some (.tunnelling token))
    (hFound : v.pending.lookup token = some ch) :
    Books { v with handlers := v.handlers.set c (.handing ch) } (L ++ [.presented c token]) := by
  have hOld := hBooks.conns c _ hAt
  obtain ⟨hPresented, hHanded⟩ := hOld.no_marks nofun nofun
  have hNew : .presented c token ∈ L ++ [presented c token] := mem_concat_self
  refine hBooks.tunnel hAt (forall_mem_singleton.mpr rfl)
    (hBooks.ledger.present hPresented) rfl hBooks.buffered_append Touches.none nofun ?_
  obtain ⟨d, hEntered⟩ := hBooks.pending token ch hFound
  constructor
  · nofun
  · nofun
  · intro ch' hEq
    obtain rfl := Handler.handing.inj hEq
    exact ⟨token, d, hNew, mem_append_left _ hEntered⟩
  · exact fun token' _ => .inl ⟨ch, rfl⟩
  · intro ch' hMem
    exact absurd (mem_of_mem_concat hMem nofun) (hHanded ch')
  · exact fun _ => hOld.opened rfl
  · intro hReg
    cases (hOld.settled hReg).1

/-- A `TUNNEL` is turned away. -/
theorem Books.reject (hAt : v.handlers[c]? = some h)
    (hKind : (∃ token, h = .tunnelling token ∧
      ms = [.presented c token]) ∨ ∃ ch, h = .handing ch ∧ ms = [])
    (hTouches : Touches (· = c) v.conns ks) (hDenied : ∀ k, v.conns[c]? = some k → Denied ks c) :
    Books { v with handlers := v.handlers.set c .done, conns := ks } (L ++ ms) := by
  have hOld := hBooks.conns c h hAt
  obtain ⟨k, hk⟩ := hBooks.conn_of_handler hAt
  have hNow := hDenied k hk
  rcases hKind with ⟨token, rfl, rfl⟩ | ⟨ch, rfl, rfl⟩
  · obtain ⟨hPresented, hHanded⟩ := hOld.no_marks nofun nofun
    refine hBooks.tunnel hAt (forall_mem_singleton.mpr rfl) (hBooks.ledger.present hPresented) rfl
      hBooks.buffered_append hTouches (fun _ hj => hj) (.reject ?_ ?_ hNow)
    · exact fun ch hMem => hHanded ch (mem_of_mem_concat hMem nofun)
    · intro hReg
      cases (hOld.settled hReg).1
  · refine hBooks.tunnel hAt nofun ?_ rfl hBooks.buffered_append hTouches (fun _ hj => hj)
      (.reject ?_ ?_ hNow)
    · rw [append_nil]
      exact hBooks.ledger
    · intro ch' hMem
      rw [append_nil] at hMem
      cases (hOld.handed ch' hMem).1
    · intro hReg
      cases (hOld.settled hReg).1

theorem Books.handOver {q' : Chan Nat 1} (hAt : v.handlers[c]? = some (.handing ch))
    (hOne : q'.buffer = [c]) :
    Books { v with handlers := v.handlers.set c .done, tunnels := v.tunnels.set ch q' }
      (L ++ [.handed c ch]) := by
  have hOld := hBooks.conns c _ hAt
  have hNew : .handed c ch ∈ L ++ [handed c ch] := mem_concat_self
  refine hBooks.tunnel hAt (forall_mem_singleton.mpr rfl)
    (hBooks.ledger.mark nofun nofun) length_set ?_ Touches.none nofun ?_
  · intro ch' q₁ t hChan' hMem
    rcases pool_set_cases hChan' with ⟨rfl, rfl⟩ | ⟨-, hOther⟩
    · rw [hOne] at hMem
      obtain rfl := mem_singleton.mp hMem
      exact hNew
    · exact mem_append_left _ (hBooks.buffered ch' q₁ t hOther hMem)
  · obtain ⟨token, d, hPresented, hEntered⟩ := hOld.handing ch rfl
    constructor
    · nofun
    · nofun
    · nofun
    · exact fun _ _ => .inr ⟨rfl, .inl ⟨ch, hNew⟩⟩
    · intro ch' hMem
      rcases mem_append.mp hMem with hBefore | hNow
      · cases (hOld.handed ch' hBefore).1
      · obtain ⟨-, rfl⟩ := handed.inj (mem_singleton.mp hNow)
        exact ⟨rfl, token, d, mem_append_left _ hPresented, mem_append_left _ hEntered⟩
    · nofun
    · intro hReg
      cases (hOld.settled hReg).1

/-- **One step**, timely or not, in which tokens are fresh. -/
theorem Books.step (hTurn : Turn v b ms v')
    (hFresh : ∀ c token ch, .entered c token ch ∈ ms → ∀ c' ch', .entered c' token ch' ∉ L) :
    v'.Books (L ++ ms) := by
  cases hTurn with
  | quiet hTouches =>
    rw [append_nil]
    exact hBooks.quiet hTouches
  | accept =>
    rw [append_nil]
    exact hBooks.accept
  | plain hAt hPlain hDial hHanding hEarly hRegs hTouches =>
    rw [append_nil]
    exact hBooks.plain hAt hPlain hDial hHanding hEarly hRegs hTouches
  | enter hAt => exact hBooks.enter hAt (hFresh _ _ _ (mem_singleton.mpr rfl))
  | onward hAt hDial hDial' hTouches =>
    rw [append_nil]
    have hOld := hBooks.conns _ _ hAt
    refine hBooks.dial hAt (dial_ne hDial).1 (dial_ne hDial).2.1 (dial_ne hDial').2.2 .refl
      (fun _ _ => id) hTouches nofun ?_ ?_
    · rw [hDial', ← hDial]
      exact hOld.awaiting
    · rw [hDial', ← hDial]
      exact hOld.holding
  | giveUp hAt hDial hTouches =>
    rw [append_nil]
    exact hBooks.dial hAt (dial_ne hDial).1 (dial_ne hDial).2.1 rfl .refl (fun _ _ => id) hTouches
      (fun _ hj => .inl hj) nofun nofun
  | receive hAt hChan hBuffer hDial =>
    rw [append_nil]
    exact hBooks.receive hAt hChan hBuffer hDial
  | hangUp hAt hDial hTouches hShut =>
    rw [append_nil]
    refine hBooks.dial hAt (dial_ne hDial).1 (dial_ne hDial).2.1 rfl .refl (fun _ _ => id) hTouches
      ?_ nofun nofun
    rintro j (rfl | rfl)
    · exact .inl rfl
    · obtain ⟨ch, hHanded, -⟩ := (hBooks.conns _ _ hAt).holding _ _ hDial
      exact .inr ⟨ch, hHanded⟩
  | leave hAt =>
    rw [append_nil]
    exact hBooks.dial hAt nofun nofun rfl .refl
      (fun _ _ hFound => (GoMap.lookup_of_lookup_erase hFound).2) Touches.none nofun nofun nofun
  | present hAt hFound => exact hBooks.present hAt hFound
  | reject hAt hKind hTouches hDenied => exact hBooks.reject hAt hKind hTouches hDenied
  | handOver hAt hChan hEmpty hOne => exact hBooks.handOver hAt hOne

omit hBooks

/-! ## The stages, if every step is timely -/

variable {L' : List Mark} {token : GoString} {ch : Nat}

/-- A step that concerns neither the channel nor the connections handed over
through it. -/
theorem Stage.keep (hStage : Stage tunnels ks L token ch h) (hChan : tunnels'[ch]? = tunnels[ch]?)
    (hHanded : ∀ t, .handed t ch ∈ L' ↔ .handed t ch ∈ L) (hShut : ∀ t, Shut ks t → Shut ks' t)
    (hOpen : ∀ t, .handed t ch ∈ L → Opened ks t → Opened ks' t) :
    Stage tunnels' ks' L' token ch h := by
  cases hStage with
  | awaiting hDial hq hBuffer hOpened =>
    refine .awaiting hDial (hChan.trans hq) (fun t => (hHanded t).trans (hBuffer t)) ?_
    intro t hMem
    exact hOpen t ((hBuffer t).mpr hMem) (hOpened t hMem)
  | holding hDial hHeld => exact .holding hDial fun u => (hHanded u).trans (hHeld u)
  | returned hReturned hAll hOne =>
    refine .returned hReturned ?_ ?_
    · exact fun t hMem => hShut t (hAll t ((hHanded t).mp hMem))
    · exact fun t u ht hu => hOne t u ((hHanded t).mp ht) ((hHanded u).mp hu)

/-- Whoever has entered a token has done with what comes before. -/
theorem Stage.entered (hStage : Stage tunnels ks L token ch h) :
    h.plain = false ∧ h.early = false := by
  cases h with
  | pushing | waiting | answering | confirming | piping | leaving | done => exact ⟨rfl, rfl⟩
  | _ =>
    cases hStage with
    | awaiting hDial => cases hDial
    | holding hDial => cases hDial
    | returned hReturned => rcases hReturned with hEq | hEq <;> cases hEq

/-- A connection is handed over through one channel only. -/
theorem Books.handed_chan (hBooks : v.Books L) {ch' : Nat} (h : .handed t ch ∈ L)
    (h' : .handed t ch' ∈ L) : ch = ch' := by
  obtain ⟨-, -, token, c, hPresented, hEntered⟩ := hBooks.handed_done h
  obtain ⟨-, -, token', c', hPresented', hEntered'⟩ := hBooks.handed_done h'
  obtain rfl := hBooks.ledger.once t token token' hPresented hPresented'
  exact (hBooks.ledger.byToken c c' token ch ch' hEntered hEntered').2

variable (hStaged : v.Staged L)

include hStaged

/-- A goroutine takes a step that hands nothing over: its own stage, and what
carries over for the others. -/
theorem Staged.goto (hAt : v.handlers[c]? = some h)
    (hChan : ∀ d token ch, d ≠ c → .entered d token ch ∈ L → tunnels[ch]? = v.tunnels[ch]?)
    (hTouches : Touches may v.conns ks)
    (hMay : ∀ d token ch t, d ≠ c → .entered d token ch ∈ L → .handed t ch ∈ L → ¬ may t)
    (hSelf : ∀ token ch, .entered c token ch ∈ L → Stage v.tunnels v.conns L token ch h →
      Stage tunnels ks L token ch h') :
    Staged ⟨v.handlers.set c h', tunnels, pending, regs, ks⟩ L := by
  intro d token ch hMem
  obtain ⟨k, hk, hStage⟩ := hStaged d token ch hMem
  by_cases hSame : d = c
  · subst hSame
    cases hAt.symm.trans hk
    exact ⟨h', pool_set_self hAt, hSelf token ch hMem hStage⟩
  refine ⟨k, pool_set_other hSame hk, ?_⟩
  refine hStage.keep (hChan d token ch hSame hMem) (fun _ => Iff.rfl) (fun _ => hTouches.shut) ?_
  exact fun t hHanded => hTouches.opened (hMay d token ch t hSame hMem hHanded)

/-- A mark that neither enters a token nor hands anything over. -/
theorem Staged.mark {m : Mark} (hEntered : ∀ c token ch, m ≠ .entered c token ch)
    (hHanded : ∀ t ch, m ≠ .handed t ch) : v.Staged (L ++ [m]) := by
  intro d token ch hMem
  have hOld : .entered d token ch ∈ L := mem_of_mem_concat hMem (hEntered d token ch).symm
  obtain ⟨k, hk, hStage⟩ := hStaged d token ch hOld
  refine ⟨k, hk, hStage.keep rfl ?_ (fun _ => id) fun _ _ => id⟩
  exact fun t => ⟨fun hMem => mem_of_mem_concat hMem (hHanded t ch).symm, mem_append_left _⟩

theorem Staged.enter (hBooks : v.Books L) (hAt : v.handlers[c]? = some (.found r)) :
    Staged { v with
      handlers := v.handlers.set c (.pushing r token v.tunnels.length)
      tunnels := v.tunnels ++ [Chan.make]
      pending := v.pending.insert token v.tunnels.length }
      (L ++ [.entered c token v.tunnels.length]) := by
  have hHanded : ∀ t ch, .handed t ch ∈ L ++ [entered c token v.tunnels.length] ↔
      .handed t ch ∈ L := by
    intro t ch
    rw [mem_append, mem_singleton, or_iff_left nofun]
  intro d token' ch hMem
  rcases mem_append.mp hMem with hOld | hNew
  · obtain ⟨k, hk, hStage⟩ := hStaged d token' ch hOld
    have hOther : d ≠ c := by
      rintro rfl
      cases hAt.symm.trans hk
      cases hStage.entered.1
    refine ⟨k, pool_set_other hOther hk, hStage.keep ?_ (fun t => hHanded t ch) (fun _ => id)
      fun _ _ => id⟩
    exact getElem?_append_left (hBooks.ledger.bound d token' ch hOld)
  · obtain ⟨rfl, rfl, rfl⟩ := entered.inj (mem_singleton.mp hNew)
    refine ⟨_, pool_set_self hAt, .awaiting (q := Chan.make) rfl pool_append_self ?_ nofun⟩
    intro t
    rw [hHanded]
    refine ⟨?_, nofun⟩
    -- through a channel that is new nothing has been handed over
    intro hMem
    obtain ⟨-, -, token₀, c₀, -, hEntered⟩ := hBooks.handed_done hMem
    exact absurd (hBooks.ledger.bound c₀ token₀ _ hEntered) (Nat.lt_irrefl _)

/-- A connection is handed over to a `handleDial` that is still to receive
it. -/
theorem Staged.handOver {q q' : Chan Nat 1} (hBooks : v.Books L)
    (hAt : v.handlers[c]? = some (.handing ch)) (hChan : v.tunnels[ch]? = some q)
    (hEmpty : q.buffer = []) (hOne : q'.buffer = [c]) (hAwaited : v.awaited ch = true) :
    Staged { v with handlers := v.handlers.set c .done, tunnels := v.tunnels.set ch q' }
      (L ++ [.handed c ch]) := by
  -- the one that is still to receive
  obtain ⟨d, token, k, hk, hDial, hEntered⟩ : ∃ (d : Nat) (token : GoString),
      ∃ k, v.handlers[d]? = some k ∧ k.dial = some (.awaiting token ch) ∧
        .entered d token ch ∈ L := by
    obtain ⟨k, hMem, hAwaits⟩ := any_eq_true.mp hAwaited
    obtain ⟨d, hk⟩ := mem_iff_getElem?.mp hMem
    obtain ⟨token, hDial⟩ := dial_of_awaits hAwaits
    exact ⟨d, token, k, hk, hDial, (hBooks.conns d k hk).awaiting token ch hDial⟩
  intro d' token' ch' hNow
  have hMem : .entered d' token' ch' ∈ L := mem_of_mem_concat hNow nofun
  obtain ⟨k', hk', hStage⟩ := hStaged d' token' ch' hMem
  have hOther : d' ≠ c := by
    rintro rfl
    cases hAt.symm.trans hk'
    cases hStage.entered.2
  refine ⟨k', pool_set_other hOther hk', ?_⟩
  by_cases hSame : ch' = ch
  · subst hSame
    obtain ⟨rfl, rfl⟩ := hBooks.ledger.byChan _ _ _ _ _ hEntered hMem
    cases hk.symm.trans hk'
    cases hStage with
    | awaiting hNow hChan' hHanded hOpened =>
      cases hChan.symm.trans hChan'
      refine .awaiting (q := q') hDial (pool_set_self hChan) ?_ ?_
      · intro t
        rw [mem_append, hHanded t, hEmpty, hOne, mem_singleton, mem_singleton]
        refine ⟨?_, ?_⟩
        · rintro (hNil | hNew)
          · cases hNil
          · exact (handed.inj hNew).1
        · rintro rfl
          exact .inr rfl
      · intro t ht
        rw [hOne] at ht
        obtain rfl := mem_singleton.mp ht
        exact (hBooks.conns t _ hAt).opened rfl
    | holding hNow => cases hDial.symm.trans hNow
    | returned hReturned => rcases hReturned with rfl | rfl <;> cases hDial
  · refine hStage.keep (getElem?_set_ne fun hEq => hSame hEq.symm) ?_ (fun _ => id) fun _ _ => id
    intro t
    rw [mem_append, mem_singleton]
    refine or_iff_left ?_
    intro hEq
    exact hSame (handed.inj hEq).2

omit hStaged

theorem Stage.onward {d : Dial} (hStage : Stage tunnels ks L token ch h) (hDial : h.dial = some d)
    (hDial' : h'.dial = some d) : Stage tunnels ks L token ch h' := by
  have hSame : h'.dial = h.dial := hDial'.trans hDial.symm
  cases hStage with
  | awaiting hNow hChan hBuffer hOpened => exact .awaiting (hSame.trans hNow) hChan hBuffer hOpened
  | holding hNow hHeld => exact .holding (hSame.trans hNow) hHeld
  | returned hReturned =>
    rcases hReturned with rfl | rfl
    · cases hDial
    · cases hDial

theorem Stage.receive {q q' : Chan Nat 1}
    (hStage : Stage tunnels ks L token ch (.waiting token ch))
    (hChan : tunnels[ch]? = some q) (hBuffer : q.buffer = t :: q'.buffer)
    (hDial : h'.dial = some (.holding token t)) : Stage tunnels' ks' L token ch h' := by
  cases hStage with
  | awaiting hNow hChan' hHanded hOpened =>
    cases hChan.symm.trans hChan'
    -- one connection at most was in the channel
    have hEmpty : q'.buffer = [] := by
      have hFits := q.fits
      rw [hBuffer, length_cons] at hFits
      exact eq_nil_of_length_eq_zero (by omega)
    refine .holding hDial fun u => ?_
    rw [hHanded u, hBuffer, hEmpty, mem_singleton]
  | holding hNow => cases hNow
  | returned hReturned => rcases hReturned with hEq | hEq <;> cases hEq

theorem Stage.giveUp {ch' : Nat} (hStage : Stage v.tunnels ks L token ch h)
    (hDial : h.dial = some (.awaiting token' ch')) (hEmpty : v.filled ch' = false) :
    Stage tunnels' ks' L token ch (.leaving token') := by
  cases hStage with
  | awaiting hNow hChan hHanded hOpened =>
    obtain ⟨rfl, rfl⟩ := Dial.awaiting.inj (some.inj (hDial.symm.trans hNow))
    rw [filled_eq hChan] at hEmpty
    have hNone : ∀ t, .handed t ch' ∉ L := by
      intro t hMem
      have hBuffer := (hHanded t).mp hMem
      rw [not_not.mp (of_decide_eq_false hEmpty)] at hBuffer
      cases hBuffer
    exact .returned (.inl rfl) (fun t hMem => absurd hMem (hNone t))
      fun t _ hMem => absurd hMem (hNone t)
  | holding hNow => cases hDial.symm.trans hNow
  | returned hReturned =>
    rcases hReturned with rfl | rfl
    · cases hDial
    · cases hDial

theorem Stage.hangUp (hStage : Stage tunnels ks L token ch h)
    (hDial : h.dial = some (.holding token' t)) (hShut : Shut ks' t) :
    Stage tunnels' ks' L token ch (.leaving token') := by
  cases hStage with
  | awaiting hNow => cases hDial.symm.trans hNow
  | holding hNow hHeld =>
    obtain ⟨rfl, rfl⟩ := Dial.holding.inj (some.inj (hDial.symm.trans hNow))
    refine .returned (.inl rfl) ?_ ?_
    · intro u hMem
      rw [(hHeld u).mp hMem]
      exact hShut
    · intro u v hu hv
      exact ((hHeld u).mp hu).trans ((hHeld v).mp hv).symm
  | returned hReturned =>
    rcases hReturned with rfl | rfl
    · cases hDial
    · cases hDial

/-- What was handed over is not a goroutine that goes on. -/
theorem Books.handed_ne (hBooks : v.Books L) (hAt : v.handlers[c]? = some h) (hDone : h ≠ .done)
    (hHanded : .handed t ch ∈ L) : t ≠ c := by
  rintro rfl
  exact hDone (some.inj (hAt.symm.trans (hBooks.handed_done hHanded).1))

variable (hStaged : v.Staged L)

include hStaged

theorem Staged.accept :
    Staged { v with
      handlers := v.handlers ++ [.reading], conns := v.conns ++ [⟨false, []⟩] } L := by
  intro d token ch hMem
  obtain ⟨k, hk, hStage⟩ := hStaged d token ch hMem
  refine ⟨k, pool_append_old hk, hStage.keep rfl (fun _ => Iff.rfl) ?_ ?_⟩
  · exact fun t ⟨k, hk, hShut⟩ => ⟨k, pool_append_old hk, hShut⟩
  · exact fun t _ ⟨k, hk, hOpen⟩ => ⟨k, pool_append_old hk, hOpen⟩

theorem Staged.receive {q q' : Chan Nat 1} (hBooks : v.Books L)
    (hAt : v.handlers[c]? = some (.waiting token ch)) (hChan : v.tunnels[ch]? = some q)
    (hBuffer : q.buffer = t :: q'.buffer) (hDial : h'.dial = some (.holding token t)) :
    Staged { v with handlers := v.handlers.set c h', tunnels := v.tunnels.set ch q' } L := by
  have hEntered : .entered c token ch ∈ L := (hBooks.conns c _ hAt).awaiting token ch rfl
  refine hStaged.goto hAt ?_ Touches.none (fun _ _ _ _ _ _ _ => id) ?_
  · -- nobody else waits at this channel
    intro d token' ch' hOther hMem
    refine getElem?_set_ne ?_
    rintro rfl
    exact hOther (hBooks.ledger.byChan _ _ _ _ _ hMem hEntered).1
  · intro token' ch' hMem hStage
    obtain ⟨rfl, rfl⟩ : token' = token ∧ ch' = ch := by
      cases hStage with
      | awaiting hNow =>
        obtain ⟨hToken, hChan⟩ := Dial.awaiting.inj (some.inj hNow)
        exact ⟨hToken.symm, hChan.symm⟩
      | holding hNow => cases hNow
      | returned hReturned => rcases hReturned with hEq | hEq <;> cases hEq
    exact hStage.receive hChan hBuffer hDial

theorem Staged.hangUp (hBooks : v.Books L) (hAt : v.handlers[c]? = some h)
    (hDial : h.dial = some (.holding token t))
    (hTouches : Touches (fun j => j = c ∨ j = t) v.conns ks)
    (hShut : ∀ k, v.conns[t]? = some k → Shut ks t) :
    Staged { v with handlers := v.handlers.set c (.leaving token), conns := ks } L := by
  obtain ⟨ch₀, hHeld, hEntered⟩ := (hBooks.conns c h hAt).holding token t hDial
  obtain ⟨k, hk⟩ := hBooks.conn_of_handler (hBooks.handed_done hHeld).1
  refine hStaged.goto hAt (fun _ _ _ _ _ => rfl) hTouches ?_ ?_
  · rintro d token' ch u hOther hMem hHanded (hSelf | rfl)
    · exact hBooks.handed_ne hAt (dial_ne hDial).2.1 hHanded hSelf
    · -- the connection that is closed was handed over to this one only
      obtain rfl := hBooks.handed_chan hHanded hHeld
      exact hOther (hBooks.ledger.byChan _ _ _ _ _ hMem hEntered).1
  · intro token' ch _ hStage
    exact hStage.hangUp hDial (hShut k hk)

theorem Staged.leave (hAt : v.handlers[c]? = some (.leaving token)) :
    Staged { v with
      handlers := v.handlers.set c .done, pending := v.pending.erase token } L := by
  refine hStaged.goto hAt (fun _ _ _ _ _ => rfl) Touches.none
    (fun _ _ _ _ _ _ _ => id) ?_
  intro token' ch _ hStage
  cases hStage with
  | awaiting hNow => cases hNow
  | holding hNow => cases hNow
  | returned hReturned hAll hOne => exact .returned (.inr rfl) hAll hOne

/-- A `TUNNEL` is turned away. -/
theorem Staged.reject (hBooks : v.Books L) (hAt : v.handlers[c]? = some h)
    (hKind : (∃ token, h = .tunnelling token ∧
      ms = [.presented c token]) ∨ ∃ ch, h = .handing ch ∧ ms = [])
    (hTouches : Touches (· = c) v.conns ks) :
    Staged { v with handlers := v.handlers.set c .done, conns := ks } (L ++ ms) := by
  have hNot : h ≠ .done ∧ h.early = true := by
    rcases hKind with ⟨_, rfl, -⟩ | ⟨_, rfl, -⟩
    · exact ⟨nofun, rfl⟩
    · exact ⟨nofun, rfl⟩
  have hStaged' : Staged { v with handlers := v.handlers.set c .done, conns := ks } L := by
    refine hStaged.goto hAt (fun _ _ _ _ _ => rfl) hTouches ?_ ?_
    · exact fun _ _ _ t _ _ hHanded => hBooks.handed_ne hAt hNot.1 hHanded
    · intro token' ch _ hStage
      cases hStage.entered.2.symm.trans hNot.2
  rcases hKind with ⟨token, -, rfl⟩ | ⟨ch, -, rfl⟩
  · exact hStaged'.mark nofun nofun
  · rw [append_nil]
    exact hStaged'

/-- **One timely step.** -/
theorem Staged.step (hBooks : v.Books L) (hTurn : Turn v b ms v') (hTimely : b = true) :
    v'.Staged (L ++ ms) := by
  cases hTurn with
  | quiet hTouches =>
    rw [append_nil]
    intro d token ch hMem
    obtain ⟨k, hk, hStage⟩ := hStaged d token ch hMem
    refine ⟨k, hk, hStage.keep rfl (fun _ => Iff.rfl) (fun _ => hTouches.shut) ?_⟩
    exact fun t hHanded => hTouches.opened (hBooks.handed_done hHanded).2.1
  | accept =>
    rw [append_nil]
    exact hStaged.accept
  | plain hAt hPlain hDial hHanding hEarly hRegs hTouches =>
    rw [append_nil]
    refine hStaged.goto hAt (fun _ _ _ _ _ => rfl) hTouches ?_ ?_
    · rintro d token ch t - - hHanded (hSelf | hReg)
      · exact hBooks.handed_ne hAt (plain_ne hPlain).2 hHanded hSelf
      · exact (hBooks.handed_done hHanded).2.1 hReg
    · intro token ch _ hStage
      cases hStage.entered.1.symm.trans hPlain
  | enter hAt => exact hStaged.enter hBooks hAt
  | onward hAt hDial hDial' hTouches =>
    rw [append_nil]
    refine hStaged.goto hAt (fun _ _ _ _ _ => rfl) hTouches (fun _ _ _ _ _ _ _ => id) ?_
    intro token ch _ hStage
    exact (hStage.onward hDial hDial').keep rfl (fun _ => Iff.rfl) (fun _ => hTouches.shut)
      fun _ _ => hTouches.opened id
  | giveUp hAt hDial hTouches =>
    rw [append_nil]
    refine hStaged.goto hAt (fun _ _ _ _ _ => rfl) hTouches ?_ ?_
    · exact fun _ _ _ t _ _ hHanded => hBooks.handed_ne hAt (dial_ne hDial).2.1 hHanded
    · intro token ch _ hStage
      exact hStage.giveUp hDial (Bool.not_eq_true' _ ▸ hTimely)
  | receive hAt hChan hBuffer hDial =>
    rw [append_nil]
    exact hStaged.receive hBooks hAt hChan hBuffer hDial
  | hangUp hAt hDial hTouches hShut =>
    rw [append_nil]
    exact hStaged.hangUp hBooks hAt hDial hTouches hShut
  | leave hAt =>
    rw [append_nil]
    exact hStaged.leave hAt
  | present hAt hFound =>
    refine Staged.mark ?_ nofun nofun
    refine hStaged.goto hAt (fun _ _ _ _ _ => rfl) Touches.none
      (fun _ _ _ _ _ _ _ => id) ?_
    intro token' ch _ hStage
    cases hStage.entered.2
  | reject hAt hKind hTouches => exact hStaged.reject hBooks hAt hKind hTouches
  | handOver hAt hChan hEmpty hOne =>
    exact hStaged.handOver hBooks hAt hChan hEmpty hOne hTimely

end Server.View

namespace Server

variable {s s' : Server} {v v' : View} {L ms : List Mark} {c ch t : Nat} {token : GoString}
  {h : Handler} {b : Bool}

/-! ## One-time tokens -/

/-- Connection `t` has presented the token and was handed over. -/
def HandedOver (L : List Mark) (t : Nat) (token : GoString) : Prop :=
  .presented t token ∈ L ∧ ∃ ch, .handed t ch ∈ L

/-- Tokens are one-time, and no connection is forgotten. -/
structure OneTime (s : Server) (L : List Mark) : Prop where
  /-- one connection at most is handed over with each token -/
  matched : ∀ token t t', HandedOver L t token → HandedOver L t' token → t = t'
  /-- every other one that has presented it is refused when `handleTunnel` has
  returned -/
  refused : ∀ token t, .presented t token ∈ L → s.handlers[t]? = some .done →
    ¬ HandedOver L t token → s.Refused t
  /-- what is handed over waits for the `handleDial` of the token or is with
  it, and when that one returns, after a pipe or without, it is closed -/
  kept : ∀ c token ch t, .entered c token ch ∈ L → HandedOver L t token →
    ∃ h, s.handlers[c]? = some h ∧ (h.dial = some (.awaiting token ch) ∨
      h.dial = some (.holding token t) ∨ h.returned token ∧ s.isClosed t = true)

theorem View.Books.init : Server.init.view.Books [] where
  ledger := ⟨nofun, nofun, nofun, nofun⟩
  conns := nofun
  known := by
    rintro j (hReg | ⟨_, hMem⟩ | ⟨_, hMem⟩)
    · cases hReg
    · cases hMem
    · cases hMem
  lengths := rfl
  pending := nofun
  buffered := nofun

theorem View.Books.handed_entered (hBooks : v.Books L) (hEntered : .entered c token ch ∈ L)
    (hOver : HandedOver L t token) : .handed t ch ∈ L := by
  obtain ⟨hPresented, ch', hHanded⟩ := hOver
  obtain ⟨-, -, token', c', hPresented', hEntered'⟩ := hBooks.handed_done hHanded
  obtain rfl := hBooks.ledger.once t token token' hPresented hPresented'
  obtain ⟨-, rfl⟩ := hBooks.ledger.byToken _ _ _ _ _ hEntered hEntered'
  exact hHanded

theorem View.Books.handedOver (hBooks : v.Books L) (hEntered : .entered c token ch ∈ L)
    (hHanded : .handed t ch ∈ L) : HandedOver L t token := by
  obtain ⟨-, -, token', c', hPresented, hEntered'⟩ := hBooks.handed_done hHanded
  obtain ⟨-, rfl⟩ := hBooks.ledger.byChan _ _ _ _ _ hEntered hEntered'
  exact ⟨hPresented, ch, hHanded⟩

theorem View.Stage.unique (hStage : View.Stage v.tunnels v.conns L token ch h) {u : Nat}
    (ht : .handed t ch ∈ L) (hu : .handed u ch ∈ L) : t = u := by
  cases hStage with
  | awaiting hDial hChan hHanded hOpened =>
    rename_i q
    rw [hHanded] at ht hu
    obtain ⟨v, hOne⟩ := length_eq_one_iff.mp
      (Nat.le_antisymm q.fits (length_pos_of_mem ht))
    rw [hOne, mem_singleton] at ht hu
    exact ht.trans hu.symm
  | holding hDial hHeld => exact ((hHeld t).mp ht).trans ((hHeld u).mp hu).symm
  | returned hReturned hAll hOne => exact hOne t u ht hu

theorem OneTime.of_staged (hBooks : s.view.Books L) (hStaged : s.view.Staged L) :
    s.OneTime L where
  matched := by
    intro token t t' hOver hOver'
    obtain ⟨hPresented, ch, hHanded⟩ := hOver
    obtain ⟨-, -, token', c, hPresented', hEntered⟩ := hBooks.handed_done hHanded
    obtain rfl := hBooks.ledger.once t token token' hPresented hPresented'
    obtain ⟨h, -, hStage⟩ := hStaged c token ch hEntered
    exact hStage.unique hHanded (hBooks.handed_entered hEntered hOver')
  refused := by
    intro token t hPresented hDone hNot
    rcases (hBooks.conns t _ hDone).presented token hPresented with ⟨ch, hEq⟩ | ⟨-, hCases⟩
    · cases hEq
    · rcases hCases with hHanded | hRefused
      · exact absurd ⟨hPresented, hHanded⟩ hNot
      · exact hRefused
  kept := by
    intro c token ch t hEntered hOver
    have hHanded := hBooks.handed_entered hEntered hOver
    obtain ⟨h, hAt, hStage⟩ := hStaged c token ch hEntered
    refine ⟨h, hAt, ?_⟩
    cases hStage with
    | awaiting hDial => exact .inl hDial
    | holding hDial hHeld =>
      rw [(hHeld t).mp hHanded]
      exact .inr (.inl hDial)
    | returned hReturned hAll =>
      exact .inr (.inr ⟨hReturned, isClosed_iff.mpr (hAll t hHanded)⟩)

/-- A `handleDial` has returned, and the property holds: what was handed over
is not open any more. -/
theorem OneTime.returned (hOneTime : s.OneTime L) (hEntered : .entered c token ch ∈ L)
    (hOver : HandedOver L t token) (hAt : s.handlers[c]? = some h) (hReturned : h.returned token) :
    ¬ Opened s.conns t := by
  obtain ⟨k, hk, hCases⟩ := hOneTime.kept c token ch t hEntered hOver
  cases hAt.symm.trans hk
  have hNone : h.dial = none := by
    rcases hReturned with rfl | rfl
    · rfl
    · rfl
  rcases hCases with hDial | hDial | ⟨-, hClosed⟩
  · cases hNone.symm.trans hDial
  · cases hNone.symm.trans hDial
  · rintro ⟨k, hk, hOpen⟩
    obtain ⟨k', hk', hShut⟩ := isClosed_iff.mp hClosed
    cases hk.symm.trans hk'
    exact Bool.false_ne_true (hOpen.symm.trans hShut)

/-- A `handleDial` gives up although a connection waits for it. -/
theorem not_oneTime_of_giveUp (hBooks : v.Books L) (hStaged : v.Staged L)
    (hAt : v.handlers[c]? = some h) (hDial : h.dial = some (.awaiting token ch))
    (hHandlers : s'.handlers = v.handlers.set c (.leaving token))
    (hTouches : Touches (· = c) v.conns s'.conns) (hFilled : v.filled ch = true) :
    ¬ s'.OneTime L := by
  intro hOneTime
  have hEntered := (hBooks.conns c h hAt).awaiting token ch hDial
  obtain ⟨k, hk, hStage⟩ := hStaged c token ch hEntered
  cases hAt.symm.trans hk
  cases hStage with
  | awaiting hNow hChan hHanded hOpened =>
    rw [View.filled_eq hChan] at hFilled
    obtain ⟨t, hMem⟩ := exists_mem_of_ne_nil _ (of_decide_eq_true hFilled)
    have hHandedT := (hHanded t).mpr hMem
    -- it is open, and stays so
    have hOther : t ≠ c := by
      rintro rfl
      cases hAt.symm.trans (hBooks.handed_done hHandedT).1
      cases hDial
    refine hOneTime.returned hEntered (hBooks.handedOver hEntered hHandedT) ?_ (.inl rfl)
      (hTouches.opened hOther (hOpened t hMem))
    rw [hHandlers]
    exact pool_set_self hAt
  | holding hNow => cases hDial.symm.trans hNow
  | returned hReturned => rcases hReturned with rfl | rfl <;> cases hDial

/-- A connection is handed over to a `handleDial` that is not going to receive
it. -/
theorem not_oneTime_of_handOver (hBooks : v.Books L) (hStaged : v.Staged L)
    (hBooks' : v'.Books (L ++ [.handed c ch])) (hAt : v.handlers[c]? = some (.handing ch))
    (hHandlers : s'.handlers = v.handlers.set c .done) (hConns : s'.conns = v.conns)
    (hNobody : v.awaited ch = false) : ¬ s'.OneTime (L ++ [.handed c ch]) := by
  intro hOneTime
  have hLeft : ∀ {m}, m ∈ L → m ∈ L ++ [handed c ch] := mem_append_left _
  have hNow : .handed c ch ∈ L ++ [handed c ch] := mem_concat_self
  obtain ⟨token, d, hPresented, hEntered⟩ := (hBooks.conns c _ hAt).handing ch rfl
  obtain ⟨k, hk, hStage⟩ := hStaged d token ch hEntered
  have hOver := hBooks'.handedOver (hLeft hEntered) hNow
  cases hStage with
  | awaiting hDial =>
    have hAwaited : v.awaited ch = true :=
      any_eq_true.mpr ⟨k, mem_of_getElem? hk, View.awaits_of_dial hDial⟩
    exact Bool.false_ne_true (hNobody.symm.trans hAwaited)
  | holding hDial hHeld =>
    -- another one has been handed over before
    rename_i t
    have hHanded : .handed t ch ∈ L := (hHeld t).mpr rfl
    have hOver' := hBooks'.handedOver (hLeft hEntered) (hLeft hHanded)
    obtain rfl := hOneTime.matched token c t hOver hOver'
    cases hAt.symm.trans (hBooks.handed_done hHanded).1
  | returned hReturned =>
    have hOther : d ≠ c := by
      rintro rfl
      cases hAt.symm.trans hk
      rcases hReturned with hEq | hEq <;> cases hEq
    refine hOneTime.returned (hLeft hEntered) hOver ?_ hReturned ?_
    · rw [hHandlers]
      exact pool_set_other hOther hk
    · rw [hConns]
      exact (hBooks.conns c _ hAt).opened rfl

/-- **A step that is not timely** breaks the property. -/
theorem Turn.sharp (hTurn : Turn v b ms v') (hBooks : v.Books L) (hStaged : v.Staged L)
    (hBooks' : v'.Books (L ++ ms)) (hView : s'.view = v') (hOneTime : s'.OneTime (L ++ ms)) :
    b = true := by
  have hHandlers : s'.handlers = v'.handlers := congrArg View.handlers hView
  have hConns : s'.conns = v'.conns := congrArg View.conns hView
  by_contra hLate
  cases hTurn with
  | giveUp hAt hDial hTouches =>
    rw [append_nil] at hOneTime
    rw [Bool.not_eq_true, Bool.not_eq_false'] at hLate
    exact not_oneTime_of_giveUp hBooks hStaged hAt hDial hHandlers (hConns ▸ hTouches) hLate
      hOneTime
  | handOver hAt hChan hEmpty hOne =>
    rw [Bool.not_eq_true] at hLate
    exact not_oneTime_of_handOver hBooks hStaged hBooks' hAt hHandlers hConns hLate hOneTime
  | _ => exact hLate rfl

end Server

namespace Recorded

variable {x y : Recorded} {a : Action}

/-- A token that is made now has not been made before. -/
def fresh (x : Recorded) : Action → Bool
  | .handler _ (.random (some bytes)) => x.log.all fun m => !m.enters (hexEncode bytes)
  | _ => true

/-- A step of the relay in which tokens are fresh, recorded. -/
def step : Recorded → Action → Recorded → Prop :=
  guarded (stepOf next) fun x a => x.fresh a = true

/-- The marks that are about tokens. -/
def tokens (x : Recorded) : List Mark := x.log.filter ofToken

theorem mem_tokens {m : Mark} (hKind : m.ofToken = true) : m ∈ x.tokens ↔ m ∈ x.log := by
  rw [tokens, mem_filter]
  exact and_iff_left hKind

theorem oneTime_tokens : x.server.OneTime x.tokens ↔ x.server.OneTime x.log := by
  have hOver : ∀ t token, Server.HandedOver x.tokens t token ↔ Server.HandedOver x.log t token := by
    intro t token
    unfold Server.HandedOver
    rw [mem_tokens rfl]
    exact and_congr_right fun _ => exists_congr fun ch => mem_tokens rfl
  constructor
  · rintro ⟨hMatched, hRefused, hKept⟩
    refine ⟨?_, ?_, ?_⟩
    · intro token t t' h h'
      exact hMatched token t t' ((hOver t token).mpr h) ((hOver t' token).mpr h')
    · intro token t hPresented hDone hNot
      exact hRefused token t ((mem_tokens rfl).mpr hPresented) hDone fun h =>
        hNot ((hOver t token).mp h)
    · intro c token ch t hEntered h
      exact hKept c token ch t ((mem_tokens rfl).mpr hEntered) ((hOver t token).mpr h)
  · rintro ⟨hMatched, hRefused, hKept⟩
    refine ⟨?_, ?_, ?_⟩
    · intro token t t' h h'
      exact hMatched token t t' ((hOver t token).mp h) ((hOver t' token).mp h')
    · intro token t hPresented hDone hNot
      exact hRefused token t ((mem_tokens rfl).mp hPresented) hDone fun h =>
        hNot ((hOver t token).mpr h)
    · intro c token ch t hEntered h
      exact hKept c token ch t ((mem_tokens rfl).mp hEntered) ((hOver t token).mp h)

theorem step_turn (hStep : x.step a y) :
    ∃ ms, y.tokens = x.tokens ++ ms ∧
      Server.Turn x.server.view (x.server.timely a) ms y.server.view ∧
      ∀ c token ch, .entered c token ch ∈ ms → ∀ c' ch', .entered c' token ch' ∉ x.tokens := by
  obtain ⟨hNext, hFresh⟩ := hStep
  obtain ⟨hNext, hLog⟩ := next_eq_some.mp hNext
  refine ⟨(x.server.marks a).filter ofToken, ?_,
    Server.step_turn (Server.next_eq_some.mp hNext).2, ?_⟩
  · rw [tokens, hLog, filter_append]
    rfl
  · intro c token ch hMark c' ch' hOld
    obtain ⟨bytes, rfl, rfl⟩ := Server.marks_entered (mem_filter.mp hMark).1
    have hNot := all_eq_true.mp hFresh _ (mem_filter.mp hOld).1
    simp [enters] at hNot

end Recorded

/-- **One-time tokens.** In a run of the relay in which tokens are fresh, every
token is used for one connection at most, every other one that presents it is
refused, and none that is handed over is left behind open when its `handleDial`
returns, exactly if every step is timely: connections are handed over only to a
`handleDial` that is still to receive, and none gives up while a connection
waits for it. -/
theorem tokens_one_time {as : List Action} {x : Recorded}
    (hRun : Exec step init as x) :
    (Throughout step init as fun x => x.server.OneTime x.log) ↔
      EachStep step init as fun x a => x.server.timely a = true := by
  refine throughout_iff_of_invariant
    (J := fun x => x.server.view.Books x.tokens ∧ x.server.view.Staged x.tokens) hRun
    ⟨.init, nofun⟩ ?_ ?_ ?_ ?_
  · exact fun t a u u' h h' => stepOf_unique t a u u' h.1 h'.1
  · rintro y ⟨hBooks, hStaged⟩
    exact oneTime_tokens.mp (.of_staged hBooks hStaged)
  · rintro y a z ⟨hBooks, hStaged⟩ hStep hTimely
    obtain ⟨ms, hTokens, hTurn, hFresh⟩ := step_turn hStep
    rw [hTokens]
    exact ⟨hBooks.step hTurn hFresh, hStaged.step hBooks hTurn hTimely⟩
  · rintro y a z ⟨hBooks, hStaged⟩ hStep hOneTime
    obtain ⟨ms, hTokens, hTurn, hFresh⟩ := step_turn hStep
    rw [← oneTime_tokens, hTokens] at hOneTime
    exact hTurn.sharp hBooks hStaged (hBooks.step hTurn hFresh) rfl hOneTime

/-- A tunnel for which two connections come: the second one finds the channel
taken. A third one comes when the tunnel has ended. -/
def racedRun : List Action :=
  registerRun 0 ++ dialRun 1 ++ writerRun 0 ++ tunnelRun 2 ++ tunnelRun 3 ++
    [.handler 1 .run, .handler 1 (.wrote true), .handler 1 (.wrote true), .handler 1 .pipeEnd,
      .handler 1 .run] ++ (tunnelRun 4).take 3

theorem tokens_one_time_racedRun :
    ∃ x, Exec step init racedRun x ∧
      x.server.handlers = [.listening 0, .done, .done, .done, .done] ∧
      x.server.conns.map (fun k => (k.closed, k.written)) =
        [(false, [respOK, openLine (hexEncode sampleRandom)]), (true, [respOK]), (true, [respOK]),
          (true, [Refusal.race.line]), (true, [Refusal.badToken.line])] ∧
      Throughout step init racedRun fun x => x.server.OneTime x.log := by
  refine Exec.exists_of_eachStep (Q := fun x a => x.server.timely a = true)
    (p := fun x => x.server.handlers = [.listening 0, .done, .done, .done, .done] ∧
      x.server.conns.map (fun k => (k.closed, k.written)) =
        [(false, [respOK, openLine (hexEncode sampleRandom)]), (true, [respOK]), (true, [respOK]),
          (true, [Refusal.race.line]), (true, [Refusal.badToken.line])])
    next (fun x a => x.fresh a && x.server.timely a)
    (fun t a u u' h h' => stepOf_unique t a u u' h.1 h'.1) ?_ (by decide +kernel) ?_
  · intro x a y hNext hOk
    obtain ⟨hFresh, hTimely⟩ := Bool.and_eq_true_iff.mp hOk
    exact ⟨⟨hNext, hFresh⟩, hTimely⟩
  · rintro x hRun hEach ⟨hHandlers, hConns⟩
    exact ⟨hHandlers, hConns, (tokens_one_time hRun).mpr hEach⟩

/-- The same token is presented again when the first connection has been taken
out of the channel, and then the tunnel ends. -/
def secondRun : List Action :=
  registerRun 0 ++ dialRun 1 ++ writerRun 0 ++ tunnelRun 2 ++ [.handler 1 .run] ++ tunnelRun 3 ++
    [.handler 1 (.wrote true), .handler 1 (.wrote true), .handler 1 .pipeEnd, .handler 1 .run]

/-- What the log then says about two connections. -/
def handedTwice : List Mark :=
  [.presented 2 (hexEncode sampleRandom), .handed 2 0, .presented 3 (hexEncode sampleRandom),
    .handed 3 0]

/-- **A connection that is forgotten**: it was accepted for a token that was
already used, it is not answered, and it stays open when everything is over. -/
theorem second_tunnel_orphaned :
    ∃ x, Exec step init secondRun x ∧
      x.server.handlers = [.listening 0, .done, .done, .done] ∧
      x.server.conns.map (fun k => (k.closed, k.written)) =
        [(false, [respOK, openLine (hexEncode sampleRandom)]), (true, [respOK]), (true, [respOK]),
          (false, [])] ∧
      ¬ x.server.OneTime x.log := by
  refine Exec.exists_of_checked
    (p := fun x => x.server.handlers = [.listening 0, .done, .done, .done] ∧
      x.server.conns.map (fun k => (k.closed, k.written)) =
        [(false, [respOK, openLine (hexEncode sampleRandom)]), (true, [respOK]),
          (true, [respOK]), (false, [])] ∧
      ∀ m ∈ handedTwice, m ∈ x.log)
    next fresh (fun hNext hOk => ⟨hNext, hOk⟩) (by decide +kernel) ?_
  rintro x - ⟨hHandlers, hConns, hMarks⟩
  refine ⟨hHandlers, hConns, ?_⟩
  intro hOneTime
  have hTwo : Server.HandedOver x.log 2 (hexEncode sampleRandom) :=
    ⟨hMarks _ (by decide), 0, hMarks _ (by decide)⟩
  have hThree : Server.HandedOver x.log 3 (hexEncode sampleRandom) :=
    ⟨hMarks _ (by decide), 0, hMarks _ (by decide)⟩
  exact absurd (hOneTime.matched _ 2 3 hTwo hThree) (by decide)

end AltNet.Relay
