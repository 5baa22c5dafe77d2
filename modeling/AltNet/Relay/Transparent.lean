import AltNet.Relay.PipeSide

/-!
# AltNet — a tunnel is a transparent byte stream

What holds on each side of a tunnel (`End.Local`) goes together by what holds
between the two (`Phased`): nothing is copied before both sides have been
answered, and what the relay has written to a side is `OK` and then what it has
copied from the other.

Main results:

* `Pipe.Inv.step` — where the bytes are, after any step;
* `tunnel_transparent` — what a side has read is at every moment a prefix of
  what the other side has written, and while the tunnel is up everything else
  is on its way, in order.
-/

namespace AltNet.Relay

open List Function Option

/-! ## Between the sides -/

open End (View)

/-- Whether `handleDial` has yet to answer a side. -/
def Owes (leg : Leg) (d : Side) : Phase → Prop
  | .waiting => leg ≠ .closed
  | .answering => True
  | .confirming => d = .peer
  | _ => False

/-- What the relay has written to a side: `OK` and what was copied from the
other one, or there is no copying. -/
def Replied (copier : Copier) (copied sent : Bytes) : Prop :=
  sent = okBytes ++ copied ∨
    copier = .idle ∧ (sent <+: okBytes ∨ ∃ r : Refusal, sent = lineBytes r.line)

/-- **Between the sides**, by where `handleDial` stands. -/
structure Phased (p : Phase) (v : Side → View) : Prop where
  legs : p ≠ .waiting → ∀ d, ∃ h, (v d).leg = .dispatched h
  idle : p = .waiting ∨ p = .answering ∨ p = .confirming → ∀ d, (v d).copier = .idle
  silent : ∀ d, Owes (v d).leg d p → (v d).sent = []
  answered : p = .confirming → (v .dialer).sent = okBytes
  piping : p = .piping → ∀ d, (v d).copier ≠ .idle
  replied : ∀ d, Replied (v d.other).copier (v d.other).copied (v d).sent

theorem Replied.reply {copier : Copier} {copied sent : Bytes} (h : Replied copier copied sent) :
    Reply sent := by
  rcases h with rfl | ⟨-, hPart | ⟨r, rfl⟩⟩
  · exact .ok copied
  · exact .part hPart
  · exact .refused r

/-- What follows `OK` was copied from the other side. -/
theorem Replied.after {copier : Copier} {copied sent bs : Bytes} (h : Replied copier copied sent)
    (hPart : okBytes ++ bs <+: sent) : bs <+: copied := by
  rcases h with rfl | ⟨-, hOK | ⟨r, rfl⟩⟩
  · exact (prefix_append_right_inj okBytes).mp hPart
  · rw [eq_nil_of_append_isPrefix (hPart.trans hOK)]
    exact nil_prefix
  · have hText : textBytes respOK <+: okBytes := prefix_append _ _
    exact absurd ((hText.trans (prefix_append okBytes bs)).trans hPart) (refusal_not_ok r)

theorem Replied.unanswered {copied : Bytes} : Replied .idle copied [] :=
  .inr ⟨rfl, .inl nil_prefix⟩

theorem Side.other_other (d : Side) : d.other.other = d := by cases d <;> rfl

theorem Side.other_ne (d : Side) : d.other ≠ d := by cases d <;> decide

theorem Side.eq_or_other (s d : Side) : s = d ∨ s = d.other := by
  cases d <;> cases s <;> decide

namespace Phased

variable {p : Phase} {v : Side → View}

/-- Before `handleDial` has the other connection: a side is read, dispatched or
refused. -/
theorem early (h : Phased .waiting v) {d : Side} {v' : View} (hLeg : (v d).leg ≠ .closed)
    (hCopier : v'.copier = (v d).copier) (hCopied : v'.copied = (v d).copied)
    (hSent : v'.sent = (v d).sent ∨
      v'.leg = .closed ∧ ∃ r : Refusal, v'.sent = (v d).sent ++ lineBytes r.line) :
    Phased .waiting (update v d v') := by
  have hIdle : ∀ s, (update v d v' s).copier = .idle := by
    intro s
    rcases s.eq_or_other d with rfl | rfl
    · rw [update_self, hCopier]
      exact h.idle (.inl rfl) s
    · rw [update_of_ne d.other_ne]
      exact h.idle (.inl rfl) d.other
  refine ⟨nofun, fun _ => hIdle, ?_, nofun, nofun, ?_⟩
  · intro s hOwes
    rcases s.eq_or_other d with rfl | rfl
    · rw [update_self] at hOwes ⊢
      rcases hSent with hSame | ⟨hClosed, -⟩
      · exact hSame.trans (h.silent s hLeg)
      · exact absurd hClosed hOwes
    · rw [update_of_ne d.other_ne] at hOwes ⊢
      exact h.silent d.other hOwes
  · intro s
    rw [hIdle]
    rcases s.eq_or_other d with rfl | rfl
    · rw [update_self]
      rcases hSent with hSame | ⟨-, r, hRefused⟩
      · rw [hSame, h.silent s hLeg]
        exact .unanswered
      · rw [hRefused, h.silent s hLeg]
        exact .inr ⟨rfl, .inr ⟨r, rfl⟩⟩
    · have hOld := h.replied d.other
      rw [h.idle (.inl rfl), Side.other_other] at hOld
      rw [Side.other_other, update_self, update_of_ne d.other_ne, hCopied]
      exact hOld

/-- `handleDial` has the other connection. -/
theorem receive (h : Phased .waiting v) (hLegs : ∀ d, ∃ handler, (v d).leg = .dispatched handler) :
    Phased .answering v := by
  refine ⟨fun _ => hLegs, fun _ => h.idle (.inl rfl), ?_, nofun, nofun, h.replied⟩
  intro d _
  obtain ⟨handler, hLeg⟩ := hLegs d
  exact h.silent d (by rw [hLeg]; exact nofun)

/-- From the copying on nothing is owed. -/
theorem of_late (hLate : ¬(p = .waiting ∨ p = .answering ∨ p = .confirming))
    (hLegs : ∀ d, ∃ handler, (v d).leg = .dispatched handler)
    (hPiping : p = .piping → ∀ d, (v d).copier ≠ .idle)
    (hReplied : ∀ d, Replied (v d.other).copier (v d.other).copied (v d).sent) : Phased p v where
  legs := fun _ => hLegs
  idle := fun hEarly => absurd hEarly hLate
  silent := by
    intro d hOwes
    cases p with
    | waiting => exact absurd (.inl rfl) hLate
    | answering => exact absurd (.inr (.inl rfl)) hLate
    | confirming => exact absurd (.inr (.inr rfl)) hLate
    | piping => exact hOwes.elim
    | closing => exact hOwes.elim
    | done => exact hOwes.elim
  answered := fun hPhase => absurd (.inr (.inr hPhase)) hLate
  piping := hPiping
  replied := hReplied

/-- The relay closes the connections. -/
theorem close (h : Phased p v) (hWaiting : p ≠ .waiting) {q : Phase}
    (hLate : q = .closing ∨ q = .done) : Phased q v := by
  rcases hLate with rfl | rfl
  · exact of_late (by decide) (h.legs hWaiting) nofun h.replied
  · exact of_late (by decide) (h.legs hWaiting) nofun h.replied

/-- A copier goes on, or ends, and may have written some bytes. -/
theorem copy (h : Phased p v) {v' : Side → View} {d : Side} {copier : Copier} {bs : Bytes}
    (hOld : (v d).copier ≠ .idle) (hNew : copier ≠ .idle)
    (hHere : v' d = { v d with copier, copied := (v d).copied ++ bs })
    (hThere : v' d.other = { v d.other with sent := (v d.other).sent ++ bs }) : Phased p v' := by
  have hLate : ¬(p = .waiting ∨ p = .answering ∨ p = .confirming) :=
    fun hEarly => hOld (h.idle hEarly d)
  have hLegs := h.legs fun hWaiting => hLate (.inl hWaiting)
  refine of_late hLate ?_ ?_ ?_
  · intro s
    rcases s.eq_or_other d with rfl | rfl
    · rw [hHere]
      exact hLegs s
    · rw [hThere]
      exact hLegs d.other
  · intro hPhase s
    rcases s.eq_or_other d with rfl | rfl
    · rw [hHere]
      exact hNew
    · rw [hThere]
      exact h.piping hPhase d.other
  · intro s
    rcases s.eq_or_other d with rfl | rfl
    · rw [hHere, hThere]
      exact h.replied s
    have hReply := h.replied d.other
    rw [Side.other_other] at hReply ⊢
    rw [hHere, hThere]
    refine .inl ?_
    show (v d.other).sent ++ bs = okBytes ++ ((v d).copied ++ bs)
    rw [hReply.resolve_right fun hIdle => hOld hIdle.1, append_assoc]

section Answer

variable {d : Side} {n : Nat} {v' : Side → View}

/-- `handleDial` writes `OK`, of which `n` bytes get through. -/
theorem replied_answer (h : Phased p v) (hOwes : Owes (v d).leg d p)
    (hEarly : p = .waiting ∨ p = .answering ∨ p = .confirming)
    (hHere : v' d = { v d with sent := (v d).sent ++ okBytes.take n })
    (hThere : v' d.other = v d.other) (s : Side) :
    Replied (v' s.other).copier (v' s.other).copied (v' s).sent := by
  rcases s.eq_or_other d with rfl | rfl
  · rw [hHere, hThere, h.silent s hOwes, h.idle hEarly s.other]
    exact .inr ⟨rfl, .inl ( take_prefix n okBytes)⟩
  have hOld := h.replied d.other
  rw [Side.other_other] at hOld ⊢
  rw [hHere, hThere]
  exact hOld

theorem legs_answer (h : Phased p v) (hPhase : p ≠ .waiting)
    (hHere : v' d = { v d with sent := (v d).sent ++ okBytes.take n })
    (hThere : v' d.other = v d.other) (s : Side) :
    ∃ handler, (v' s).leg = .dispatched handler := by
  rcases s.eq_or_other d with rfl | rfl
  · rw [hHere]
    exact h.legs hPhase s
  · rw [hThere]
    exact h.legs hPhase d.other

theorem answer (h : Phased .answering v)
    (hHere : v' .dialer = { v .dialer with sent := (v .dialer).sent ++ okBytes.take n })
    (hThere : v' .peer = v .peer) :
    Phased (if okBytes.length ≤ n then .confirming else .closing) v' := by
  have hReplied := h.replied_answer trivial (.inr (.inl rfl)) hHere hThere
  have hLegs := h.legs_answer nofun hHere hThere
  split
  case isFalse => exact of_late (by decide) hLegs nofun hReplied
  case isTrue hFull =>
    refine ⟨fun _ => hLegs, ?_, ?_, ?_, nofun, hReplied⟩
    · intro _ s
      cases s with
      | dialer =>
        rw [hHere]
        exact h.idle (.inr (.inl rfl)) .dialer
      | peer =>
        rw [hThere]
        exact h.idle (.inr (.inl rfl)) .peer
    · rintro s rfl
      rw [hThere]
      exact h.silent .peer trivial
    · intro _
      rw [hHere, h.silent .dialer trivial, take_of_length_le hFull]
      rfl

/-- After the second `OK` the copying starts. -/
theorem confirm (h : Phased .confirming v) (hFull : okBytes.length ≤ n)
    (hCopied : ∀ s, (v s).copied = [])
    (hHere : v' .peer = { v .peer with sent := (v .peer).sent ++ okBytes.take n })
    (hThere : v' .dialer = v .dialer) :
    Phased .piping fun s => { v' s with copier := .reading } := by
  have hLegs := h.legs_answer nofun hHere hThere
  refine of_late (by decide) hLegs (fun _ _ => nofun) ?_
  intro s
  refine .inl ?_
  cases s with
  | dialer =>
    show (v' .dialer).sent = okBytes ++ (v' .peer).copied
    rw [hHere, hThere, hCopied, h.answered rfl, append_nil]
  | peer =>
    show (v' .peer).sent = okBytes ++ (v' .dialer).copied
    rw [hHere, hThere, hCopied, h.silent .peer rfl, take_of_length_le hFull, append_nil]
    rfl

end Answer

end Phased

/-! ## The tunnel -/

namespace Pipe

variable {x y : Pipe} {text : Side → Bytes} {d : Side} {e : End}

def view (x : Pipe) : Side → View := fun d => (x.ends d).view

/-- What holds in every state, where `text` are the commands without their line
feeds. -/
structure Inv (text : Side → Bytes) (x : Pipe) : Prop where
  sides : ∀ d, (x.ends d).Local (text d ++ [lineFeed]) (x.hungUp d)
  phased : Phased x.phase x.view

theorem Inv.init : Inv text Pipe.init where
  sides := fun _ => .init
  phased := ⟨nofun, fun _ _ => rfl, fun _ _ => rfl, nofun, nofun, fun _ => .unanswered⟩

theorem setEnd_self : (x.setEnd d e).ends d = e := update_self ..

theorem setEnd_other : (x.setEnd d e).ends d.other = x.ends d.other :=
  update_of_ne d.other_ne ..

theorem view_setEnd : (x.setEnd d e).view = update x.view d e.view := by
  funext s
  rcases s.eq_or_other d with rfl | rfl
  · rw [Pipe.view, setEnd_self, update_self]
  · rw [Pipe.view, setEnd_other, update_of_ne d.other_ne, Pipe.view]

theorem hungUp_setEnd_other : (x.setEnd d e).hungUp d.other = x.hungUp d.other := by
  rw [Pipe.hungUp, setEnd_other]
  rfl

theorem hungUp_setEnd_self (hLeg : e.leg = (x.ends d).leg) :
    (x.setEnd d e).hungUp d = x.hungUp d := by
  rw [Pipe.hungUp, setEnd_self, hLeg]
  rfl

variable (h : Inv text x)

include h

/-- What a step on one side has to show. -/
theorem Inv.setEnd (hLocal : e.Local (text d ++ [lineFeed]) ((x.setEnd d e).hungUp d))
    (hPhased : Phased x.phase (update x.view d e.view)) : Inv text (x.setEnd d e) where
  sides := by
    intro s
    rcases s.eq_or_other d with rfl | rfl
    · rw [setEnd_self]
      exact hLocal
    · rw [setEnd_other, hungUp_setEnd_other]
      exact h.sides d.other
  phased := by
    rw [view_setEnd]
    exact hPhased

theorem Inv.keep (hView : e.view = (x.ends d).view)
    (hLocal : e.Local (text d ++ [lineFeed]) (x.hungUp d)) : Inv text (x.setEnd d e) := by
  refine h.setEnd ?_ ?_
  · rw [hungUp_setEnd_self (congrArg View.leg hView)]
    exact hLocal
  · rw [hView]
    exact (update_eq_self d x.view).symm ▸ h.phased

/-- While the relay reads the command of a side, it has not written to it. -/
theorem Inv.reading {seen : Bytes} (hLeg : (x.ends d).leg = .reading seen) :
    x.phase = .waiting ∧ (x.ends d).down.sent = [] ∧ x.hungUp d = false := by
  have hWaiting : x.phase = .waiting := by
    by_contra hPhase
    obtain ⟨handler, hDispatched⟩ := h.phased.legs hPhase d
    cases hLeg.symm.trans hDispatched
  have hOwes : Owes (x.view d).leg d x.phase := by
    rw [hWaiting]
    show (x.ends d).leg ≠ .closed
    rw [hLeg]
    exact nofun
  refine ⟨hWaiting, h.phased.silent d hOwes, ?_⟩
  rw [Pipe.hungUp, hLeg, hWaiting]
  rfl

theorem Inv.client {line : GoString} {a : ClientAction} (hText : text d = textBytes line)
    (hStep : (x.ends d).clientStep line (x.hungUp d) a = some e) : Inv text (x.setEnd d e) := by
  have hSide := h.sides d
  rw [hText] at hSide
  obtain ⟨hOnly, hLocal⟩ := hSide.clientStep (h.phased.replied d).reply
    (fun seen hLeg => (h.reading hLeg).2) hStep
  refine h.keep hOnly.view ?_
  rw [hText]
  exact hLocal

theorem Inv.leg {a : LegAction} (hText : lineFeed ∉ text d)
    (hStep : (x.ends d).legStep a = some e) : Inv text (x.setEnd d e) := by
  obtain ⟨⟨seen, hLeg⟩, hSilent, hLocal⟩ := (h.sides d).legStep hText
    (fun seen hLeg => (h.reading hLeg).2.2) hStep
  refine h.setEnd hLocal ?_
  have hPhased := h.phased
  rw [(h.reading hLeg).1] at hPhased ⊢
  refine hPhased.early ?_ hSilent.copier hSilent.copied hSilent.sent
  show (x.ends d).leg ≠ .closed
  rw [hLeg]
  exact nofun

theorem Inv.refuse {handler : Handler} (hPhase : x.phase = .waiting)
    (hLeg : (x.ends d).leg = .dispatched handler) (r : Refusal) :
    Inv text (x.setEnd d ((x.ends d).refuse r)) := by
  have hPhased := h.phased
  rw [hPhase] at hPhased
  have hIdle : (x.ends d).copier = .idle := hPhased.idle (.inl rfl) d
  have hTaken := (h.sides d).taken
  rw [hLeg] at hTaken
  have hOpen : x.hungUp d = false := by
    rw [Pipe.hungUp, hLeg, hPhase]
    rfl
  refine h.setEnd ((h.sides d).refused ⟨rfl, rfl, rfl, rfl, Wire.arrived_send _ _, rfl, rfl⟩ hOpen
    hIdle (hTaken.1 hIdle) rfl) ?_
  rw [hPhase]
  refine hPhased.early ?_ rfl rfl (End.refuse_silent _ r).sent
  show (x.ends d).leg ≠ .closed
  rw [hLeg]
  exact nofun

/-- `handleDial` goes on without touching a connection, or closes some. -/
theorem Inv.goto {q : Phase}
    (hMore : ∀ d, x.hungUp d = true → { x with phase := q }.hungUp d = true)
    (hPhased : Phased q x.view) : Inv text { x with phase := q } where
  sides := fun d => (h.sides d).hangUp (hMore d)
  phased := hPhased

omit h

theorem view_setEnd_self : (x.setEnd d e).view d = e.view := by rw [Pipe.view, setEnd_self]

theorem view_setEnd_other : (x.setEnd d e).view d.other = x.view d.other := by
  rw [Pipe.view, setEnd_other]
  rfl

variable (h : Inv text x)

include h

/-- Between `receive` and the end of the copying both connections are open. -/
theorem Inv.open (hPhase : x.phase = .answering ∨ x.phase = .confirming ∨ x.phase = .piping) :
    x.hungUp d = false := by
  have hWaiting : x.phase ≠ .waiting := by rcases hPhase with h | h | h <;> rw [h] <;> exact nofun
  obtain ⟨handler, hLeg⟩ : ∃ handler, (x.ends d).leg = .dispatched handler :=
    h.phased.legs hWaiting d
  rw [Pipe.hungUp, hLeg]
  rcases hPhase with h | h | h <;> rw [h] <;> rfl

/-- `OK` goes out to a side. -/
theorem Inv.sendOK (hPhase : x.phase = .answering ∨ x.phase = .confirming) (n : Nat) (q : Phase)
    (s : Side) :
    ((x.sendOK d n q).ends s).Local (text s ++ [lineFeed]) ((x.sendOK d n q).hungUp s) := by
  have hOpen : ∀ {s}, x.hungUp s = false := h.open (hPhase.imp id .inl)
  rcases s.eq_or_other d with rfl | rfl
  · show ((x.setEnd s _).ends s).Local _ _
    rw [setEnd_self]
    exact (h.sides s).send hOpen _
  show ((x.setEnd d _).ends d.other).Local _ _
  rw [setEnd_other]
  exact (h.sides d.other).hangUp fun hHung =>
    absurd (hOpen.symm.trans hHung) Bool.false_ne_true

theorem Inv.answer (hPhase : x.phase = .answering) (n : Nat) :
    Inv text (x.sendOK .dialer n .confirming) where
  sides := h.sendOK (.inl hPhase) n _
  phased := by
    have hPhased := h.phased
    rw [hPhase] at hPhased
    let sent := (x.ends .dialer).send (okBytes.take n)
    exact hPhased.answer (view_setEnd_self (x := x) (d := .dialer) (e := sent))
      (view_setEnd_other (x := x) (d := .dialer) (e := sent))

theorem Inv.confirm (hPhase : x.phase = .confirming) (n : Nat) :
    Inv text (if okBytes.length ≤ n then (x.sendOK .peer n .piping).start
      else x.sendOK .peer n .piping) := by
  have hSides := h.sendOK (d := .peer) (.inr hPhase) n .piping
  have hPhased := h.phased
  rw [hPhase] at hPhased
  let sent := (x.ends .peer).send (okBytes.take n)
  have hHere := view_setEnd_self (x := x) (d := .peer) (e := sent)
  have hThere := view_setEnd_other (x := x) (d := .peer) (e := sent)
  have hLegs := hPhased.legs_answer nofun hHere hThere
  split
  case isFalse hPart =>
    refine ⟨hSides, ?_⟩
    rw [Pipe.sendOK, if_neg hPart]
    show Phased .closing _
    exact .of_late (by decide) hLegs nofun
      (hPhased.replied_answer rfl (.inr (.inr rfl)) hHere hThere)
  case isTrue hFull =>
    have hIdle : ∀ s, ((x.sendOK .peer n .piping).ends s).copier = .idle := by
      intro s
      cases s with
      | dialer => exact (congrArg View.copier hThere).trans (hPhased.idle (.inr (.inr rfl)) .dialer)
      | peer => exact (congrArg View.copier hHere).trans (hPhased.idle (.inr (.inr rfl)) .peer)
    refine ⟨?_, ?_⟩
    · intro s
      obtain ⟨handler, hLeg⟩ := hLegs s
      exact (hSides s).start (hIdle s) hLeg
    · rw [Pipe.start, Pipe.sendOK, if_pos hFull]
      refine hPhased.confirm hFull ?_ hHere hThere
      intro s
      obtain ⟨handler, hLeg⟩ : ∃ handler, (x.ends s).leg = .dispatched handler :=
        hPhased.legs nofun s
      have hTaken := (h.sides s).taken
      rw [hLeg] at hTaken
      exact hTaken.1 (hPhased.idle (.inr (.inr rfl)) s)

/-- A copier reads, or ends. -/
theorem Inv.copier (hOld : (x.ends d).copier ≠ .idle) (hNew : e.copier ≠ .idle)
    (hLocal : e.Local (text d ++ [lineFeed]) (x.hungUp d)) (hLeg : e.leg = (x.ends d).leg)
    (hCopied : e.copied = (x.ends d).copied) (hSent : e.down.sent = (x.ends d).down.sent) :
    Inv text (x.setEnd d e) := by
  have hHere : update x.view d e.view d =
      { x.view d with copier := e.copier, copied := (x.view d).copied ++ [] } := by
    rw [update_self, append_nil, End.view, hLeg, hCopied, hSent]
    rfl
  have hThere : update x.view d e.view d.other =
      { x.view d.other with sent := (x.view d.other).sent ++ [] } := by
    rw [update_of_ne d.other_ne, append_nil]
  refine h.setEnd ?_ (h.phased.copy hOld hNew hHere hThere)
  rw [hungUp_setEnd_self hLeg]
  exact hLocal

omit h

theorem setEnds_self {e' : End} : ((x.setEnd d e).setEnd d.other e').ends d = e :=
  (update_of_ne d.other_ne.symm ..).trans setEnd_self

/-- What a step on both sides has to show. -/
theorem Inv.setEnds {e' : End} (hLeg : e.leg = (x.ends d).leg)
    (hLeg' : e'.leg = (x.ends d.other).leg)
    (hLocal : e.Local (text d ++ [lineFeed]) (x.hungUp d))
    (hLocal' : e'.Local (text d.other ++ [lineFeed]) (x.hungUp d.other))
    (hPhased : ∀ v, v d = e.view → v d.other = e'.view → Phased x.phase v) :
    Inv text ((x.setEnd d e).setEnd d.other e') where
  sides := by
    intro s
    rcases s.eq_or_other d with rfl | rfl
    · rw [Pipe.hungUp, setEnds_self, hLeg]
      exact hLocal
    · rw [Pipe.hungUp, setEnd_self, hLeg']
      exact hLocal'
  phased := by
    refine hPhased _ ?_ ?_
    · rw [Pipe.view, setEnds_self]
    · rw [Pipe.view, setEnd_self]

/-- A copier writes. -/
theorem Inv.forward (h : Inv text x) {buf : Bytes} (hCopier : (x.ends d).copier = .writing buf)
    (n : Nat) : Inv text (x.forward d buf n) := by
  have hBusy : (x.ends d).copier ≠ .idle := by rw [hCopier]; exact nofun
  unfold Pipe.forward
  split
  case isTrue => exact h.copier hBusy nofun ((h.sides d).copyEnd hBusy) rfl rfl rfl
  case isFalse hOpen =>
    rw [Bool.not_eq_true] at hOpen
    refine Inv.setEnds rfl rfl ((h.sides d).forward hCopier n)
      ((h.sides d.other).send hOpen (buf.take n)) fun v hHere hThere => ?_
    exact h.phased.copy hBusy (by split <;> exact nofun) hHere hThere

/-- **Where the bytes are**, after any step. -/
theorem Inv.step {peerID token : GoString} {a : PipeAction}
    (hText : ∀ d, lineFeed ∉ textBytes (command peerID token d))
    (h : Inv (fun d => textBytes (command peerID token d)) x)
    (hStep : x.next peerID token a = some y) :
    Inv (fun d => textBytes (command peerID token d)) y := by
  cases a with
  | client d a =>
    obtain ⟨e, hClient, rfl⟩ := map_eq_some_iff.mp hStep
    exact h.client rfl hClient
  | leg d a =>
    obtain ⟨e, hLeg, rfl⟩ := map_eq_some_iff.mp hStep
    exact h.leg (hText d) hLeg
  | refuse d r =>
    rw [Pipe.next] at hStep
    split at hStep
    case h_1 handler hPhase hLeg =>
      cases hStep
      exact h.refuse hPhase hLeg r
    case h_2 => cases hStep
  | receive =>
    rw [Pipe.next] at hStep
    split at hStep
    case h_1 _ _ hPhase hDialer hPeer =>
      cases hStep
      have hPhased := h.phased
      rw [hPhase] at hPhased
      refine h.goto ?_ (hPhased.receive ?_)
      · intro d
        cases d <;> rw [Pipe.hungUp, Pipe.hungUp, hPhase] <;> exact id
      · intro d
        cases d with
        | dialer => exact ⟨_, hDialer⟩
        | peer => exact ⟨_, hPeer⟩
    case h_2 => cases hStep
  | answer n =>
    obtain ⟨hPhase, hStep⟩ := ite_none_right_eq_some.mp hStep
    cases hStep
    exact h.answer hPhase n
  | confirm n =>
    obtain ⟨hPhase, hStep⟩ := ite_none_right_eq_some.mp hStep
    cases hStep
    exact h.confirm hPhase n
  | copy d k =>
    rw [Pipe.next] at hStep
    split at hStep
    case h_2 => cases hStep
    case h_1 bs up hCopier hBytes =>
      obtain ⟨-, ⟨⟩⟩ := ite_none_left_eq_some.mp hStep
      exact h.copier (by rw [hCopier]; exact nofun) nofun ((h.sides d).copy hCopier hBytes)
        rfl rfl rfl
  | forward d n =>
    rw [Pipe.next] at hStep
    split at hStep
    case h_2 => cases hStep
    case h_1 buf hCopier =>
      cases hStep
      exact h.forward hCopier n
  | copyEnd d =>
    obtain ⟨hCopier, hStep⟩ := ite_none_right_eq_some.mp hStep
    cases hStep
    have hBusy : (x.ends d).copier ≠ .idle := by rw [hCopier]; exact nofun
    exact h.copier hBusy nofun ((h.sides d).copyEnd hBusy) rfl rfl rfl
  | pipeEnd =>
    obtain ⟨hPhase, hStep⟩ := ite_none_right_eq_some.mp hStep
    cases hStep
    refine h.goto ?_ (h.phased.close (by rw [hPhase.1]; exact nofun) (.inl rfl))
    intro d hHung
    exact absurd ((h.open (.inr (.inr hPhase.1))).symm.trans hHung) Bool.false_ne_true
  | hangUp =>
    obtain ⟨hPhase, hStep⟩ := ite_none_right_eq_some.mp hStep
    cases hStep
    refine h.goto ?_ (h.phased.close (by rw [hPhase]; exact nofun) (.inr rfl))
    intro d _
    simp [Pipe.hungUp]
  | sever d up =>
    cases up with
    | true =>
      cases hStep
      exact h.keep rfl (h.sides d).sever.1
    | false =>
      cases hStep
      exact h.keep rfl (h.sides d).sever.2

theorem Inv.read_front (h : Inv text x) (d : Side) :
    (x.ends d.other).read <+: (x.ends d).written := by
  have hReplied := h.phased.replied d.other
  rw [Side.other_other] at hReplied
  have hCopied : (x.ends d.other).read <+: (x.ends d).copied := by
    rcases (h.sides d.other).read_follows with hNone | hPart
    · rw [hNone]
      exact nil_prefix
    · exact hReplied.after hPart
  exact hCopied.trans (h.sides d).copied_front

/-- While the tunnel is up, what was not read yet is on the way. -/
theorem Inv.written_eq (h : Inv text x) {buffered : Bytes} (hPhase : x.phase = .piping)
    (hGoes : (x.ends d).copier ≠ .ended) (hClient : (x.ends d.other).client = .connected buffered) :
    (x.ends d).written =
      (x.ends d.other).read ++ buffered ++ (x.ends d.other).down.onWay ++
        (x.ends d).copier.held ++ (x.ends d).up.onWay := by
  have hBusy : (x.ends d).copier ≠ .idle := h.phased.piping hPhase d
  have hReplied := h.phased.replied d.other
  rw [Side.other_other] at hReplied
  have hSent : (x.ends d.other).down.sent = okBytes ++ (x.ends d).copied :=
    hReplied.resolve_right fun hIdle => hBusy hIdle.1
  have hIn := (h.sides d.other).incoming
  rw [hClient] at hIn
  have hArrived := hIn.resolve_right fun hLast =>
    absurd ((h.open (.inr (.inr hPhase))).symm.trans hLast.1.1) Bool.false_ne_true
  have hAll := (x.ends d.other).down.arrived_append_onWay
  rw [hArrived, hSent, append_assoc, append_assoc] at hAll
  rw [(h.sides d).written_eq hBusy hGoes, ← append_cancel_left hAll, ← append_assoc]

end Pipe

/-! ## The commands -/

theorem lineFeed_not_mem_textBytes {s : GoString} (h : ∀ c ∈ s, 32 ≤ c.toNat ∧ c.toNat < 128) :
    lineFeed ∉ textBytes s := by
  intro hMem
  obtain ⟨c, hc, hEq⟩ := mem_map.mp hMem
  obtain ⟨hLow, hHigh⟩ := h c hc
  have hNat := congrArg UInt8.toNat hEq
  rw [UInt8.toNat_ofNat', Nat.mod_eq_of_lt (by omega)] at hNat
  have hFeed : c.toNat = 10 := hNat
  omega

theorem printable_of_hexEncode {bytes : Bytes} :
    ∀ c ∈ hexEncode bytes, 32 ≤ c.toNat ∧ c.toNat < 128 := by
  intro c hc
  have hDigit := hexDecode_digits (hexDecode_hexEncode bytes) c hc
  unfold fromHexChar at hDigit
  split at hDigit
  · omega
  split at hDigit
  · omega
  · split at hDigit
    · omega
    · cases hDigit

theorem printable_of_validHexID {s : GoString} (h : validHexID s = true) :
    ∀ c ∈ s, 32 ≤ c.toNat ∧ c.toNat < 128 := by
  intro c hc
  obtain ⟨-, hAll⟩ := (Bool.and_eq_true_iff ..).mp h
  have hDigit := all_eq_true.mp hAll c hc
  simp only [Bool.or_eq_true, Bool.and_eq_true, decide_eq_true_eq, Char.le_def,
    UInt32.le_iff_toNat_le] at hDigit
  have h0 : '0'.val.toNat = 48 := rfl
  have h9 : '9'.val.toNat = 57 := rfl
  have ha : 'a'.val.toNat = 97 := rfl
  have hf : 'f'.val.toNat = 102 := rfl
  have hA : 'A'.val.toNat = 65 := rfl
  have hF : 'F'.val.toNat = 70 := rfl
  show 32 ≤ c.val.toNat ∧ c.val.toNat < 128
  omega

/-- The command of a dialer for an identifier that can be registered, or of a
peer with the token of a `handleDial`, is one line. -/
theorem lineFeed_not_mem_command {peerID : GoString} (hID : validHexID peerID = true)
    (bytes : Bytes) (d : Side) :
    lineFeed ∉ textBytes (command peerID (hexEncode bytes) d) := by
  intro hMem
  cases d with
  | dialer =>
    have hDial : lineFeed ∉ textBytes (cmdDial ++ [' ']) := by decide
    have hLine : command peerID (hexEncode bytes) .dialer = (cmdDial ++ [' ']) ++ peerID := rfl
    rw [hLine, textBytes, map_append] at hMem
    rcases mem_append.mp hMem with hCmd | hArg
    · exact hDial hCmd
    · exact lineFeed_not_mem_textBytes (printable_of_validHexID hID) hArg
  | peer =>
    have hTunnel : lineFeed ∉ textBytes (cmdTunnel ++ [' ']) := by decide
    have hLine : command peerID (hexEncode bytes) .peer =
      (cmdTunnel ++ [' ']) ++ hexEncode bytes := rfl
    rw [hLine, textBytes, map_append] at hMem
    rcases mem_append.mp hMem with hCmd | hArg
    · exact hTunnel hCmd
    · exact lineFeed_not_mem_textBytes printable_of_hexEncode hArg

/-! ## The stream -/

/-- **A tunnel is a transparent byte stream.** However the bytes are cut into
pieces on the four wires and by the reads, what a side has read is at every
moment a prefix of what the other side has written. While the tunnel is up,
what it has not read yet is in its buffer, on the way from the relay, in the
relay's buffer or on the way to the relay, in this order. -/
theorem tunnel_transparent {peerID : GoString} {bytes : Bytes} {as : List PipeAction} {x : Pipe}
    (hID : validHexID peerID = true)
    (hRun : Exec (stepOf fun x a => Pipe.next x peerID (hexEncode bytes) a) Pipe.init as x)
    (d : Side) :
    (x.ends d.other).read <+: (x.ends d).written ∧
    (x.phase = .piping → (x.ends d).copier ≠ .ended →
      ∀ buffered, (x.ends d.other).client = .connected buffered →
        (x.ends d).written =
          (x.ends d.other).read ++ buffered ++ (x.ends d.other).down.onWay ++
            (x.ends d).copier.held ++ (x.ends d).up.onWay) := by
  have hInv : Pipe.Inv (fun d => textBytes (command peerID (hexEncode bytes) d)) x :=
    hRun.invariant .init fun hInv hStep => hInv.step (lineFeed_not_mem_command hID bytes) hStep
  exact ⟨hInv.read_front d, fun hPhase hGoes _ hClient => hInv.written_eq hPhase hGoes hClient⟩

/-- The peer is so fast that its first bytes come to the dialer in one piece
with the `OK`; the dialer then reads byte by byte. -/
def fastPeerRun : List PipeAction :=
  [.client .dialer (.command 70), .leg .dialer (.fill 30), .leg .dialer (.fill 40),
    .client .peer (.command 40), .leg .peer (.fill 40), .receive, .answer 3, .confirm 3,
    .client .peer (.fill 3), .client .peer (.write [1, 2, 3]), .copy .peer 3, .forward .peer 3,
    .client .dialer (.fill 5), .client .dialer (.read 1 0), .client .dialer (.read 8 0),
    .client .dialer (.read 8 1)]

theorem tunnel_transparent_fastPeerRun :
    ∃ x, Exec (stepOf fun x a => Pipe.next x (List.replicate 64 'a')
        (hexEncode (List.replicate 16 0)) a) Pipe.init fastPeerRun x ∧
      (x.ends .dialer).read = [1, 2, 3] ∧ (x.ends .dialer).read <+: (x.ends .peer).written := by
  refine Exec.exists_of_runFrom (p := fun x => (x.ends .dialer).read = [1, 2, 3])
    (by decide +kernel) ?_
  exact fun x hRun hRead => ⟨hRead, (tunnel_transparent (by decide) hRun .peer).1⟩

end AltNet.Relay
