import AltNet.Relay.Server

/-!
# AltNet — the queues of the relay (`core/relay/server.go`)

`handleDial` looks a registration up under the lock and sends to its queue
later, when it has made a token. In between the peer may go away:
`handleRegister` drops the registration, which keeps others from finding it,
and closes the queue. A send that comes after that panics.

Main results:

* `Roster.Inv.step` — the registrations in the map are open, and no queue is
  closed twice;
* `relay_panic_free` — as long as no queue is closed while a `handleDial` that
  has found it is still to send, there is no panic; and if one is closed then,
  there may be one;
* `dial_panics` — a run with a panic.
-/

namespace AltNet.Relay

open List Server

/-! ## Who has to do with a registration -/

/-- The registration that `handleRegister` has entered and not yet dropped. -/
def Handler.owns : Handler → Option Nat
  | .greeting r | .refused r | .listening r | .dropping r => some r
  | _ => none

/-- The registration whose queue `handleRegister` is about to close. -/
def Handler.closes : Handler → Option Nat
  | .closing r => some r
  | _ => none

/-- The registration that `handleDial` has found, and to which it is still to
send. -/
def Handler.dials : Handler → Option Nat
  | .found r | .pushing r _ _ => some r
  | _ => none

/-- What matters here of a registration. -/
structure Face where
  peerID : GoString
  conn : Nat
  closed : Bool

def Registration.face (g : Registration) : Face := ⟨g.peerID, g.conn, g.out.closed⟩

namespace Server

def faces (s : Server) : List Face := s.regs.map Registration.face

/-- Who has to do with which registration. -/
structure Roster where
  handlers : List Handler
  faces : List Face
  table : GoMap GoString Nat
  panic : Option Panic

def roster (s : Server) : Roster := ⟨s.handlers, s.faces, s.registrations, s.panic⟩

/-- All that a step can do to the registrations. -/
inductive Change (v : Roster) : Action → Roster → Prop
  /-- none of the goroutines of the connections -/
  | quiet {a} : Change v a v
  | accept : Change v .accept { v with handlers := v.handlers ++ [.reading] }
  /-- a goroutine goes on, with the registration that it had or with none -/
  | goto {c e h h'} : v.handlers[c]? = some h → h'.owns = h.owns → h'.closes = h.closes →
      h'.dials = h.dials ∨ h'.dials = none →
      Change v (.handler c e) { v with handlers := v.handlers.set c h' }
  | register {c e peerID} : v.handlers[c]? = some (.registering peerID) →
      Change v (.handler c e) { v with
        handlers := v.handlers.set c (.greeting v.faces.length)
        faces := v.faces ++ [⟨peerID, c, false⟩]
        table := v.table.insert peerID v.faces.length }
  | drop {c e h h' r f} : v.handlers[c]? = some h → h.owns = some r → v.faces[r]? = some f →
      h'.owns = none → h'.closes = some r ∨ h'.closes = none → h'.dials = none →
      Change v (.handler c e) { v with
        handlers := v.handlers.set c h'
        table := if v.table.lookup f.peerID = some r then v.table.erase f.peerID else v.table }
  | close {c e r f} : v.handlers[c]? = some (.closing r) → v.faces[r]? = some f →
      Change v (.handler c e) { v with
        handlers := v.handlers.set c (.joining r)
        faces := v.faces.set r { f with closed := true } }
  | find {c e peerID r} : v.handlers[c]? = some (.dialing peerID) →
      v.table.lookup peerID = some r →
      Change v (.handler c e) { v with handlers := v.handlers.set c (.found r) }
  /-- a panic: a queue is closed again, or a send comes to a closed queue -/
  | panic {c e h r f panic} : v.handlers[c]? = some h → h.closes = some r ∨ h.dials = some r →
      v.faces[r]? = some f → f.closed = true → Change v (.handler c e) { v with panic }

variable {s s' t : Server} {a : Action} {c r : Nat} {e : Event} {h h' : Handler}
  {as : List Action} {f : Face} {g : Registration} {line peerID : GoString} {v v' : Roster}

theorem faces_of_regs (hReg : s.regs[r]? = some g) : s.faces[r]? = some g.face := by
  rw [faces, getElem?_map, hReg]
  rfl

/-- A goroutine goes on, after something that leaves the registrations alone. -/
theorem Change.onward (hAt : s.handlers[c]? = some h) (hRoster : t.roster = s.roster)
    (hOwns : h'.owns = h.owns) (hCloses : h'.closes = h.closes)
    (hDials : h'.dials = h.dials ∨ h'.dials = none) :
    Change s.roster (.handler c e) (t.goto c h').roster := by
  have hGoto : (t.goto c h').roster = { t.roster with handlers := t.roster.handlers.set c h' } :=
    rfl
  rw [hGoto, hRoster]
  exact .goto hAt hOwns hCloses hDials

theorem Change.of_faces {fs : List Face} (hFaces : t.faces = fs)
    (hChange : Change v a ⟨t.handlers, fs, t.registrations, t.panic⟩) : Change v a t.roster := by
  rw [roster, hFaces]
  exact hChange

/-- A registration changes in what does not matter here. -/
theorem roster_set {g' : Registration} (hReg : s.regs[r]? = some g)
    (hRegs : t.regs = s.regs.set r g') (hFace : g'.face = g.face)
    (hRest : (⟨t.handlers, s.faces, t.registrations, t.panic⟩ : Roster) = s.roster) :
    t.roster = s.roster := by
  have hFaces : t.faces = s.faces := by
    rw [faces, hRegs]
    exact pool_map_set hReg hFace
  rw [← hRest, ← hFaces]
  rfl

/-- The first line of a connection makes it one of three. -/
theorem dispatch_cases (hOk : dispatch line = .ok h) :
    (∃ peerID, h = .registering peerID) ∨ (∃ peerID, h = .dialing peerID) ∨
      ∃ token, h = .tunnelling token := by
  unfold dispatch at hOk
  split at hOk
  · cases hOk
  split at hOk
  · split at hOk
    · split at hOk
      · exact .inl ⟨_, (Except.ok.inj hOk).symm⟩
      · cases hOk
    · cases hOk
  · split at hOk
    · split at hOk
      · exact .inr (.inl ⟨_, (Except.ok.inj hOk).symm⟩)
      · cases hOk
    · split at hOk
      · split at hOk
        · exact .inr (.inr ⟨_, (Except.ok.inj hOk).symm⟩)
        · cases hOk
      · cases hOk

theorem dispatch_ok (hOk : dispatch line = .ok h) :
    h.owns = none ∧ h.closes = none ∧ h.dials = none := by
  rcases dispatch_cases hOk with ⟨_, rfl⟩ | ⟨_, rfl⟩ | ⟨_, rfl⟩
  · exact ⟨rfl, rfl, rfl⟩
  · exact ⟨rfl, rfl, rfl⟩
  · exact ⟨rfl, rfl, rfl⟩

theorem handle_change (hAt : s.handlers[c]? = some .reading) :
    Change s.roster (.handler c e) (s.handle c line).roster := by
  unfold handle
  split
  case h_1 h hOk =>
    obtain ⟨hOwns, hCloses, hDials⟩ := dispatch_ok hOk
    exact .onward hAt rfl hOwns hCloses (.inr hDials)
  case h_2 => exact .onward hAt rfl rfl rfl (.inr rfl)

theorem register_change (hAt : s.handlers[c]? = some (.registering peerID)) :
    Change s.roster (.handler c e) (s.register c peerID).roster := by
  have hLength : s.faces.length = s.regs.length := length_map _
  have hRoster : (s.register c peerID).roster = { s.roster with
      handlers := s.handlers.set c (.greeting s.faces.length)
      faces := s.faces ++ [⟨peerID, c, false⟩]
      table := s.registrations.insert peerID s.faces.length } := by
    have hFaces : (s.register c peerID).faces = s.faces ++ [⟨peerID, c, false⟩] := map_append
    rw [roster, hFaces, hLength]
    unfold register
    split
    · split
      · rfl
      · rfl
    · rfl
  rw [hRoster]
  exact .register hAt

theorem dropRegistration_eq (hReg : s.regs[r]? = some g) :
    s.dropRegistration r = (if s.registrations.lookup g.peerID = some r then
      { s with registrations := s.registrations.erase g.peerID } else s).closeConn g.conn := by
  unfold dropRegistration
  rw [hReg]

theorem drop_change (hAt : s.handlers[c]? = some h) (hOwns : h.owns = some r)
    (hReg : s.regs[r]? = some g) (hOwns' : h'.owns = none)
    (hCloses : h'.closes = some r ∨ h'.closes = none) (hDials : h'.dials = none) :
    Change s.roster (.handler c e) ((s.dropRegistration r).goto c h').roster := by
  have hRoster : ((s.dropRegistration r).goto c h').roster = { s.roster with
      handlers := s.handlers.set c h'
      table := if s.registrations.lookup g.peerID = some r then
        s.registrations.erase g.peerID else s.registrations } := by
    rw [dropRegistration_eq hReg]
    split
    · rfl
    · rfl
  rw [hRoster]
  exact .drop (v := s.roster) (f := g.face) hAt hOwns (faces_of_regs hReg) hOwns' hCloses hDials

/-- What a goroutine does to the registrations, provided that its own is
there. -/
theorem Acts.change (hOwner : ∀ r, h.owns = some r → ∃ g, s.regs[r]? = some g)
    (hAt : s.handlers[c]? = some h) (hActs : s.Acts c h e s') :
    Change s.roster (.handler c e) s'.roster := by
  cases hActs with
  | handle => exact handle_change hAt
  -- `handleRegister`
  | register => exact register_change hAt
  | greet hReg => exact .onward hAt (roster_set hReg rfl rfl rfl) rfl rfl (.inr rfl)
  | giveUp =>
    obtain ⟨g, hReg⟩ := hOwner _ rfl
    exact drop_change hAt rfl hReg rfl (.inr rfl) rfl
  | drop =>
    obtain ⟨g, hReg⟩ := hOwner _ rfl
    exact drop_change hAt rfl hReg rfl (.inl rfl) rfl
  | closeAgain hReg hNone =>
    exact .panic hAt (.inl rfl) (faces_of_regs hReg) (Chan.close_eq_none.mp hNone)
  | @close r g out hReg hSome =>
    obtain ⟨-, rfl⟩ := Chan.close_eq_some hSome
    exact .of_faces map_set (.close (v := s.roster) (f := g.face) hAt (faces_of_regs hReg))
  -- `handleDial`
  | find hFound => exact .find hAt hFound
  | pend => exact .onward hAt rfl rfl rfl (.inl rfl)
  | @push r token ch g out hReg hSent =>
    obtain ⟨hOpen, hOpen', -⟩ := Chan.trySend_eq_sent hSent
    refine .onward hAt (roster_set hReg rfl ?_ rfl) rfl rfl (.inr rfl)
    show (⟨g.peerID, g.conn, out.closed⟩ : Face) = ⟨g.peerID, g.conn, g.out.closed⟩
    rw [hOpen, hOpen']
  | pushLate hReg hPanic =>
    exact .panic hAt (.inr rfl) (faces_of_regs hReg) (Chan.trySend_eq_panic.mp hPanic)
  -- the others only write, close a connection, wait or look at tokens
  | gone | greetFails | listen | lose | join | miss | noRandom | pushFull | receive | timeout
  | answer | answerFails | confirm | confirmFails | pipeEnd | leave | badToken | present
  | handOver | race =>
    exact .onward hAt rfl rfl rfl (.inr rfl)

theorem next_eq_some : s.next a = some s' ↔ s.panic = none ∧ s.step a = some s' := by
  unfold next
  split
  case isTrue hSome =>
    refine ⟨nofun, fun h => ?_⟩
    rw [h.1] at hSome
    cases hSome
  case isFalse hNone =>
    have hPanic := Option.not_isSome_iff_eq_none.mp hNone
    exact ⟨fun h => ⟨hPanic, h⟩, fun h => h.2⟩

theorem step_handler (hAt : s.handlers[c]? = some h) : s.step (.handler c e) = s.act c h e := by
  simp only [step, hAt]

theorem Change.of_eq (hSame : v' = v) : Change v a v' := hSame ▸ .quiet

/-- What a step does to the registrations, provided that they are there. -/
theorem step_change (hOwner : ∀ (c : Nat) h r, s.handlers[c]? = some h → h.owns = some r →
    ∃ g, s.regs[r]? = some g) (hStep : s.step a = some s') :
    Change s.roster a s'.roster := by
  cases step_steps hStep with
  | accept => exact .accept
  | handler hAt hActs => exact hActs.change (fun r => hOwner _ _ r hAt) hAt
  | @take r g line out hReg hItem =>
    refine .of_eq (roster_set hReg rfl ?_ rfl)
    show (⟨g.peerID, g.conn, out.closed⟩ : Face) = ⟨g.peerID, g.conn, g.out.closed⟩
    rw [(Chan.tryReceive_eq_item hItem).1]
  | ended hReg | write hReg | writeFails hReg => exact .of_eq (roster_set hReg rfl rfl rfl)
  | stopAgain | stop | stopListener | stopConn => exact .quiet

/-! ## The registrations in every run -/

/-- A registration is entered, dropped and closed by the goroutine of its own
connection, in this order: until then it is open, and only while it has not
been dropped it may be in the map. -/
structure Roster.Inv (v : Roster) : Prop where
  owner : ∀ (c : Nat) h r, v.handlers[c]? = some h → h.owns = some r ∨ h.closes = some r →
    ∃ f, v.faces[r]? = some f ∧ f.conn = c ∧ f.closed = false
  table : ∀ id r, v.table.lookup id = some r →
    ∃ f h, v.faces[r]? = some f ∧ f.peerID = id ∧ v.handlers[f.conn]? = some h ∧ h.owns = some r

namespace Roster

theorem Inv.init : init.roster.Inv := ⟨nofun, nofun⟩

/-- Another goroutine takes a step, or the owner does and keeps what it owns. -/
theorem owns_set {j : Nat} {k : Handler} (hAt : v.handlers[c]? = some h)
    (hOwner : v.handlers[j]? = some k) (hOwns : k.owns = some r)
    (hKeep : h.owns = some r → h'.owns = some r) :
    ∃ k', (v.handlers.set c h')[j]? = some k' ∧ k'.owns = some r := by
  by_cases hSame : j = c
  · subst hSame
    cases hAt.symm.trans hOwner
    exact ⟨h', pool_set_self hAt, hKeep hOwns⟩
  · exact ⟨k, pool_set_other hSame hOwner, hOwns⟩

variable (hInv : v.Inv)

include hInv

/-- A goroutine goes on with the registration that it has, or without one. -/
theorem Inv.onward (hAt : v.handlers[c]? = some h) (hOwns : h'.owns = h.owns)
    (hCloses : h'.closes = h.closes) : Inv { v with handlers := v.handlers.set c h' } := by
  refine ⟨?_, ?_⟩
  · intro j k r hj hHas
    rcases pool_set_cases hj with ⟨rfl, rfl⟩ | ⟨-, hOld⟩
    · rw [hOwns, hCloses] at hHas
      exact hInv.owner _ _ r hAt hHas
    · exact hInv.owner j k r hOld hHas
  · intro id r hFound
    obtain ⟨f, k, hFace, hID, hOwner, hHas⟩ := hInv.table id r hFound
    obtain ⟨k', hOwner', hHas'⟩ := owns_set hAt hOwner hHas fun hOld => hOwns.trans hOld
    exact ⟨f, k', hFace, hID, hOwner', hHas'⟩

theorem Inv.register (hAt : v.handlers[c]? = some (.registering peerID)) :
    Inv { v with
      handlers := v.handlers.set c (.greeting v.faces.length)
      faces := v.faces ++ [⟨peerID, c, false⟩]
      table := v.table.insert peerID v.faces.length } := by
  refine ⟨?_, ?_⟩
  · intro j k r hj hHas
    rcases pool_set_cases hj with ⟨rfl, rfl⟩ | ⟨-, hOld⟩
    · rcases hHas with hOwns | hCloses
      · cases hOwns
        exact ⟨_, pool_append_self, rfl, rfl⟩
      · cases hCloses
    · obtain ⟨f, hFace, hConn, hOpen⟩ := hInv.owner j k r hOld hHas
      exact ⟨f, pool_append_old hFace, hConn, hOpen⟩
  · intro id r hFound
    rcases GoMap.lookup_insert_cases hFound with ⟨rfl, rfl⟩ | ⟨-, hOld⟩
    · exact ⟨_, _, pool_append_self, rfl, pool_set_self hAt, rfl⟩
    · obtain ⟨f, k, hFace, hID, hOwner, hHas⟩ := hInv.table id r hOld
      obtain ⟨k', hOwner', hHas'⟩ := owns_set hAt hOwner hHas nofun
      exact ⟨f, k', pool_append_old hFace, hID, hOwner', hHas'⟩

/-- After `dropRegistration` the registration is not in the map, neither under
its own identifier nor under another one. -/
theorem Inv.dropped {id : GoString} {r' : Nat} (hFace : v.faces[r]? = some f)
    (hFound : (if v.table.lookup f.peerID = some r then v.table.erase f.peerID
      else v.table).lookup id = some r') :
    v.table.lookup id = some r' ∧ r' ≠ r := by
  split at hFound
  case isTrue hCurrent =>
    obtain ⟨hOther, hOld⟩ := GoMap.lookup_of_lookup_erase hFound
    refine ⟨hOld, ?_⟩
    rintro rfl
    obtain ⟨f', _, hFace', hID, -, -⟩ := hInv.table id r' hOld
    cases hFace.symm.trans hFace'
    exact hOther hID.symm
  case isFalse hCurrent =>
    refine ⟨hFound, ?_⟩
    rintro rfl
    obtain ⟨f', _, hFace', hID, -, -⟩ := hInv.table id r' hFound
    cases hFace.symm.trans hFace'
    rw [hID] at hCurrent
    exact hCurrent hFound

theorem Inv.drop (hAt : v.handlers[c]? = some h) (hOwns : h.owns = some r)
    (hFace : v.faces[r]? = some f) (hOwns' : h'.owns = none)
    (hCloses : h'.closes = some r ∨ h'.closes = none) :
    Inv { v with
      handlers := v.handlers.set c h'
      table := if v.table.lookup f.peerID = some r then v.table.erase f.peerID
        else v.table } := by
  refine ⟨?_, ?_⟩
  · intro j k r' hj hHas
    rcases pool_set_cases hj with ⟨rfl, rfl⟩ | ⟨-, hOld⟩
    · -- it is the dropped one that it is about to close
      rw [hOwns', or_iff_right nofun] at hHas
      rcases hCloses with hSame | hNone
      · cases hSame.symm.trans hHas
        exact hInv.owner _ _ r hAt (.inl hOwns)
      · cases hNone.symm.trans hHas
    · exact hInv.owner j k r' hOld hHas
  · intro id r' hFound
    obtain ⟨hOld, hOther⟩ := hInv.dropped hFace hFound
    obtain ⟨f', k, hFace', hID, hOwner, hHas⟩ := hInv.table id r' hOld
    obtain ⟨k', hOwner', hHas'⟩ := owns_set hAt hOwner hHas fun hSame =>
      absurd (Option.some.inj (hSame.symm.trans hOwns)) hOther
    exact ⟨f', k', hFace', hID, hOwner', hHas'⟩

theorem Inv.close (hAt : v.handlers[c]? = some (.closing r)) (hFace : v.faces[r]? = some f) :
    Inv { v with
      handlers := v.handlers.set c (.joining r)
      faces := v.faces.set r { f with closed := true } } := by
  -- whoever closes it is the goroutine of its connection
  have hConn : f.conn = c := by
    obtain ⟨f', hFace', hConn, -⟩ := hInv.owner c _ r hAt (.inr rfl)
    cases hFace.symm.trans hFace'
    exact hConn
  refine ⟨?_, ?_⟩
  · intro j k r' hj hHas
    rcases pool_set_cases hj with ⟨rfl, rfl⟩ | ⟨hOther, hOld⟩
    · rcases hHas with hOwns | hCloses
      · cases hOwns
      · cases hCloses
    obtain ⟨f', hFace', hConn', hOpen⟩ := hInv.owner j k r' hOld hHas
    refine ⟨f', pool_set_other ?_ hFace', hConn', hOpen⟩
    rintro rfl
    cases hFace.symm.trans hFace'
    exact hOther (hConn'.symm.trans hConn)
  · intro id r' hFound
    obtain ⟨f', k, hFace', hID, hOwner, hHas⟩ := hInv.table id r' hFound
    obtain ⟨k', hOwner', hHas'⟩ := owns_set hAt hOwner hHas nofun
    refine ⟨f', k', pool_set_other ?_ hFace', hID, hOwner', hHas'⟩
    rintro rfl
    cases hFace.symm.trans hFace'
    rw [hConn, hAt] at hOwner
    cases hOwner
    cases hHas

/-- **One step** of the relay. -/
theorem Inv.step (hChange : Change v a v') : v'.Inv := by
  cases hChange with
  | quiet => exact hInv
  | accept =>
    refine ⟨?_, ?_⟩
    · intro c h r hAt hHas
      rcases pool_append_cases hAt with ⟨-, rfl⟩ | ⟨-, hOld⟩
      · rcases hHas with hOwns | hCloses
        · cases hOwns
        · cases hCloses
      · exact hInv.owner c h r hOld hHas
    · intro id r hFound
      obtain ⟨f, h, hFace, hID, hOwner, hOwns⟩ := hInv.table id r hFound
      exact ⟨f, h, hFace, hID, pool_append_old hOwner, hOwns⟩
  | goto hAt hOwns hCloses hDials => exact hInv.onward hAt hOwns hCloses
  | register hAt => exact hInv.register hAt
  | drop hAt hOwns hFace hOwns' hCloses hDials => exact hInv.drop hAt hOwns hFace hOwns' hCloses
  | close hAt hFace => exact hInv.close hAt hFace
  | find hAt hFound => exact hInv.onward hAt rfl rfl
  | panic => exact ⟨hInv.owner, hInv.table⟩

end Roster

theorem regs_of_faces (hFace : s.faces[r]? = some f) : ∃ g, s.regs[r]? = some g ∧ g.face = f := by
  rw [faces, getElem?_map] at hFace
  exact Option.map_eq_some_iff.mp hFace

theorem Roster.Inv.change (hInv : s.roster.Inv) (hStep : s.next a = some s') :
    Change s.roster a s'.roster := by
  refine step_change (fun c h r hAt hOwns => ?_) (next_eq_some.mp hStep).2
  obtain ⟨f, hFace, -, -⟩ := hInv.owner c h r hAt (.inl hOwns)
  obtain ⟨g, hReg, -⟩ := regs_of_faces hFace
  exact ⟨g, hReg⟩

/-! ## Closing with care -/

/-- The step does not close a queue that a `handleDial` has found and to which
it is still to send. -/
def Undialed (s : Server) : Action → Prop
  | .handler c _ => ∀ r, s.handlers[c]? = some (.closing r) → ∀ h ∈ s.handlers, h.dials ≠ some r
  | _ => True

/-- The same as a check. -/
def undialed (s : Server) : Action → Bool
  | .handler c _ =>
    match s.handlers[c]? with
    | some (.closing r) => s.handlers.all fun h => h.dials ≠ some r
    | _ => true
  | _ => true

theorem undialed_sound (hCheck : s.undialed a = true) : s.Undialed a := by
  cases a with
  | handler c e =>
    intro r hAt h hMem
    simp only [undialed, hAt] at hCheck
    exact of_decide_eq_true (all_eq_true.mp hCheck h hMem)
  | _ => trivial

/-- Whoever is going to send has an open queue. -/
def Roster.Safe (v : Roster) : Prop :=
  ∀ (c : Nat) h r, v.handlers[c]? = some h → h.dials = some r →
    ∃ f, v.faces[r]? = some f ∧ f.closed = false

/-- A goroutine goes on, with the queue that it had or with none, and the
queues that others have stay open. -/
theorem Roster.Safe.onward (hSafe : v.Safe) (hAt : v.handlers[c]? = some h)
    (hHandlers : v'.handlers = v.handlers.set c h') (hDials : h'.dials = h.dials ∨ h'.dials = none)
    (hOpen : ∀ k ∈ v.handlers, ∀ r f, k.dials = some r → v.faces[r]? = some f →
      v'.faces[r]? = some f) : v'.Safe := by
  intro j k r hj hHas
  rw [hHandlers] at hj
  obtain ⟨i, k₀, hOld, hDials₀⟩ : ∃ (i : Nat) (k₀ : Handler), v.handlers[i]? = some k₀ ∧
      k₀.dials = some r := by
    rcases pool_set_cases hj with ⟨rfl, rfl⟩ | ⟨-, hOld⟩
    · rcases hDials with hSame | hNone
      · exact ⟨_, _, hAt, hSame.symm.trans hHas⟩
      · cases hNone.symm.trans hHas
    · exact ⟨j, k, hOld, hHas⟩
  obtain ⟨f, hFace, hClosed⟩ := hSafe i k₀ r hOld hDials₀
  exact ⟨f, hOpen k₀ (mem_of_getElem? hOld) r f hDials₀ hFace, hClosed⟩

/-- **One step**, if it closes no queue to which somebody is going to send. -/
theorem Roster.Safe.step (hSafe : v.Safe) (hInv : v.Inv)
    (hUndialed : ∀ c e, a = .handler c e → ∀ r, v.handlers[c]? = some (.closing r) →
      ∀ h ∈ v.handlers, h.dials ≠ some r)
    (hChange : Change v a v') : v'.Safe ∧ v'.panic = v.panic := by
  cases hChange with
  | quiet => exact ⟨hSafe, rfl⟩
  | accept =>
    refine ⟨?_, rfl⟩
    intro j k r hj hDials
    rcases pool_append_cases hj with ⟨-, rfl⟩ | ⟨-, hOld⟩
    · cases hDials
    · exact hSafe j k r hOld hDials
  | goto hAt hOwns hCloses hDials =>
    exact ⟨hSafe.onward hAt rfl hDials fun _ _ _ _ _ hFace => hFace, rfl⟩
  | register hAt =>
    exact ⟨hSafe.onward hAt rfl (.inr rfl) fun _ _ _ _ _ hFace => pool_append_old hFace, rfl⟩
  | drop hAt hOwns hFace hOwns' hCloses hDials =>
    exact ⟨hSafe.onward hAt rfl (.inr hDials) fun _ _ _ _ _ hFace => hFace, rfl⟩
  | close hAt hFace =>
    refine ⟨hSafe.onward hAt rfl (.inr rfl) ?_, rfl⟩
    intro k hMem r f hDials hFace'
    refine pool_set_other ?_ hFace'
    rintro rfl
    exact hUndialed _ _ rfl r hAt k hMem hDials
  | find hAt hFound =>
    refine ⟨?_, rfl⟩
    intro j k r hj hDials
    rcases pool_set_cases hj with ⟨rfl, rfl⟩ | ⟨-, hOld⟩
    · -- what is in the map has an owner, and is open
      cases hDials
      obtain ⟨f, h, hFace, -, hOwner, hOwns⟩ := hInv.table _ _ hFound
      obtain ⟨f', hFace', -, hOpen⟩ := hInv.owner _ _ _ hOwner (.inl hOwns)
      exact ⟨f', hFace', hOpen⟩
    · exact hSafe j k r hOld hDials
  | @panic c e h r f _ hAt hHolds hFace hClosed =>
    -- the queue is open, be it to be closed or to be sent to
    exfalso
    obtain ⟨f', hFace', hOpen⟩ : ∃ f' : Face, v.faces[r]? = some f' ∧ f'.closed = false := by
      rcases hHolds with hCloses | hDials
      · obtain ⟨f', hFace', -, hOpen⟩ := hInv.owner c h r hAt (.inr hCloses)
        exact ⟨f', hFace', hOpen⟩
      · exact hSafe c h r hAt hDials
    cases hFace.symm.trans hFace'
    exact Bool.false_ne_true (hOpen.symm.trans hClosed)

theorem Roster.Safe.run (hRun : Exec (guarded (stepOf next) Undialed) init as s) :
    s.roster.Inv ∧ s.panic = none := by
  have hAll : s.roster.Inv ∧ s.roster.Safe ∧ s.panic = none := by
    refine hRun.invariant (I := fun s => s.roster.Inv ∧ s.roster.Safe ∧ s.panic = none)
      ⟨Roster.Inv.init, nofun, rfl⟩ ?_
    rintro t a t' ⟨hInv, hSafe, hPanic⟩ ⟨hStep, hUndialed⟩
    have hChange := hInv.change hStep
    obtain ⟨hSafe', hPanic'⟩ := hSafe.step hInv (by rintro c e rfl; exact hUndialed) hChange
    exact ⟨hInv.step hChange, hSafe', hPanic'.trans hPanic⟩
  exact ⟨hAll.1, hAll.2.2⟩

/-! ## Closing without -/

/-- A send to a closed queue. -/
theorem push_panics {token : GoString} {ch : Nat} (hPanic : s.panic = none)
    (hAt : s.handlers[c]? = some (.pushing r token ch)) (hReg : s.regs[r]? = some g)
    (hClosed : g.out.closed = true) :
    s.next (.handler c .run) = some { s with panic := some (.sendOnClosed c r) } := by
  refine next_eq_some.mpr ⟨hPanic, ?_⟩
  rw [step_handler hAt]
  show s.push c r token ch = _
  simp only [push, hReg, Chan.trySend_eq_panic.mpr hClosed]

/-- Whoever has found a queue that is closed now need only go on. -/
theorem late_send_panics (hPanic : s.panic = none) (hAt : s.handlers[c]? = some h)
    (hDials : h.dials = some r) (hReg : s.regs[r]? = some g) (hClosed : g.out.closed = true) :
    ∃ bs t, Exec (stepOf next) s bs t ∧ t.panic = some (.sendOnClosed c r) := by
  unfold Handler.dials at hDials
  split at hDials
  case h_1 =>
    cases hDials
    let bytes : Bytes := replicate 16 0
    have hPend : s.next (.handler c (.random (some bytes))) = some (s.pend c r bytes) := by
      refine next_eq_some.mpr ⟨hPanic, ?_⟩
      rw [step_handler hAt]
      rfl
    have hPush := push_panics (s := s.pend c r bytes) hPanic (pool_set_self hAt) hReg hClosed
    exact ⟨_, _, (Exec.single hPend).snoc hPush, rfl⟩
  case h_2 r' token ch =>
    cases hDials
    exact ⟨_, _, Exec.single (push_panics hPanic hAt hReg hClosed), rfl⟩
  case h_3 => cases hDials

/-- Only one thing can happen when a queue is to be closed. -/
theorem act_closing (hStep : s.act c (.closing r) e = some s') : s.closeQueue c r = some s' := by
  cases e with
  | run => exact hStep
  | _ => cases hStep

theorem closeQueue_open (hReg : s.regs[r]? = some g) (hOpen : g.out.closed = false) :
    s.closeQueue c r = some ({ s with
      regs := s.regs.set r { g with out := { g.out with closed := true } } }.goto c
        (.joining r)) := by
  have hClose : g.out.close = some { g.out with closed := true } := by
    unfold Chan.close
    rw [hOpen]
    rfl
  simp only [closeQueue, hReg, hClose]

/-- The closing of a queue, which is open. -/
theorem Roster.Inv.closing (hInv : s.roster.Inv) (hAt : s.handlers[c]? = some (.closing r))
    (hStep : s.next (.handler c e) = some s') :
    ∃ g, s'.regs[r]? = some g ∧ g.out.closed = true ∧
      s'.handlers = s.handlers.set c (.joining r) ∧ s'.panic = none := by
  obtain ⟨hPanic, hAct⟩ := next_eq_some.mp hStep
  rw [step_handler hAt] at hAct
  obtain ⟨f, hFace, -, hOpen⟩ := hInv.owner c _ r hAt (.inr rfl)
  obtain ⟨g, hReg, rfl⟩ := regs_of_faces hFace
  cases (closeQueue_open hReg hOpen).symm.trans (act_closing hAct)
  exact ⟨_, pool_set_self hReg, rfl, rfl, hPanic⟩

end Server

/-- **No panic, if queues are closed with care.** In every run of the relay in
which no queue is closed while a `handleDial` that has found it is still to
send, it has not panicked; and as soon as a queue is closed otherwise, it can
panic, without anybody outside doing anything more. -/
theorem relay_panic_free {as : List Action} {s : Server}
    (hRun : Exec (guarded (stepOf next) Server.Undialed) init as s) :
    s.panic = none ∧
    ∀ a s', s.next a = some s' → ¬ s.Undialed a →
      ∃ bs t c r, Exec (stepOf next) s' bs t ∧ t.panic = some (.sendOnClosed c r) := by
  obtain ⟨hInv, hPanic⟩ := Server.Roster.Safe.run hRun
  refine ⟨hPanic, ?_⟩
  intro a s' hStep hDialed
  cases a with
  | handler c e =>
    unfold Server.Undialed at hDialed
    push Not at hDialed
    obtain ⟨r, hAt, h, hMem, hDials⟩ := hDialed
    obtain ⟨g, hReg, hClosed, hHandlers, hPanic'⟩ := hInv.closing hAt hStep
    obtain ⟨d, hDialer⟩ := mem_iff_getElem?.mp hMem
    have hOther : d ≠ c := by
      rintro rfl
      cases hAt.symm.trans hDialer
      cases hDials
    have hDialer' : s'.handlers[d]? = some h := by
      rw [hHandlers]
      exact pool_set_other hOther hDialer
    obtain ⟨bs, t, hMore, hLast⟩ := late_send_panics hPanic' hDialer' hDials hReg hClosed
    exact ⟨bs, t, d, r, hMore, hLast⟩
  | _ => exact absurd trivial hDialed

/-- A peer that registers, and the token that it will be given. -/
def samplePeer : GoString := replicate 64 'a'

def sampleRandom : Bytes := replicate 16 0

def commandLine (cmd arg : GoString) : Option GoString := some (cmd ++ ' ' :: arg)

/-- Connection `c` is accepted, registers the peer, and is told so. -/
def registerRun (c : Nat) : List Action :=
  [.accept, .handler c (.line (commandLine cmdRegister samplePeer)), .handler c .run,
    .handler c (.wrote true)]

/-- Connection `c` is accepted and dials the peer, up to its `OPEN`. -/
def dialRun (c : Nat) : List Action :=
  [.accept, .handler c (.line (commandLine cmdDial samplePeer)), .handler c .run,
    .handler c (.random (some sampleRandom)), .handler c .run]

/-- The writer of registration `r` writes one line. -/
def writerRun (r : Nat) : List Action := [.writer r .run, .writer r (.wrote true)]

/-- Connection `c` is accepted and handed to a dialer. -/
def tunnelRun (c : Nat) : List Action :=
  [.accept, .handler c (.line (commandLine cmdTunnel (hexEncode sampleRandom))), .handler c .run,
    .handler c .run]

/-- The peer of connection `c`, with registration `r`, goes away. -/
def goneRun (c r : Nat) : List Action :=
  [.handler c (.read false), .handler c .run, .handler c .run, .writer r .run, .handler c .run]

/-- A tunnel, during which the peer registers anew: the old registration is
dropped and closed, the new one stays, and the tunnel is not disturbed. -/
def tunnelledRun : List Action :=
  registerRun 0 ++ dialRun 1 ++ writerRun 0 ++ tunnelRun 2 ++
    [.handler 1 .run, .handler 1 (.wrote true), .handler 1 (.wrote true)] ++
    registerRun 3 ++ goneRun 0 0 ++ [.handler 1 .pipeEnd, .handler 1 .run]

theorem relay_panic_free_tunnelledRun :
    ∃ s, Exec (guarded (stepOf next) Server.Undialed) init tunnelledRun s ∧
      s.handlers = [.done, .done, .done, .listening 1] ∧
      s.registrations.lookup samplePeer = some 1 ∧ s.panic = none := by
  refine Exec.exists_of_checked (p := fun s =>
      s.handlers = [.done, .done, .done, .listening 1] ∧
      s.registrations.lookup samplePeer = some 1)
    next undialed (fun hNext hOk => ⟨hNext, undialed_sound hOk⟩)
    (by decide +kernel) ?_
  rintro s hRun ⟨hHandlers, hFound⟩
  exact ⟨hHandlers, hFound, (relay_panic_free hRun).1⟩

/-- The dialer has found the peer when that one goes away; it makes its token,
and pushes its `OPEN`. -/
def lateRun : List Action :=
  registerRun 0 ++ (dialRun 1).take 3 ++ (goneRun 0 0).take 3 ++ (dialRun 1).drop 3

/-- **A dialer that comes too late** takes the whole relay down. -/
theorem dial_panics :
    ∃ s, Exec (stepOf next) init lateRun s ∧
      s.panic = some (.sendOnClosed 1 0) :=
  Exec.exists_of_runFrom (by decide +kernel) fun _ _ hPanic => hPanic

end AltNet.Relay
