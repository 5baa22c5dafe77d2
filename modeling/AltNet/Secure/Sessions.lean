import AltNet.Lib.Trace
import AltNet.Lib.Pool
import AltNet.Secure.Handshake

/-!
# AltNet — handshakes on a hostile network (`core/secure/secure.go`)

Any number of `Handshake` calls, of any keys and in both roles, on connections
that are all in the attacker's hand: it sees every message, and each call
reads whatever bytes the attacker gives it. A call is a session. It stops
where it waits for bytes, and, for a responder, between its signature and the
derivation of the keys, since its reply is on the wire by then. The deadline
or a failing write may end it at every such place.

What is signed with the long-term keys is recorded. Signatures are ideal for
the keys in `honest` when no message verifies under one of them that the owner
has not signed; these keys sign nothing outside the handshake.

Main results:

* `Session.act_cases` — all that a session can do in one step;
* `Handshakes.Inv.run` — in every run, each signature belongs to a session that
  was to sign it, and each accepted signature of an honest key was made.
-/

namespace AltNet

open List

/-- A `Handshake` call: its arguments and its ephemeral key, all bytes that
have arrived and those that are still to be read, the bytes it has written, the
message it has accepted, and its result. -/
structure Session where
  role : Role
  myKey : Bytes
  expected : Option Bytes
  ephPriv : Bytes
  arrived : Bytes
  conn : Stream
  wrote : Bytes
  peer : Option HandshakeMessage
  outcome : Option (Except HandshakeError SecureConn)

/-- What can happen to a session: bytes or the end of the stream arrive; it
reads and checks the other side's message; the responder, whose reply is
written, derives its keys; or it is ended from outside. -/
inductive SessionAction where
  | deliver (bytes : Bytes)
  | deliverEnd
  | receive
  | finish
  | abort
  deriving DecidableEq

namespace Session

variable (S : Suite) (t : Session)

/-- The session's public ephemeral key. -/
def eph : Bytes := S.ephPublic t.ephPriv

/-- What the other side has to have signed. -/
def toVerify (msg : HandshakeMessage) : Bytes :=
  match t.role with
  | .initiator => msg.ephPub ++ t.eph S
  | .responder => msg.ephPub

/-- Sign, and write the handshake message. -/
def write (data : Bytes) : Session :=
  match writeHandshake (S.publicOf t.myKey) (t.eph S) (S.sign t.myKey data) with
  | .ok bytes => { t with wrote := t.wrote ++ bytes }
  | .error e => { t with outcome := some (.error e) }

/-- A call up to its first wait, and what it has signed. -/
def start (role : Role) (myKey : Bytes) (expected : Option Bytes) (ephPriv : Bytes) :
    Session × List (Bytes × Bytes) :=
  let t : Session := ⟨role, myKey, expected, ephPriv, [], ⟨[], false⟩, [], none, none⟩
  match role with
  | .initiator => (t.write S (t.eph S), [(S.publicOf myKey, t.eph S)])
  | .responder => (t, [])

/-- `finishHandshake`, with the message that was accepted. -/
def derive (msg : HandshakeMessage) : Except HandshakeError SecureConn :=
  S.finishHandshake t.role t.ephPriv msg.ephPub msg.ltPub

/-- The message was read: the checks, and what comes after them. -/
def accept (msg : HandshakeMessage) : Session × List (Bytes × Bytes) :=
  if t.expected.any fun remote => msg.ltPub ≠ remote then
    ({ t with outcome := some (.error .identityMismatch) }, [])
  else if S.verify msg.ltPub (t.toVerify S msg) msg.sig then
    let t := { t with peer := some msg }
    match t.role with
    | .initiator => ({ t with outcome := some (t.derive S msg) }, [])
    | .responder =>
      (t.write S (t.eph S ++ msg.ephPub), [(S.publicOf t.myKey, t.eph S ++ msg.ephPub)])
  else ({ t with outcome := some (.error (.badSignature t.role.other)) }, [])

/-- The connection, if the call has succeeded. -/
def secured : Option SecureConn :=
  match t.outcome with
  | some (.ok c) => some c
  | _ => none

/-- One step, with what it signs; `none` when it cannot be taken. -/
def act : SessionAction → Option (Session × List (Bytes × Bytes))
  | .deliver bytes =>
    some ({ t with arrived := t.arrived ++ bytes, conn := t.conn.append bytes }, [])
  | .deliverEnd => some ({ t with conn := { t.conn with ended := true } }, [])
  | .receive =>
    if t.outcome.isSome ∨ t.peer.isSome then none
    else
      match readHandshake t.conn with
      | none => none
      | some (conn, .error e) => some ({ t with conn, outcome := some (.error (.raw e)) }, [])
      | some (conn, .ok msg) => some (accept S { t with conn } msg)
  | .finish =>
    match t.role, t.peer, t.outcome with
    | .responder, some msg, none => some ({ t with outcome := some (t.derive S msg) }, [])
    | _, _, _ => none
  | .abort =>
    match t.outcome with
    | none => some ({ t with outcome := some (.error .aborted) }, [])
    | some _ => none

end Session

open Session

/-- All sessions there have been, and all that was signed with long-term keys,
by public key. -/
structure Handshakes where
  sessions : List Session
  signed : List (Bytes × Bytes)

inductive HandshakeAction where
  | start (role : Role) (myKey : Bytes) (expected : Option Bytes) (ephPriv : Bytes)
  | session (i : Nat) (a : SessionAction)
  deriving DecidableEq

namespace Handshakes

def init : Handshakes := ⟨[], []⟩

/-- The next state; `none` when the step cannot be taken. -/
def next (S : Suite) (s : Handshakes) : HandshakeAction → Option Handshakes
  | .start role myKey expected ephPriv =>
    let (t, new) := start S role myKey expected ephPriv
    some ⟨s.sessions ++ [t], new ++ s.signed⟩
  | .session i a =>
    match s.sessions[i]? with
    | none => none
    | some t => (t.act S a).map fun (t', new) => ⟨s.sessions.set i t', new ++ s.signed⟩

/-- **Ideal signatures**: what verifies under an honest key was signed with
it. -/
def IdealVerify (S : Suite) (honest : Bytes → Prop) (s : Handshakes) : HandshakeAction → Prop
  | .session i .receive => ∀ t conn msg, s.sessions[i]? = some t →
      readHandshake t.conn = some (conn, .ok msg) → honest msg.ltPub →
      S.verify msg.ltPub (t.toVerify S msg) msg.sig = true →
      (msg.ltPub, t.toVerify S msg) ∈ s.signed
  | _ => True

/-- **Fresh ephemerals**: no two sessions have the same ephemeral key. -/
def FreshEphemeral (S : Suite) (s : Handshakes) : HandshakeAction → Prop
  | .start _ _ _ ephPriv => ∀ t ∈ s.sessions, t.eph S ≠ S.ephPublic ephPriv
  | _ => True

/-- Both as checks, for every key. -/
def modelled (S : Suite) (s : Handshakes) : HandshakeAction → Bool
  | .start _ _ _ ephPriv => s.sessions.all fun t => t.eph S ≠ S.ephPublic ephPriv
  | .session i .receive =>
    match s.sessions[i]? with
    | none => true
    | some t =>
      match readHandshake t.conn with
      | some (_, .ok msg) =>
        !S.verify msg.ltPub (t.toVerify S msg) msg.sig ||
          (msg.ltPub, t.toVerify S msg) ∈ s.signed
      | _ => true
  | .session _ _ => true

end Handshakes

/-! ## One session -/

namespace Session

variable {S : Suite} {t t' : Session} {new : List (Bytes × Bytes)}

theorem length_eph (S : Suite) (t : Session) : (t.eph S).length = 32 := S.length_ephPublic _

/-- The sizes are always right, so that a message is written whenever one is to
be. -/
theorem write_eq (t : Session) (data : Bytes) : t.write S data =
    { t with wrote := t.wrote ++
      (S.publicOf t.myKey ++ t.eph S ++ S.sign t.myKey data) } := by
  unfold write writeHandshake
  rw [if_neg (not_not.mpr (S.length_publicOf _)), if_neg (not_not.mpr (length_eph S t)),
    if_neg (not_not.mpr (S.length_sign _ _))]

variable {a : SessionAction} {c : SecureConn}

theorem secured_eq_some : t.secured = some c ↔ t.outcome = some (.ok c) := by
  unfold secured
  constructor
  · intro h
    split at h
    · rename_i c' hOutcome
      cases h
      exact hOutcome
    · cases h
  · intro h
    rw [h]

/-- What never changes about a session, and what only comes to be known. -/
structure Leads (t t' : Session) : Prop where
  role : t'.role = t.role
  myKey : t'.myKey = t.myKey
  ephPriv : t'.ephPriv = t.ephPriv
  peer : ∀ msg, t.peer = some msg → t'.peer = some msg
  outcome : ∀ r, t.outcome = some r → t'.outcome = some r

theorem Leads.refl (t : Session) : t.Leads t := ⟨rfl, rfl, rfl, fun _ h => h, fun _ h => h⟩

/-- How a step changes what matters of a session. -/
inductive Change (S : Suite) (t t' : Session) : SessionAction → List (Bytes × Bytes) → Prop
  /-- Nothing is read. -/
  | quiet (a : SessionAction) (more : Bytes) (hArrived : t'.arrived = t.arrived ++ more)
    (hPending : t'.conn.pending = t.conn.pending ++ more) (hPeer : t'.peer = t.peer)
    (hOutcome : t'.outcome = t.outcome) : Change S t t' a []
  /-- It fails. -/
  | fail (a : SessionAction) (e : HandshakeError) (hPeer : t'.peer = t.peer)
    (hBefore : t.outcome = none) (hOutcome : t'.outcome = some (.error e))
    (hWhy : e = .aborted ∨ t.peer = none) : Change S t t' a []
  /-- The initiator accepts the reply. -/
  | accepted (conn : Stream) (msg : HandshakeMessage) (hRole : t.role = .initiator)
    (hRead : readHandshake t.conn = some (conn, .ok msg))
    (hVerify : S.verify msg.ltPub (t.toVerify S msg) msg.sig = true)
    (hBefore : t.peer = none) (hOpen : t.outcome = none)
    (hPeer : t'.peer = some msg) (hOutcome : t'.outcome = some (t.derive S msg)) :
    Change S t t' .receive []
  /-- The responder accepts the first message and signs its reply. -/
  | replied (conn : Stream) (msg : HandshakeMessage) (hRole : t.role = .responder)
    (hRead : readHandshake t.conn = some (conn, .ok msg))
    (hVerify : S.verify msg.ltPub (t.toVerify S msg) msg.sig = true)
    (hBefore : t.peer = none) (hOpen : t.outcome = none)
    (hPeer : t'.peer = some msg) (hOutcome : t'.outcome = none) :
    Change S t t' .receive [(S.publicOf t.myKey, t.eph S ++ msg.ephPub)]
  /-- The responder derives its keys. -/
  | finished (msg : HandshakeMessage) (hRole : t.role = .responder) (hBefore : t.peer = some msg)
    (hOpen : t.outcome = none) (hPeer : t'.peer = some msg)
    (hOutcome : t'.outcome = some (t.derive S msg)) : Change S t t' .finish []

/-- The checks on a message that was read. -/
theorem accept_change {conn : Stream} {msg : HandshakeMessage}
    (hRead : readHandshake t.conn = some (conn, .ok msg)) (hBefore : t.peer = none)
    (hOpen : t.outcome = none) (hAct : accept S { t with conn } msg = (t', new)) :
    (t'.role = t.role ∧ t'.myKey = t.myKey ∧ t'.ephPriv = t.ephPriv ∧ t.arrived <+: t'.arrived) ∧
      Change S t t' .receive new := by
  unfold accept at hAct
  split at hAct
  · cases hAct
    exact ⟨⟨rfl, rfl, rfl, prefix_rfl⟩, .fail _ _ rfl hOpen rfl (.inr hBefore)⟩
  split at hAct
  · rename_i hVerify
    cases hRole : t.role with
    | initiator =>
      dsimp only at hAct
      rw [hRole] at hAct
      cases hAct
      exact ⟨⟨rfl, rfl, rfl, prefix_rfl⟩,
        .accepted conn msg hRole hRead hVerify hBefore hOpen rfl (by
          unfold derive
          rw [hRole])⟩
    | responder =>
      dsimp only at hAct
      rw [hRole] at hAct
      dsimp only at hAct
      rw [write_eq] at hAct
      cases hAct
      exact ⟨⟨rfl, rfl, rfl, prefix_rfl⟩,
        .replied conn msg hRole hRead hVerify hBefore hOpen rfl hOpen⟩
  · cases hAct
    exact ⟨⟨rfl, rfl, rfl, prefix_rfl⟩, .fail _ _ rfl hOpen rfl (.inr hBefore)⟩

/-- **All that a session does in one step.** -/
theorem act_cases (hAct : t.act S a = some (t', new)) :
    (t'.role = t.role ∧ t'.myKey = t.myKey ∧ t'.ephPriv = t.ephPriv ∧ t.arrived <+: t'.arrived) ∧
      Change S t t' a new := by
  cases a with
  | deliver bytes =>
    cases hAct
    exact ⟨⟨rfl, rfl, rfl, prefix_append _ _⟩, .quiet _ bytes rfl rfl rfl rfl⟩
  | deliverEnd =>
    cases hAct
    exact ⟨⟨rfl, rfl, rfl, prefix_rfl⟩,
      .quiet _ [] (append_nil _).symm (append_nil _).symm rfl rfl⟩
  | receive =>
    unfold act at hAct
    dsimp only at hAct
    split at hAct
    · cases hAct
    rename_i hWaiting
    rw [not_or, Bool.not_eq_true, Bool.not_eq_true, Option.isSome_eq_false_iff,
      Option.isNone_iff_eq_none, Option.isSome_eq_false_iff, Option.isNone_iff_eq_none] at hWaiting
    obtain ⟨hOpen, hBefore⟩ := hWaiting
    split at hAct
    · cases hAct
    · cases hAct
      exact ⟨⟨rfl, rfl, rfl, prefix_rfl⟩, .fail _ _ rfl hOpen rfl (.inr hBefore)⟩
    · rename_i conn msg hRead
      exact accept_change hRead hBefore hOpen (Option.some.inj hAct)
  | finish =>
    unfold act at hAct
    dsimp only at hAct
    split at hAct
    · rename_i msg hRole hPeer hOpen
      cases hAct
      exact ⟨⟨rfl, rfl, rfl, prefix_rfl⟩, .finished msg hRole hPeer hOpen hPeer rfl⟩
    · cases hAct
  | abort =>
    unfold act at hAct
    dsimp only at hAct
    split at hAct
    · rename_i hOpen
      cases hAct
      exact ⟨⟨rfl, rfl, rfl, prefix_rfl⟩, .fail _ _ rfl hOpen rfl (.inl rfl)⟩
    · cases hAct

theorem Leads.act (hAct : t.act S a = some (t', new)) : t.Leads t' := by
  obtain ⟨⟨hRole, hKey, hEph, -⟩, hChange⟩ := act_cases hAct
  have hNone : ∀ {α : Type} {x : Option α} {P : α → Prop}, x = none → ∀ y, x = some y → P y := by
    intro α x P hx y hy
    rw [hx] at hy
    cases hy
  cases hChange with
  | quiet _ _ _ _ hPeer hOutcome =>
    exact ⟨hRole, hKey, hEph, fun msg h => hPeer.trans h, fun r h => hOutcome.trans h⟩
  | fail _ e hPeer hBefore _ _ =>
    exact ⟨hRole, hKey, hEph, fun msg h => hPeer.trans h, hNone hBefore⟩
  | accepted _ msg _ _ _ hBefore hOpen _ _ | replied _ msg _ _ _ hBefore hOpen _ _ =>
    exact ⟨hRole, hKey, hEph, hNone hBefore, hNone hOpen⟩
  | finished msg _ hBefore hOpen hPeer _ =>
    exact ⟨hRole, hKey, hEph, fun m h => hPeer.trans (hBefore.symm.trans h), hNone hOpen⟩

/-- The message that the session signs. -/
def Signs (S : Suite) (t : Session) (data : Bytes) : Prop :=
  (t.role = .initiator ∧ data = t.eph S) ∨
  (t.role = .responder ∧ ∃ msg, t.peer = some msg ∧ data = t.eph S ++ msg.ephPub)

theorem Leads.eph (h : t.Leads t') : t'.eph S = t.eph S := congrArg S.ephPublic h.ephPriv

theorem Leads.signs (h : t.Leads t') {data : Bytes} (hSigns : t.Signs S data) :
    t'.Signs S data := by
  rcases hSigns with ⟨hRole, hData⟩ | ⟨hRole, msg, hPeer, hData⟩
  · exact .inl ⟨h.role.trans hRole, hData.trans h.eph.symm⟩
  · refine .inr ⟨h.role.trans hRole, msg, h.peer msg hPeer, ?_⟩
    rw [h.eph]
    exact hData

/-- A session that waits has read nothing. What it has accepted were the first
bytes that arrived, and was signed, if the key is honest; and its result comes
of what it has accepted. -/
structure Ok (S : Suite) (honest : Bytes → Prop) (signed : List (Bytes × Bytes)) (t : Session) :
    Prop where
  waiting : t.peer = none → t.outcome = none → t.conn.pending = t.arrived
  keys : ∀ msg, t.peer = some msg → msg.ltPub.length = 32 ∧ msg.ephPub.length = 32 ∧
    msg.ltPub ++ msg.ephPub <+: t.arrived
  checked : ∀ msg, t.peer = some msg → honest msg.ltPub → (msg.ltPub, t.toVerify S msg) ∈ signed
  result : ∀ r, t.outcome = some r → r = .error .aborted ∨
    (t.peer = none ∧ ∃ e, r = .error e) ∨ ∃ msg, t.peer = some msg ∧ r = t.derive S msg

variable {honest : Bytes → Prop} {signed : List (Bytes × Bytes)}

variable (h : t.Ok S honest signed)

include h

theorem Ok.mono (more : List (Bytes × Bytes)) : t.Ok S honest (more ++ signed) := by
  refine ⟨h.waiting, h.keys, fun msg hPeer hHonest => ?_, h.result⟩
  exact mem_append_right _ (h.checked msg hPeer hHonest)

/-- The first bytes that arrived are the keys that were accepted. -/
theorem Ok.take_arrived {msg : HandshakeMessage} (hPeer : t.peer = some msg) :
    t.arrived.take 64 = msg.ltPub ++ msg.ephPub := by
  obtain ⟨hLtPub, hEphPub, hFront⟩ := h.keys msg hPeer
  have hLength : (msg.ltPub ++ msg.ephPub).length = 64 := by
    rw [length_append, hLtPub, hEphPub]
  rw [← hLength]
  exact (prefix_iff_eq_take.mp hFront).symm

/-- A session that succeeded. -/
theorem Ok.success (hOk : t.secured = some c) :
    ∃ msg, t.peer = some msg ∧ t.derive S msg = .ok c ∧ c.remotePub = msg.ltPub := by
  rcases h.result _ (secured_eq_some.mp hOk) with hAborted | ⟨-, e, hError⟩ | ⟨msg, hPeer, hDerive⟩
  · cases hAborted
  · cases hError
  · exact ⟨msg, hPeer, hDerive.symm, S.finishHandshake_remotePub hDerive.symm⟩

/-- **One step of a session**, in which what verifies under an honest key was
signed. -/
theorem Ok.act (hAct : t.act S a = some (t', new))
    (hIdeal : a = .receive → ∀ conn msg, readHandshake t.conn = some (conn, .ok msg) →
      honest msg.ltPub → S.verify msg.ltPub (t.toVerify S msg) msg.sig = true →
      (msg.ltPub, t.toVerify S msg) ∈ signed) : t'.Ok S honest (new ++ signed) := by
  obtain ⟨⟨hRole, -, hEph, hMore⟩, hChange⟩ := act_cases hAct
  have hVerifies : ∀ msg, t'.toVerify S msg = t.toVerify S msg := by
    intro msg
    unfold toVerify eph
    rw [hRole, hEph]
  have hDerives : ∀ msg, t'.derive S msg = t.derive S msg := by
    intro msg
    unfold derive
    rw [hRole, hEph]
  -- a message that was read in this step
  have hNew : ∀ {conn msg}, a = .receive → readHandshake t.conn = some (conn, .ok msg) →
      S.verify msg.ltPub (t.toVerify S msg) msg.sig = true → t.peer = none → t.outcome = none →
      (msg.ltPub.length = 32 ∧ msg.ephPub.length = 32 ∧ msg.ltPub ++ msg.ephPub <+: t'.arrived) ∧
        (honest msg.ltPub → (msg.ltPub, t'.toVerify S msg) ∈ new ++ signed) := by
    intro conn msg hReceive hRead hVerify hBefore hOpen
    obtain ⟨hLtPub, hEphPub, hFront⟩ := readHandshake_keys hRead
    rw [h.waiting hBefore hOpen] at hFront
    refine ⟨⟨hLtPub, hEphPub, hFront.trans hMore⟩, fun hHonest => ?_⟩
    rw [hVerifies]
    exact mem_append_right _ (hIdeal hReceive conn _ hRead hHonest hVerify)
  -- one that was accepted before
  have hKeys : ∀ {m}, t.peer = some m → m.ltPub.length = 32 ∧ m.ephPub.length = 32 ∧
      m.ltPub ++ m.ephPub <+: t'.arrived := by
    intro m hm
    obtain ⟨hLtPub, hEphPub, hFront⟩ := h.keys m hm
    exact ⟨hLtPub, hEphPub, hFront.trans hMore⟩
  have hOld : ∀ {m}, t.peer = some m → honest m.ltPub →
      (m.ltPub, t'.toVerify S m) ∈ new ++ signed := by
    intro m hm hHonest
    rw [hVerifies]
    exact mem_append_right _ (h.checked m hm hHonest)
  cases hChange with
  | quiet _ more hArrived hPending hPeer hOutcome =>
    refine ⟨fun hp ho => ?_, fun m hm => hKeys (hPeer.symm.trans hm),
      fun m hm => hOld (hPeer.symm.trans hm), fun r hr => ?_⟩
    · rw [hPending, hArrived, h.waiting (hPeer.symm.trans hp) (hOutcome.symm.trans ho)]
    · rw [hPeer]
      simp only [hDerives]
      exact h.result r (hOutcome.symm.trans hr)
  | fail _ e hPeer hBefore hOutcome hWhy =>
    refine ⟨fun _ ho => ?_, fun m hm => hKeys (hPeer.symm.trans hm),
      fun m hm => hOld (hPeer.symm.trans hm), fun r hr => ?_⟩
    · rw [hOutcome] at ho
      cases ho
    · rw [hOutcome] at hr
      cases hr
      rcases hWhy with rfl | hNone
      · exact .inl rfl
      · exact .inr (.inl ⟨hPeer.trans hNone, e, rfl⟩)
  | accepted conn msg _ hRead hVerify hBefore hOpen hPeer hOutcome =>
    obtain ⟨hLengths, hSigned⟩ := hNew rfl hRead hVerify hBefore hOpen
    refine ⟨fun hp => ?_, fun m hm => ?_, fun m hm => ?_,
      fun r hr => .inr (.inr ⟨msg, hPeer, ?_⟩)⟩
    · rw [hPeer] at hp
      cases hp
    · cases hPeer.symm.trans hm
      exact hLengths
    · cases hPeer.symm.trans hm
      exact hSigned
    · rw [hOutcome] at hr
      cases hr
      exact (hDerives msg).symm
  | replied conn msg _ hRead hVerify hBefore hOpen hPeer hOutcome =>
    obtain ⟨hLengths, hSigned⟩ := hNew rfl hRead hVerify hBefore hOpen
    refine ⟨fun hp => ?_, fun m hm => ?_, fun m hm => ?_, fun r hr => ?_⟩
    · rw [hPeer] at hp
      cases hp
    · cases hPeer.symm.trans hm
      exact hLengths
    · cases hPeer.symm.trans hm
      exact hSigned
    · rw [hOutcome] at hr
      cases hr
  | finished msg _ hBefore _ hPeer hOutcome =>
    have hSame : t'.peer = t.peer := hPeer.trans hBefore.symm
    refine ⟨fun hp => ?_, fun m hm => hKeys (hSame.symm.trans hm),
      fun m hm => hOld (hSame.symm.trans hm), fun r hr => .inr (.inr ⟨msg, hPeer, ?_⟩)⟩
    · rw [hPeer] at hp
      cases hp
    · rw [hOutcome] at hr
      cases hr
      exact (hDerives msg).symm

end Session

/-! ## All sessions -/

namespace Handshakes

variable {S : Suite} {honest : Bytes → Prop} {s s' : Handshakes} {a : HandshakeAction}

/-- All that a step does: a session starts, or one of them takes a step. -/
theorem next_cases (hStep : s.next S a = some s') :
    (∃ role myKey expected ephPriv t new, a = .start role myKey expected ephPriv ∧
      start S role myKey expected ephPriv = (t, new) ∧
      s' = ⟨s.sessions ++ [t], new ++ s.signed⟩) ∨
    (∃ i b t t' new, a = .session i b ∧ s.sessions[i]? = some t ∧ t.act S b = some (t', new) ∧
      s' = ⟨s.sessions.set i t', new ++ s.signed⟩) := by
  cases a with
  | start role myKey expected ephPriv =>
    cases hStep
    exact .inl ⟨role, myKey, expected, ephPriv, _, _, rfl, rfl, rfl⟩
  | session i b =>
    unfold next at hStep
    dsimp only at hStep
    split at hStep
    · cases hStep
    · rename_i t ht
      obtain ⟨⟨t', new⟩, hAct, rfl⟩ := Option.map_eq_some_iff.mp hStep
      exact .inr ⟨i, b, t, t', new, rfl, ht, hAct, rfl⟩

variable {ephPriv myKey : Bytes} {expected : Option Bytes} {new : List (Bytes × Bytes)}
  {role : Role} {t : Session}

/-- A new session has accepted nothing yet. -/
theorem start_fresh (h : start S role myKey expected ephPriv = (t, new)) :
    t.role = role ∧ t.myKey = myKey ∧ t.ephPriv = ephPriv ∧ t.peer = none ∧ t.outcome = none ∧
      t.conn.pending = t.arrived ∧
        ∀ P data, (P, data) ∈ new → S.publicOf t.myKey = P ∧ t.Signs S data := by
  unfold start at h
  cases role with
  | initiator =>
    dsimp only at h
    rw [write_eq] at h
    cases h
    refine ⟨rfl, rfl, rfl, rfl, rfl, rfl, fun P data hNew => ?_⟩
    cases mem_singleton.mp hNew
    exact ⟨rfl, .inl ⟨rfl, rfl⟩⟩
  | responder =>
    cases h
    exact ⟨rfl, rfl, rfl, rfl, rfl, rfl, nofun⟩

/-- What holds of all runs with ideal signatures. -/
structure Inv (S : Suite) (honest : Bytes → Prop) (s : Handshakes) : Prop where
  sessions : ∀ (i : Nat) t, s.sessions[i]? = some t → t.Ok S honest s.signed
  /-- Every signature was made by a session, for itself. -/
  signed : ∀ P data, (P, data) ∈ s.signed →
    ∃ (i : Nat) (t : Session), s.sessions[i]? = some t ∧ S.publicOf t.myKey = P ∧ t.Signs S data

theorem Inv.init (S : Suite) (honest : Bytes → Prop) : Handshakes.init.Inv S honest :=
  ⟨nofun, nofun⟩

/-- A step of one session. -/
theorem Inv.act (h : s.Inv S honest) {i : Nat} {b : SessionAction} {t' : Session}
    (ht : s.sessions[i]? = some t) (hAct : t.act S b = some (t', new))
    (hIdeal : s.IdealVerify S honest (.session i b)) :
    Inv S honest ⟨s.sessions.set i t', new ++ s.signed⟩ := by
  have hLeads := Session.Leads.act hAct
  have hOk : t'.Ok S honest (new ++ s.signed) := by
    refine (h.sessions i t ht).act hAct ?_
    rintro rfl conn msg hRead hHonest hVerify
    exact hIdeal t conn msg ht hRead hHonest hVerify
  refine ⟨forall_pool_set (fun j u hu => (h.sessions j u hu).mono new) hOk, ?_⟩
  intro P data hSigned
  rcases mem_append.mp hSigned with hNew | hOld
  · -- the signature of this step
    refine ⟨i, t', pool_set_self ht, ?_⟩
    cases (act_cases hAct).2 with
    | quiet => cases hNew
    | fail => cases hNew
    | accepted => cases hNew
    | finished => cases hNew
    | replied conn msg hRole _ _ _ _ hPeer _ =>
      cases mem_singleton.mp hNew
      refine ⟨congrArg S.publicOf hLeads.myKey, .inr ⟨hLeads.role.trans hRole, msg, hPeer, ?_⟩⟩
      rw [hLeads.eph]
  · obtain ⟨j, u, hu, hKey, hSigns⟩ := h.signed P data hOld
    obtain ⟨u', hu', hLeads'⟩ :=
      Evolves.set Session.Leads.refl ht hLeads j u hu
    exact ⟨j, u', hu', (congrArg S.publicOf hLeads'.myKey).trans hKey, hLeads'.signs hSigns⟩

/-- A new session. -/
theorem Inv.start (h : s.Inv S honest)
    (hStart : start S role myKey expected ephPriv = (t, new)) :
    Inv S honest ⟨s.sessions ++ [t], new ++ s.signed⟩ := by
  obtain ⟨-, -, -, hPeer, hOutcome, hArrived, hNew⟩ := start_fresh hStart
  have hOk : t.Ok S honest (new ++ s.signed) := by
    refine ⟨fun _ _ => hArrived, fun msg hMsg => ?_, fun msg hMsg => ?_, fun r hr => ?_⟩
    · rw [hPeer] at hMsg
      cases hMsg
    · rw [hPeer] at hMsg
      cases hMsg
    · rw [hOutcome] at hr
      cases hr
  refine ⟨forall_pool_append (fun j u hu => (h.sessions j u hu).mono _) hOk, ?_⟩
  intro P data hSigned
  rcases mem_append.mp hSigned with hLast | hOld
  · exact ⟨_, t, pool_append_self, hNew P data hLast⟩
  · obtain ⟨j, u, hu, hKey, hSigns⟩ := h.signed P data hOld
    obtain ⟨u', hu', hLeads⟩ := Evolves.append Session.Leads.refl j u hu
    exact ⟨j, u', hu', (congrArg S.publicOf hLeads.myKey).trans hKey, hLeads.signs hSigns⟩

theorem modelled_idealVerify (honest : Bytes → Prop) (h : s.modelled S a = true) :
    s.IdealVerify S honest a := by
  cases a with
  | start => trivial
  | session i b =>
    cases b with
    | receive =>
      intro t conn msg ht hRead _ hVerify
      unfold modelled at h
      dsimp only at h
      rw [ht] at h
      dsimp only at h
      rw [hRead] at h
      dsimp only at h
      rw [hVerify, Bool.not_true, Bool.false_or, decide_eq_true_eq] at h
      exact h
    | _ => trivial

theorem modelled_freshEphemeral (h : s.modelled S a = true) : s.FreshEphemeral S a := by
  cases a with
  | start role myKey expected ephPriv =>
    intro t ht
    exact of_decide_eq_true (all_eq_true.mp h t ht)
  | session => trivial

/-- **One step.** -/
theorem Inv.step (h : s.Inv S honest) (hStep : s.next S a = some s')
    (hIdeal : s.IdealVerify S honest a) : s'.Inv S honest := by
  rcases next_cases hStep with ⟨_, _, _, _, t, new, -, hStart, rfl⟩ |
    ⟨i, b, t, t', new, rfl, ht, hAct, rfl⟩
  · exact h.start hStart
  · exact h.act ht hAct hIdeal

/-- **Every run.** -/
theorem Inv.run {as : List HandshakeAction}
    (hRun : Exec (guarded (stepOf (next S)) (IdealVerify S honest)) Handshakes.init as s) :
    s.Inv S honest :=
  hRun.invariant (Inv.init S honest) fun h hStep => h.step hStep.1 hStep.2

end Handshakes

end AltNet
