import AltNet.Secure.Sessions

/-!
# AltNet — what a handshake proves (`core/secure/secure.go`)

When `Handshake` returns, who is at the other end? For the initiator the
answer is as good as it can be: the responder's signature covers both
ephemeral keys, so there is a session of the key's owner that answers exactly
this one, and the two have the same keys.

The initiator's signature covers only its own ephemeral key. A responder
therefore knows that the owner of the key has started a session with this
ephemeral key at some time, and nothing more: whoever has seen the message
can send it again, to anybody and as often as he likes.

Main results:

* `initiator_agreement` — for the initiator, agreement with the other end;
* `responder_agreement_iff` — for responders, what is accepted was sent, and
  injective agreement holds exactly as long as the network has opened no two
  sessions that succeed with the same 64 bytes;
* `handshake_replayed` — a run in which one is.
-/

namespace AltNet

open Session

/-! ## The initiator -/

/-- `u` is the responder's session at the other end of `t`, which has ended
with `c`, and `c'` is the connection that `u` derives. -/
structure OtherEnd (S : Suite) (t u : Session) (c c' : SecureConn) : Prop where
  role : u.role = .responder
  owner : S.publicOf u.myKey = c.remotePub
  theirEph : ∃ reply, t.peer = some reply ∧ reply.ephPub = u.eph S
  myEph : ∃ msg, u.peer = some msg ∧ msg.ephPub = t.eph S ∧ u.derive S msg = .ok c'
  sendKey : c.sendKey = c'.recvKey
  recvKey : c.recvKey = c'.sendKey
  result : ∀ r, u.outcome = some r → r = .ok c' ∨ r = .error .aborted

namespace Handshakes

variable {S : Suite} {honest : Bytes → Prop} {s s' : Handshakes} {a : HandshakeAction}

/-- The signature of a reply belongs to a responder's session with these two
ephemeral keys: an initiator signs 32 bytes. -/
theorem Inv.replied (h : s.Inv S honest) {P first second : Bytes} (hFirst : first.length = 32)
    (hSecond : second.length = 32) (hSigned : (P, first ++ second) ∈ s.signed) :
    ∃ (j : Nat) (u : Session) (msg : HandshakeMessage), s.sessions[j]? = some u ∧
      S.publicOf u.myKey = P ∧ u.role = .responder ∧ u.peer = some msg ∧
      first = u.eph S ∧ second = msg.ephPub := by
  obtain ⟨j, u, hu, hKey, ⟨-, hData⟩ | ⟨hRole, msg, hPeer, hData⟩⟩ := h.signed _ _ hSigned
  · have hLength := congrArg List.length hData
    rw [List.length_append, length_eph] at hLength
    omega
  · obtain ⟨hEph, hTheirs⟩ := List.append_inj hData (hFirst.trans (u.length_eph S).symm)
    exact ⟨j, u, msg, hu, hKey, hRole, hPeer, hEph, hTheirs⟩

/-- The signature of a first message belongs to an initiator's session. -/
theorem Inv.initiated (h : s.Inv S honest) {P eph : Bytes} (hEph : eph.length = 32)
    (hSigned : (P, eph) ∈ s.signed) :
    ∃ (i : Nat) (t : Session), s.sessions[i]? = some t ∧ S.publicOf t.myKey = P ∧
      t.role = .initiator ∧ t.eph S = eph := by
  obtain ⟨i, t, ht, hKey, ⟨hRole, hData⟩ | ⟨hRole, msg, hPeer, hData⟩⟩ := h.signed _ _ hSigned
  · exact ⟨i, t, ht, hKey, hRole, hData.symm⟩
  · have hLength := congrArg List.length hData
    obtain ⟨-, hMsg, -⟩ := (h.sessions i t ht).keys msg hPeer
    rw [List.length_append, length_eph] at hLength
    omega

end Handshakes

/-- **The initiator's side.** Whatever the network does: when a call with the
initiator's role succeeds with an honest key, then the owner of that key has a
responder's session with the same two ephemeral keys, and both sessions have
the same keys with the directions swapped. (That session may still have to
derive them, or its write may have failed.) -/
theorem initiator_agreement (S : Suite) (honest : Bytes → Prop) {as : List HandshakeAction}
    {s : Handshakes}
    (hRun : Exec (guarded (stepOf (Handshakes.next S)) (Handshakes.IdealVerify S honest))
      Handshakes.init as s)
    {i : Nat} {t : Session} {c : SecureConn} (ht : s.sessions[i]? = some t)
    (hRole : t.role = .initiator) (hOk : t.secured = some c) (hHonest : honest c.remotePub) :
    ∃ (j : Nat) (u : Session) (c' : SecureConn), s.sessions[j]? = some u ∧
      OtherEnd S t u c c' := by
  have hInv := Handshakes.Inv.run hRun
  obtain ⟨reply, hReply, hDerive, hRemote⟩ := (hInv.sessions i t ht).success hOk
  obtain ⟨-, hLength, -⟩ := (hInv.sessions i t ht).keys reply hReply
  rw [hRemote] at hHonest
  have hBoth : (reply.ltPub, reply.ephPub ++ t.eph S) ∈ s.signed := by
    have hVerified := (hInv.sessions i t ht).checked reply hReply hHonest
    unfold Session.toVerify at hVerified
    rw [hRole] at hVerified
    exact hVerified
  obtain ⟨j, u, msg, hu, hKey, hResponder, hPeer, hTheirs, hMine⟩ :=
    hInv.replied hLength (t.length_eph S) hBoth
  -- the two derivations
  have hHere : S.finishHandshake .initiator t.ephPriv (S.ephPublic u.ephPriv) reply.ltPub =
      .ok c := by
    unfold Session.derive at hDerive
    rw [hRole, hTheirs] at hDerive
    exact hDerive
  obtain ⟨c', hThere, hSend, hRecv⟩ := S.finishHandshake_swap msg.ltPub hHere
  have hDerives : u.derive S msg = .ok c' := by
    unfold Session.derive
    rw [hResponder, ← hMine]
    exact hThere
  refine ⟨j, u, c', hu, ?_⟩
  constructor
  case role => exact hResponder
  case owner => exact hKey.trans hRemote.symm
  case theirEph => exact ⟨reply, hReply, hTheirs⟩
  case myEph => exact ⟨msg, hPeer, hMine.symm, hDerives⟩
  case sendKey => exact hSend
  case recvKey => exact hRecv
  case result =>
    intro r hr
    rcases (hInv.sessions j u hu).result r hr with hAborted | ⟨hNone, -⟩ | ⟨msg', hPeer', hResult⟩
    · exact Or.inr hAborted
    · rw [hPeer] at hNone
      cases hNone
    · rw [hPeer] at hPeer'
      cases hPeer'
      exact Or.inl (hResult.trans hDerives)

/-- The message of an initiator with the long-term key 1 and the ephemeral
key 3. -/
def firstMessage : Bytes :=
  plainSuite.publicOf [1] ++ plainSuite.ephPublic [3] ++
    plainSuite.sign [1] (plainSuite.ephPublic [3])

/-- The reply of a responder with the keys 2 and 4. -/
def replyMessage : Bytes :=
  plainSuite.publicOf [2] ++ plainSuite.ephPublic [4] ++
    plainSuite.sign [2] (plainSuite.ephPublic [4] ++ plainSuite.ephPublic [3])

/-- The two of them over a network that does its work. -/
def meetingRun : List HandshakeAction :=
  [.start .initiator [1] (some (plainSuite.publicOf [2])) [3], .start .responder [2] none [4],
    .session 1 (.deliver firstMessage), .session 1 .receive,
    .session 0 (.deliver replyMessage), .session 0 .receive, .session 1 .finish]

theorem initiator_agreement_meetingRun :
    ∃ s, Exec (guarded (stepOf (Handshakes.next plainSuite))
        (Handshakes.IdealVerify plainSuite fun _ => True)) Handshakes.init meetingRun s ∧
      ∃ t c, s.sessions[0]? = some t ∧ t.role = .initiator ∧ t.secured = some c ∧
        ∃ (j : Nat) (u : Session) (c' : SecureConn), s.sessions[j]? = some u ∧
          OtherEnd plainSuite t u c c' := by
  refine Exec.exists_of_checked (p := fun s =>
      s.sessions[0]?.map (fun t => (t.role, t.secured.isSome)) = some (.initiator, true))
    (Handshakes.next plainSuite) (Handshakes.modelled plainSuite)
    (fun hNext hOk => ⟨hNext, Handshakes.modelled_idealVerify _ hOk⟩) (by decide +kernel) ?_
  intro s hRun hSession
  obtain ⟨t, ht, hEq⟩ := Option.map_eq_some_iff.mp hSession
  obtain ⟨hRole, hSome⟩ := Prod.mk.inj hEq
  obtain ⟨c, hc⟩ := Option.isSome_iff_exists.mp hSome
  exact ⟨t, c, ht, hRole, hc,
    initiator_agreement plainSuite (fun _ => True) hRun ht hRole hc trivial⟩

/-! ## The responder -/

namespace Handshakes

variable (S : Suite) (honest : Bytes → Prop) (s : Handshakes)

/-- The responder's session `j` has succeeded with the honest key `P`, and has
accepted this ephemeral key. -/
def Accepts (j : Nat) (P eph : Bytes) : Prop :=
  ∃ u c msg, s.sessions[j]? = some u ∧ u.role = .responder ∧ u.secured = some c ∧
    u.peer = some msg ∧ c.remotePub = P ∧ honest P ∧ msg.ephPub = eph

/-- `P` has started session `i` as an initiator, with this ephemeral key. -/
def Initiated (i : Nat) (P eph : Bytes) : Prop :=
  ∃ t, s.sessions[i]? = some t ∧ t.role = .initiator ∧ S.publicOf t.myKey = P ∧ t.eph S = eph

/-- **Injective agreement**: every responder's session that has succeeded with
an honest key has a session of its own that the owner of the key has started
with the accepted ephemeral key. -/
def Corresponds : Prop :=
  ∃ f : Nat → Nat, (∀ j P eph, s.Accepts honest j P eph → s.Initiated S (f j) P eph) ∧
    ∀ j j' P eph P' eph', s.Accepts honest j P eph → s.Accepts honest j' P' eph' →
      f j = f j' → j = j'

/-- The responder's session `j` has succeeded with an honest key, and this is
what the network has opened it with: the first 64 bytes that it gave it. -/
def Opened (j : Nat) (opening : Bytes) : Prop :=
  ∃ u c, s.sessions[j]? = some u ∧ u.role = .responder ∧ u.secured = some c ∧
    honest c.remotePub ∧ u.arrived.take 64 = opening

/-- The network has opened no two such sessions with the same bytes. -/
def NoReplay : Prop :=
  ∀ j j' opening, s.Opened honest j opening → s.Opened honest j' opening → j = j'

/-- Ideal signatures and fresh ephemerals. -/
def Modelled (a : HandshakeAction) : Prop := s.IdealVerify S honest a ∧ s.FreshEphemeral S a

/-- No ephemeral key is used twice. -/
def Distinct : Prop :=
  ∀ (i j : Nat) t u, s.sessions[i]? = some t → s.sessions[j]? = some u → t.eph S = u.eph S → i = j

variable {S honest s} {s' : Handshakes} {a : HandshakeAction}

theorem Distinct.init (S : Suite) : Handshakes.init.Distinct S := by
  intro i j t u ht
  cases ht

theorem Distinct.step (h : s.Distinct S) (hStep : s.next S a = some s')
    (hFresh : s.FreshEphemeral S a) : s'.Distinct S := by
  rcases next_cases hStep with ⟨_, _, _, ephPriv, t, new, rfl, hStart, rfl⟩ |
    ⟨i, b, t, t', new, rfl, ht, hAct, rfl⟩
  · obtain ⟨-, -, hEph, -⟩ := start_fresh hStart
    have hNew : ∀ (j : Nat) u, s.sessions[j]? = some u → u.eph S ≠ t.eph S := by
      intro j u hu hSame
      refine hFresh u (List.mem_of_getElem? hu) ?_
      rw [hSame, Session.eph, hEph]
    intro j k u v hu hv hSame
    rcases pool_append_cases hu with ⟨hj, hU⟩ | ⟨-, hu'⟩
    · rcases pool_append_cases hv with ⟨hk, -⟩ | ⟨-, hv'⟩
      · exact hj.trans hk.symm
      · rw [hU] at hSame
        exact absurd hSame.symm (hNew k v hv')
    · rcases pool_append_cases hv with ⟨-, hV⟩ | ⟨-, hv'⟩
      · rw [hV] at hSame
        exact absurd hSame (hNew j u hu')
      · exact h j k u v hu' hv' hSame
  · -- a session keeps its ephemeral key
    have hKeeps : t'.eph S = t.eph S := (Session.Leads.act hAct).eph
    have hBefore : ∀ (j : Nat) u, (s.sessions.set i t')[j]? = some u →
        ∃ v, s.sessions[j]? = some v ∧ u.eph S = v.eph S := by
      intro j u hu
      rcases pool_set_cases hu with ⟨rfl, rfl⟩ | ⟨-, hu⟩
      · exact ⟨t, ht, hKeeps⟩
      · exact ⟨u, hu, rfl⟩
    intro j k u v hu hv hSame
    obtain ⟨u', hu', hU⟩ := hBefore j u hu
    obtain ⟨v', hv', hV⟩ := hBefore k v hv
    exact h j k u' v' hu' hv' (hU.symm.trans (hSame.trans hV))

variable {eph : Bytes} {j : Nat}

theorem Accepts.unique {P P' eph' : Bytes} (h : s.Accepts honest j P eph)
    (h' : s.Accepts honest j P' eph') : P' = P ∧ eph' = eph := by
  obtain ⟨u, c, msg, hu, -, hOk, hPeer, rfl, -, rfl⟩ := h
  obtain ⟨u', c', msg', hu', -, hOk', hPeer', rfl, -, rfl⟩ := h'
  cases hu.symm.trans hu'
  cases hOk.symm.trans hOk'
  cases hPeer.symm.trans hPeer'
  exact ⟨rfl, rfl⟩

theorem Initiated.unique {i : Nat} {P P' eph' : Bytes} (h : s.Initiated S i P eph)
    (h' : s.Initiated S i P' eph') : P' = P ∧ eph' = eph := by
  obtain ⟨t, ht, -, rfl, rfl⟩ := h
  obtain ⟨t', ht', -, rfl, rfl⟩ := h'
  cases ht.symm.trans ht'
  exact ⟨rfl, rfl⟩

/-- **What a responder accepts under an honest key**, the owner of the key has sent
as an initiator. -/
theorem Accepts.initiated {P : Bytes} (hInv : s.Inv S honest) (h : s.Accepts honest j P eph) :
    ∃ i, s.Initiated S i P eph := by
  obtain ⟨u, c, msg, hu, hRole, hOk, hPeer, rfl, hHonest, rfl⟩ := h
  obtain ⟨msg', hPeer', -, hRemote⟩ := (hInv.sessions j u hu).success hOk
  cases hPeer.symm.trans hPeer'
  rw [hRemote] at hHonest ⊢
  obtain ⟨-, hLength, -⟩ := (hInv.sessions j u hu).keys msg hPeer
  have hOwn : (msg.ltPub, msg.ephPub) ∈ s.signed := by
    have hVerified := (hInv.sessions j u hu).checked msg hPeer hHonest
    unfold Session.toVerify at hVerified
    rw [hRole] at hVerified
    exact hVerified
  obtain ⟨i, t, ht, hKey, hInitiator, hEph⟩ := hInv.initiated hLength hOwn
  exact ⟨i, t, ht, hInitiator, hKey, hEph⟩

/-- The network opens a session with the keys that it then accepts. -/
theorem opened_iff (hInv : s.Inv S honest) {opening : Bytes} :
    s.Opened honest j opening ↔
      ∃ P eph, P.length = 32 ∧ opening = P ++ eph ∧ s.Accepts honest j P eph := by
  constructor
  · rintro ⟨u, c, hu, hRole, hOk, hHonest, rfl⟩
    obtain ⟨msg, hPeer, -, hRemote⟩ := (hInv.sessions j u hu).success hOk
    refine ⟨msg.ltPub, msg.ephPub, ((hInv.sessions j u hu).keys msg hPeer).1,
      (hInv.sessions j u hu).take_arrived hPeer, ?_⟩
    exact ⟨u, c, msg, hu, hRole, hOk, hPeer, hRemote, hRemote ▸ hHonest, rfl⟩
  · rintro ⟨P, eph, -, rfl, u, c, msg, hu, hRole, hOk, hPeer, rfl, hHonest, rfl⟩
    obtain ⟨msg', hPeer', -, hRemote⟩ := (hInv.sessions j u hu).success hOk
    cases hPeer.symm.trans hPeer'
    refine ⟨u, c, hu, hRole, hOk, hHonest, ?_⟩
    rw [hRemote]
    exact (hInv.sessions j u hu).take_arrived hPeer

/-- Two sessions that have accepted the same message leave no agreement. -/
theorem not_corresponds (hDistinct : s.Distinct S) {j' : Nat} {P : Bytes}
    (h : s.Accepts honest j P eph) (h' : s.Accepts honest j' P eph) (hne : j ≠ j') :
    ¬ s.Corresponds S honest := by
  rintro ⟨f, hSession, hInjective⟩
  obtain ⟨t, ht, -, -, hEph⟩ := hSession j P eph h
  obtain ⟨t', ht', -, -, hEph'⟩ := hSession j' P eph h'
  have hSame : f j = f j' := hDistinct _ _ t t' ht ht' (hEph.trans hEph'.symm)
  exact hne (hInjective j j' P eph P eph h h' hSame)

/-- With agreement, no two sessions were opened with the same bytes. -/
theorem Corresponds.noReplay (hInv : s.Inv S honest) (hDistinct : s.Distinct S)
    (h : s.Corresponds S honest) : s.NoReplay honest := by
  intro j j' opening hOpened hOpened'
  obtain ⟨P, eph, hLength, hKeys, hAccepts⟩ := (opened_iff hInv).mp hOpened
  obtain ⟨P', eph', hLength', hKeys', hAccepts'⟩ := (opened_iff hInv).mp hOpened'
  obtain ⟨rfl, rfl⟩ :=
    List.append_inj (hKeys.symm.trans hKeys') (hLength.trans hLength'.symm)
  by_contra hne
  exact not_corresponds hDistinct hAccepts hAccepts' hne h

/-- Without a replay, each session has the one that its message was signed in. -/
theorem NoReplay.corresponds (hInv : s.Inv S honest) (h : s.NoReplay honest) :
    s.Corresponds S honest := by
  have hSession : ∀ j, ∃ i, ∀ P eph, s.Accepts honest j P eph → s.Initiated S i P eph := by
    intro j
    by_cases hSome : ∃ P eph, s.Accepts honest j P eph
    · obtain ⟨P, eph, hAccepts⟩ := hSome
      obtain ⟨i, hInitiated⟩ := hAccepts.initiated hInv
      refine ⟨i, fun P' eph' hAccepts' => ?_⟩
      obtain ⟨rfl, rfl⟩ := hAccepts.unique hAccepts'
      exact hInitiated
    · exact ⟨0, fun P eph hAccepts => absurd ⟨P, eph, hAccepts⟩ hSome⟩
  choose f hf using hSession
  refine ⟨f, hf, fun j j' P eph P' eph' hAccepts hAccepts' hSame => ?_⟩
  -- one session was started with one key and one ephemeral key
  have hInitiated := hf j P eph hAccepts
  rw [hSame] at hInitiated
  obtain ⟨rfl, rfl⟩ := hInitiated.unique (hf j' P' eph' hAccepts')
  have hOpens : ∀ {k}, s.Accepts honest k P' eph' → s.Opened honest k (P' ++ eph') := by
    intro k hk
    obtain ⟨i, t, -, -, rfl, -⟩ := hk.initiated hInv
    exact (opened_iff hInv).mpr ⟨_, eph', S.length_publicOf _, rfl, hk⟩
  exact h j j' _ (hOpens hAccepts) (hOpens hAccepts')

/-- What holds in every run, replays or not. -/
theorem inv_and_distinct {as : List HandshakeAction}
    (hRun : Exec (guarded (stepOf (next S)) (Modelled S honest)) Handshakes.init as s) :
    s.Inv S honest ∧ s.Distinct S := by
  apply hRun.invariant (I := fun s => s.Inv S honest ∧ s.Distinct S)
    ⟨Inv.init S honest, Distinct.init S⟩
  rintro t a u ⟨hInv, hDistinct⟩ ⟨hStep, hIdeal, hFresh⟩
  exact ⟨hInv.step hStep hIdeal, hDistinct.step hStep hFresh⟩

end Handshakes

/-- **The responder's side.** After any run with ideal signatures and fresh
ephemerals: what a responder's session has accepted under an honest key, the
owner of the key has sent as an initiator; and the responders' sessions that
have succeeded with honest keys have distinct sessions of the owners of these
keys if and only if the network has not opened two of them with the same 64
bytes. -/
theorem responder_agreement_iff (S : Suite) (honest : Bytes → Prop) {as : List HandshakeAction}
    {s : Handshakes}
    (hRun : Exec (guarded (stepOf (Handshakes.next S)) (Handshakes.Modelled S honest))
      Handshakes.init as s) :
    (∀ j P eph, s.Accepts honest j P eph → ∃ i, s.Initiated S i P eph) ∧
      (s.Corresponds S honest ↔ s.NoReplay honest) := by
  obtain ⟨hInv, hDistinct⟩ := Handshakes.inv_and_distinct hRun
  refine ⟨fun j P eph hAccepts => hAccepts.initiated hInv, ?_, ?_⟩
  · exact fun h => h.noReplay hInv hDistinct
  · exact fun h => h.corresponds hInv

namespace Handshakes

/-- The condition as a check, for every key. -/
def noReplay (s : Handshakes) : Bool :=
  s.sessions.Pairwise fun u v => u.secured.isNone ∨ v.secured.isNone ∨
    u.arrived.take 64 ≠ v.arrived.take 64

theorem noReplay_sound {honest : Bytes → Prop} {s : Handshakes} (h : s.noReplay = true) :
    s.NoReplay honest := by
  have hPairs := List.pairwise_iff_getElem.mp (of_decide_eq_true h)
  -- the pair of an earlier and a later session
  have hApart : ∀ j j' opening, s.Opened honest j opening → s.Opened honest j' opening →
      ¬ j < j' := by
    rintro j j' opening ⟨u, c, hu, -, hOk, -, rfl⟩ ⟨v, c', hv, -, hOk', -, hSame⟩ hLt
    obtain ⟨hj, rfl⟩ := List.getElem?_eq_some_iff.mp hu
    obtain ⟨hj', rfl⟩ := List.getElem?_eq_some_iff.mp hv
    rcases hPairs j j' hj hj' hLt with hNone | hNone | hDiffer
    · rw [hOk] at hNone
      cases hNone
    · rw [hOk'] at hNone
      cases hNone
    · exact hDiffer hSame.symm
  intro j j' opening hj hj'
  exact le_antisymm (not_lt.mp (hApart j' j opening hj' hj))
    (not_lt.mp (hApart j j' opening hj hj'))

/-- Whether session `j` has accepted these keys, for every key. -/
def accepts (s : Handshakes) (j : Nat) (P eph : Bytes) : Bool :=
  (s.sessions[j]?.map fun u =>
    (u.role, u.secured.map SecureConn.remotePub, u.peer.map HandshakeMessage.ephPub)) =
    some (.responder, some P, some eph)

theorem accepts_sound {s : Handshakes} {j : Nat} {P eph : Bytes}
    (h : s.accepts j P eph = true) : s.Accepts (fun _ => True) j P eph := by
  obtain ⟨u, hu, hFields⟩ := Option.map_eq_some_iff.mp (of_decide_eq_true h)
  simp only [Prod.mk.injEq] at hFields
  obtain ⟨hRole, hSecured, hPeer⟩ := hFields
  obtain ⟨c, hc, hRemote⟩ := Option.map_eq_some_iff.mp hSecured
  obtain ⟨msg, hMsg, hEph⟩ := Option.map_eq_some_iff.mp hPeer
  exact ⟨u, c, msg, hu, hRole, hc, hMsg, hRemote, trivial, hEph⟩

end Handshakes

open Handshakes

/-- After that meeting the initiator connects once more, with the ephemeral
key 9 and to another responder. -/
def secondMeetingRun : List HandshakeAction :=
  meetingRun ++
    [.start .initiator [1] none [9], .start .responder [5] none [6],
      .session 3 (.deliver (plainSuite.publicOf [1] ++ plainSuite.ephPublic [9] ++
        plainSuite.sign [1] (plainSuite.ephPublic [9]))),
      .session 3 .receive, .session 3 .finish]

theorem responder_agreement_secondMeeting :
    ∃ s, Exec (guarded (stepOf (next plainSuite))
        (Handshakes.Modelled plainSuite fun _ => True)) init secondMeetingRun s ∧
      s.Accepts (fun _ => True) 1 (plainSuite.publicOf [1]) (plainSuite.ephPublic [3]) ∧
      s.Accepts (fun _ => True) 3 (plainSuite.publicOf [1]) (plainSuite.ephPublic [9]) ∧
      s.Corresponds plainSuite fun _ => True := by
  refine Exec.exists_of_checked
    (p := fun s => s.accepts 1 (plainSuite.publicOf [1]) (plainSuite.ephPublic [3]) = true ∧
      s.accepts 3 (plainSuite.publicOf [1]) (plainSuite.ephPublic [9]) = true ∧
      s.noReplay = true)
    (next plainSuite) (modelled plainSuite)
    (fun hNext hOk => ⟨hNext, modelled_idealVerify _ hOk,
      modelled_freshEphemeral hOk⟩) (by decide +kernel) ?_
  rintro s hRun ⟨hFirst, hSecond, hNoReplay⟩
  exact ⟨accepts_sound hFirst, accepts_sound hSecond,
    (responder_agreement_iff plainSuite (fun _ => True) hRun).2.mpr (noReplay_sound hNoReplay)⟩

/-- One initiator, and two responders that are given the same message. -/
def replayedRun : List HandshakeAction :=
  [.start .initiator [1] none [3], .start .responder [2] none [4], .start .responder [5] none [6],
    .session 1 (.deliver firstMessage), .session 1 .receive, .session 1 .finish,
    .session 0 .abort,
    .session 2 (.deliver firstMessage), .session 2 .receive, .session 2 .finish]

/-- **A recorded message is accepted again.** The initiator has sent one
message and has given up. It has made the first responder accept, and after
that, given to another one, it makes that one accept as well. -/
theorem handshake_replayed :
    ∃ s, Exec (guarded (stepOf (next plainSuite))
        (Handshakes.Modelled plainSuite fun _ => True)) init replayedRun s ∧
      s.Accepts (fun _ => True) 1 (plainSuite.publicOf [1]) (plainSuite.ephPublic [3]) ∧
      s.Accepts (fun _ => True) 2 (plainSuite.publicOf [1]) (plainSuite.ephPublic [3]) ∧
      ¬ s.Corresponds plainSuite fun _ => True := by
  refine Exec.exists_of_checked
    (p := fun s => s.accepts 1 (plainSuite.publicOf [1]) (plainSuite.ephPublic [3]) = true ∧
      s.accepts 2 (plainSuite.publicOf [1]) (plainSuite.ephPublic [3]) = true)
    (next plainSuite) (modelled plainSuite)
    (fun hNext hOk => ⟨hNext, modelled_idealVerify _ hOk,
      modelled_freshEphemeral hOk⟩) (by decide +kernel) ?_
  rintro s hRun ⟨hFirst, hSecond⟩
  have hOne := accepts_sound hFirst
  have hTwo := accepts_sound hSecond
  exact ⟨hOne, hTwo,
    not_corresponds (inv_and_distinct hRun).2 hOne hTwo (by decide)⟩

end AltNet
