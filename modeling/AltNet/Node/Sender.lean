import AltNet.Node.Machine

/-!
# AltNet — the sender a handler sees

Every connection is authenticated by a handshake, and `verifyMessage` accepts
only messages signed with the key of the handshake. The handlers, though, do
not see the connection but the field `From` of the message, and the quota of
the store is kept per `From`. `verifyMessage` compares that field with the key
only when it is not empty.

So a peer can be anonymous to the handlers, and `anonymous_store` is a run in
which it stores bytes past its quota, attributed to nobody.

Main results:

* `sender_step_iff` — a step keeps every handled message attributed to the key
  of its connection exactly when it does not dispatch a message with an empty
  sender;
* `sender_known_iff` — so the sender of all handled messages, and the peer that
  stored bytes are attributed to, are those of the authenticated key throughout
  a run if and only if no message with an empty sender is dispatched in it.
-/

namespace AltNet

open NodeID (fill)

namespace Node

variable {κ : Type} [DecidableEq κ]

/-- The handlers know who they are dealing with. Every connection still has
the key of its handshake; every message passed to the handlers names the
identifier of that key as its sender; and everything in the store was there at
the start or was sent in such a message and is attributed to that
identifier. -/
structure SenderKnown (w : World) (key : κ → Bytes) (d : DHT) (s : Node κ) : Prop where
  locked : ∀ k, s.conn k = w.cr.authenticated (key k)
  handled : ∀ k msg, (k, msg) ∈ s.handled → msg.sender = w.cr.publicKeyToID (key k)
  stored : ∀ x v, s.dht.store.data.lookup x = some v →
    (d.store.data.lookup x = some v ∧
      s.dht.store.attribution.lookup x = d.store.attribution.lookup x) ∨
    ∃ k msg, (k, msg) ∈ s.handled ∧ DHT.Stores w.payloads msg x v ∧
      s.dht.store.attribution.lookup x = some (w.cr.publicKeyToID (key k))

/-- If the step passes a message to the handlers, the message names a
sender. -/
def namesSender (w : World) (s : Node κ) : NodeAction κ → Bool
  | .read k _ => (s.dispatches w k).all fun msg => msg.sender ≠ []
  | _ => true

variable {w : World} {key : κ → Bytes} {d : DHT} {s t : Node κ}

omit [DecidableEq κ] in
theorem SenderKnown.init (w : World) (key : κ → Bytes) (d : DHT) :
    SenderKnown w key d (Node.init w key d) where
  locked := fun _ => rfl
  handled := by
    intro k msg h
    cases h
  stored := fun x v h => .inl ⟨h, rfl⟩

omit [DecidableEq κ] in
/-- The property looks at the connections, the history and the store only. -/
theorem SenderKnown.congr (h : SenderKnown w key d s) (hConn : t.conn = s.conn)
    (hHandled : t.handled = s.handled) (hStore : t.dht.store = s.dht.store) :
    SenderKnown w key d t where
  locked := by
    rw [hConn]
    exact h.locked
  handled := by
    rw [hHandled]
    exact h.handled
  stored := by
    rw [hHandled, hStore]
    exact h.stored

/-- An accepted message leaves the connection with the key it has. -/
theorem SenderKnown.accept (h : SenderKnown w key d s) {k : κ} {msg : Message} {pc : PeerConn}
    (rest : Bytes) (hVerify : verifyMessage w.cr w.messages (s.conn k) msg = .ok pc) :
    SenderKnown w key d (s.accept k pc rest) := by
  rw [h.locked k] at hVerify
  refine h.congr ?_ rfl rfl
  show Function.update s.conn k pc = s.conn
  rw [(verifyMessage_authenticated hVerify).2.2, ← h.locked k, Function.update_eq_self]

/-- A dispatched message that names a sender names the right one. -/
theorem SenderKnown.dispatched (h : SenderKnown w key d s) {k : κ} {msg : Message} {env : Env}
    {out : Outcome} (hSender : msg.sender = w.cr.publicKeyToID (key k))
    (hOut : s.dht.handleMessage w.cr w.payloads (s.address k) msg env = some out) :
    SenderKnown w key d (s.dispatched k msg out) where
  locked := h.locked
  handled := by
    intro k' msg' hMem
    rcases List.mem_cons.mp hMem with hEq | hOld
    · cases hEq
      exact hSender
    · exact h.handled k' msg' hOld
  stored := by
    intro x v hEntry
    rcases DHT.handleMessage_entry hOut hEntry with ⟨hOld, hAttr⟩ | ⟨hStores, hAttr⟩
    · have hAttr' : (s.dispatched k msg out).dht.store.attribution.lookup x =
          s.dht.store.attribution.lookup x := hAttr
      rw [hAttr']
      rcases h.stored x v hOld with hInit | ⟨k', msg', hMem, hRest⟩
      · exact .inl hInit
      · exact .inr ⟨k', msg', List.mem_cons_of_mem _ hMem, hRest⟩
    · refine .inr ⟨k, msg, List.mem_cons_self, hStores, ?_⟩
      refine hAttr.trans ?_
      rw [hSender]
      exact if_pos (w.cr.publicKeyToID_ne_nil _)

/-- **One step.** -/
theorem sender_step_iff {act : NodeAction κ} (h : SenderKnown w key d s)
    (hStep : s.next w act = some t) : SenderKnown w key d t ↔ s.namesSender w act = true := by
  cases next_effect hStep with
  | quiet hDht hConn _ _ _ _ hHandled hNone =>
    refine iff_of_true (h.congr hConn hHandled (by rw [hDht])) ?_
    cases act with
    | read k env => rw [namesSender, hNone k env rfl, Option.all_none]
    | register | receive | close | request | timeout | complete | giveUp | evict | hint
    | remove => rfl
  | @answer k env rpc msg pc rest hVerify hNone =>
    refine iff_of_true ((h.accept rest hVerify).congr rfl rfl rfl) ?_
    rw [namesSender, hNone, Option.all_none]
  | @dispatch k env msg pc rest out hVerify hSome hOut =>
    have hKey := hVerify
    rw [h.locked k] at hKey
    rw [namesSender, hSome, Option.all_some, decide_eq_true_eq]
    constructor
    · intro hKnown hEmpty
      have hSender := hKnown.handled k msg List.mem_cons_self
      rw [hEmpty] at hSender
      exact w.cr.publicKeyToID_ne_nil _ hSender.symm
    · intro hNot
      have hSender : msg.sender = w.cr.publicKeyToID (key k) :=
        (verifyMessage_authenticated hKey).2.1.resolve_left hNot
      exact (h.accept rest hVerify).dispatched hSender hOut
  | complete | giveUp | evict | hint | remove => exact iff_of_true (h.congr rfl rfl rfl) rfl

end Node

open Node

/-- **When the sender of a message is authenticated.** In every run of a node,
with any number of connections and any bytes arriving on them, the handlers
know whom they are dealing with in every state of the run if and only if every
message dispatched in the run names a sender. -/
theorem sender_known_iff {κ : Type} [DecidableEq κ] (w : World) (key : κ → Bytes) (d : DHT)
    {as : List (NodeAction κ)} {s : Node κ}
    (hRun : Exec (stepOf (next w)) (init w key d) as s) :
    Throughout (stepOf (next w)) (init w key d) as (SenderKnown w key d) ↔
      EachStep (stepOf (next w)) (init w key d) as
        fun t act => t.namesSender w act = true :=
  throughout_iff_eachStep hRun (SenderKnown.init w key d) stepOf_unique
    fun _ _ _ h hStep => sender_step_iff h hStep

/-- A message that asks for two bytes to be stored. -/
def storeMessage (sender : GoString) : Message where
  v := 1
  type := "dht_store".toList
  sender := sender
  publicKey := publicKeyToHex samplePub
  reqID := []
  payload := "two bytes".toList
  sig := []

/-- A world with this message, with its true sender and with none. -/
def storeWorld : World :=
  tableWorld [([1], storeMessage (fill 9).hex), ([2], storeMessage [])]
    [("two bytes".toList, ⟨(fill 7).hex, [1, 2]⟩)]

/-- A node that lets each peer store one byte gets the message in the frame
with the given body. -/
def storeRun (body : UInt8) : List (NodeAction Unit) :=
  [.register () "peer".toList, .receive () [0, 0, 0, 1, body], .read () ⟨1, 1, 1, []⟩]

/-- The theorem on the message with its sender: the peer is known, and nothing
is stored past its quota. -/
theorem sender_known_named :
    ∃ s, Exec (stepOf (next storeWorld))
        (init storeWorld (fun _ => samplePub) (DHT.new (fill 0) 0 1)) (storeRun 1) s ∧
      SenderKnown storeWorld (fun _ => samplePub) (DHT.new (fill 0) 0 1) s ∧
      s.handled = [((), storeMessage (fill 9).hex)] ∧
      s.dht.store.data.lookup (fill 7).hex = none := by
  refine Exec.exists_of_eachStep (p := fun s : Node Unit =>
      s.handled = [((), storeMessage (fill 9).hex)] ∧
      s.dht.store.data.lookup (fill 7).hex = none)
    (next storeWorld) (namesSender storeWorld) stepOf_unique
    (fun hNext hOk => ⟨hNext, hOk⟩) (by decide +kernel) ?_
  intro s hRun hEach hEnd
  have hAll := (sender_known_iff storeWorld _ _ hRun).mpr hEach
  exact ⟨hAll _ s (List.prefix_refl _) hRun, hEnd⟩

/-- The same message without a sender is handled too, and its two bytes are
stored by the node that lets each peer store one, attributed to nobody. -/
theorem anonymous_store :
    ∃ s, Exec (stepOf (next storeWorld))
        (init storeWorld (fun _ => samplePub) (DHT.new (fill 0) 0 1)) (storeRun 2) s ∧
      ((), storeMessage []) ∈ s.handled ∧
      (storeMessage []).sender ≠ storeWorld.cr.publicKeyToID samplePub ∧
      s.dht.store.data.lookup (fill 7).hex = some [1, 2] ∧
      s.dht.store.attribution.lookup (fill 7).hex = none ∧
      s.dht.store.perPeerUsage (storeWorld.cr.publicKeyToID samplePub) = 0 ∧
      ¬ SenderKnown storeWorld (fun _ => samplePub) (DHT.new (fill 0) 0 1) s := by
  refine Exec.exists_of_runFrom (p := fun s : Node Unit => s.handled = [((), storeMessage [])] ∧
      s.dht.store.data.lookup (fill 7).hex = some [1, 2] ∧
      s.dht.store.attribution.lookup (fill 7).hex = none ∧
      s.dht.store.perPeerUsage (storeWorld.cr.publicKeyToID samplePub) = 0) (by decide +kernel) ?_
  rintro s - ⟨hHandled, hData, hAttr, hUsage⟩
  have hMem : ((), storeMessage []) ∈ s.handled := by
    rw [hHandled]
    exact List.mem_singleton.mpr rfl
  have hNe : (storeMessage []).sender ≠ storeWorld.cr.publicKeyToID samplePub :=
    (storeWorld.cr.publicKeyToID_ne_nil _).symm
  exact ⟨hMem, hNe, hData, hAttr, hUsage, fun h => hNe (h.handled () _ hMem)⟩

end AltNet
