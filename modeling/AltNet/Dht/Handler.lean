import AltNet.Dht.Revoke
import AltNet.Peer.Message

/-!
# AltNet — the DHT's message handler (`core/dht/dht.go`)

`HandleMessage` switches on the type of a verified message. This module has
the handlers that change the routing table, `observeHello` and
`observeGoodbye`, and puts them together with those of the storage messages
and of the revokes.

Besides the new state a handler has effects on the rest of the node, collected
in `Outcome`: a reply, a goroutine that may evict the head of a full bucket,
addresses that become aliases of the sender's connection, a revoke to send on.
A panic is `none`.

Main results:

* `handled` — all that a message can do;
* `handleMessage_rt` — a message updates no contact of the table but the one
  whose identifier is the hash of the key the message is signed with;
* `handleMessage_entry` — every entry of the store after a message was there
  before, attributed as before, or is the one of a `dht_store` message and
  attributed to its sender.
-/

namespace AltNet

/-- `json.Unmarshal` on the payloads of requests. -/
structure PayloadCodec where
  findNode : GoString → Option GoString
  store : GoString → Option StorePayload
  findValue : GoString → Option GoString
  revoke : GoString → Option RevokePayload

/-- What a handler reads from its surroundings: the clock, three times for a
revoke, and the order in which an eviction would visit the stored entries. -/
structure Env where
  now : Time
  seenAt : Time
  pruneAt : Time
  order : List GoString

/-- What a handler does. -/
structure Outcome where
  dht : DHT
  reply : Option Reply
  eviction : Option Eviction
  aliases : List (GoString × GoString)
  broadcast : Option RevokePayload

/-- A handler that changes the node only and may reply. -/
def Outcome.of (r : DHT × Option Reply) : Outcome := ⟨r.1, r.2, none, [], none⟩

/-- `decodeAddressesPayload`. -/
def decodeAddressesPayload (payload : GoString) : List GoString :=
  ((split payload ',').map trimSpace).filter (· ≠ [])

namespace DHT

/-- The identifier under which `observeHello` and `observeGoodbye` know the
sender. -/
def senderID (cr : Crypto) (msg : Message) : Option NodeID :=
  match publicKeyFromHex msg.publicKey with
  | none => none
  | some pub => idFromHex (cr.publicKeyToID pub)

/-- The addresses a hello stands for: the advertised ones, or else the one the
connection was registered under. -/
def helloAddresses (addr : GoString) (msg : Message) : List GoString :=
  if decodeAddressesPayload msg.payload = [] then [addr] else decodeAddressesPayload msg.payload

/-- `observeHello`. -/
def observeHello (cr : Crypto) (d : DHT) (addr : GoString) (msg : Message) (now : Time) :
    Outcome :=
  match senderID cr msg with
  | none => ⟨d, none, none, [], none⟩
  | some id =>
    let addrs := helloAddresses addr msg
    let (rt, eviction) := d.rt.update ⟨id, addrs.headD [], addrs.tail, 0⟩ now
    ⟨{ d with rt }, none, eviction, addrs.map fun a => (id.hex, a), none⟩

/-- `observeGoodbye`. -/
def observeGoodbye (cr : Crypto) (d : DHT) (msg : Message) : Option Outcome :=
  match senderID cr msg with
  | none => some ⟨d, none, none, [], none⟩
  | some id => (d.rt.remove id).map fun rt => ⟨{ d with rt }, none, none, [], none⟩

/-- `HandleMessage`. -/
def handleMessage (cr : Crypto) (codec : PayloadCodec) (d : DHT) (addr : GoString)
    (msg : Message) (env : Env) : Option Outcome :=
  match msg.kind with
  | .hello => some (d.observeHello cr addr msg env.now)
  | .goodbye => d.observeGoodbye cr msg
  | .dhtPing => some (.of (d, some .pong))
  | .dhtFindNode =>
    some (.of (d, (codec.findNode msg.payload).bind fun target => d.handleFindNode target))
  | .dhtStore =>
    some (match codec.store msg.payload with
      | none => .of (d, none)
      | some sp => .of (d.handleStore sp msg.sender env.order env.now))
  | .dhtFindValue =>
    some (match codec.findValue msg.payload with
      | none => .of (d, none)
      | some key => .of (d.handleFindValue key env.now))
  | .dhtRevoke =>
    some (match codec.revoke msg.payload with
      | none => .of (d, none)
      | some rp =>
        let (d, applied) := d.handleRevoke cr rp env.now env.seenAt env.pruneAt
        ⟨d, none, none, [], if applied then some rp else none⟩)
  | _ => some (.of (d, none))

/-- All that a message can do. -/
inductive Handled (cr : Crypto) (codec : PayloadCodec) (d : DHT) (msg : Message) (env : Env) :
    Outcome → Prop
  | answer {r : Option Reply}
      (hReply : r = none ∨ r = some .pong ∨ ∃ target, r = d.handleFindNode target) :
      Handled cr codec d msg env (.of (d, r))
  | hello {c : Contact} {aliases : List (GoString × GoString)}
      (hID : senderID cr msg = some c.id) :
      Handled cr codec d msg env ⟨{ d with rt := (d.rt.update c env.now).1 }, none,
        (d.rt.update c env.now).2, aliases, none⟩
  | goodbye {id : NodeID} {rt : RoutingTable} (hRemove : d.rt.remove id = some rt) :
      Handled cr codec d msg env ⟨{ d with rt }, none, none, [], none⟩
  | store {sp : StorePayload} (hKind : msg.kind = .dhtStore)
      (hStore : codec.store msg.payload = some sp) :
      Handled cr codec d msg env (.of (d.handleStore sp msg.sender env.order env.now))
  | findValue (key : GoString) :
      Handled cr codec d msg env (.of (d.handleFindValue key env.now))
  | revoke {broadcast : Option RevokePayload} (hKind : msg.kind = .dhtRevoke)
      (rp : RevokePayload) : Handled cr codec d msg env
        ⟨(d.handleRevoke cr rp env.now env.seenAt env.pruneAt).1, none, none, [], broadcast⟩

variable {cr : Crypto} {codec : PayloadCodec} {d : DHT} {addr : GoString} {msg : Message}
  {env : Env} {out : Outcome}

/-- **One message.** -/
theorem handled (h : d.handleMessage cr codec addr msg env = some out) :
    Handled cr codec d msg env out := by
  unfold handleMessage at h
  split at h
  · cases h
    unfold observeHello
    split
    · exact .answer (.inl rfl)
    · rename_i id hID
      exact .hello (c := ⟨id, _, _, 0⟩) hID
  · unfold observeGoodbye at h
    split at h
    · cases h
      exact .answer (.inl rfl)
    · obtain ⟨rt, hRemove, rfl⟩ := Option.map_eq_some_iff.mp h
      exact .goodbye hRemove
  · cases h
    exact .answer (.inr (.inl rfl))
  · cases h
    cases codec.findNode msg.payload with
    | none => exact .answer (.inl rfl)
    | some target => exact .answer (.inr (.inr ⟨target, rfl⟩))
  · rename_i hKind
    cases h
    split
    · exact .answer (.inl rfl)
    · rename_i hStore
      exact .store hKind hStore
  · cases h
    split
    · exact .answer (.inl rfl)
    · exact .findValue _
  · rename_i hKind
    cases h
    split
    · exact .answer (.inl rfl)
    · exact .revoke hKind _
  · cases h
    exact .answer (.inl rfl)

/-! ## The routing table -/

/-- The sender is known by the hash of its key. -/
theorem senderID_eq {pub : Bytes} (h : publicKeyFromHex msg.publicKey = some pub) :
    senderID cr msg = some (cr.sha256 pub) := by
  unfold senderID
  rw [h]
  exact idFromHex_hex _

@[simp] theorem handleStore_rt (sp : StorePayload) (sender : GoString) (order : List GoString)
    (now : Time) : (d.handleStore sp sender order now).1.rt = d.rt := by
  rcases handleStore_cases d sp sender order now with ⟨hSame, -⟩ | ⟨key, -, -, -, hPut⟩
  · rw [hSame]
  · rw [hPut]

@[simp] theorem handleFindValue_rt (key : GoString) (now : Time) :
    (d.handleFindValue key now).1.rt = d.rt := by
  unfold handleFindValue
  split
  · rfl
  split
  · rfl
  · dsimp only
    split <;> rfl

@[simp] theorem applyRevoke_rt (p : RevokePayload) : (d.applyRevoke p).rt = d.rt := by
  have hFold : ∀ (chunks : List GoString) (d : DHT),
      (chunks.foldl (fun d hexHash =>
        match idFromHex hexHash with
        | none => d
        | some id => d.revokeOne id) d).rt = d.rt := by
    intro chunks
    induction chunks with
    | nil => exact fun _ => rfl
    | cons c cs ih =>
      intro d
      rw [List.foldl_cons, ih]
      split <;> rfl
  exact hFold p.chunks _

/-- A revoke is applied to the node, or the node stays as it is but for the
revokes it remembers. -/
theorem handleRevoke_cases (cr : Crypto) (d : DHT) (rp : RevokePayload)
    (now seenAt pruneAt : Time) :
    (d.handleRevoke cr rp now seenAt pruneAt).1 = d ∨
      ∃ revokeSeen, (d.handleRevoke cr rp now seenAt pruneAt).1 =
        { d with revokeSeen }.applyRevoke rp := by
  unfold handleRevoke
  repeat' split
  all_goals first
    | exact .inl rfl
    | exact .inr ⟨_, rfl⟩

@[simp] theorem handleRevoke_rt (rp : RevokePayload) (now seenAt pruneAt : Time) :
    (d.handleRevoke cr rp now seenAt pruneAt).1.rt = d.rt := by
  rcases handleRevoke_cases cr d rp now seenAt pruneAt with h | ⟨_, h⟩
  · rw [h]
  · rw [h, applyRevoke_rt]

/-- **What a message does to the routing table.** A hello updates the contact
of its sender, a goodbye removes a contact, and no other message touches the
table or starts an eviction. -/
theorem handleMessage_rt (h : d.handleMessage cr codec addr msg env = some out) :
    (∃ c : Contact, senderID cr msg = some c.id ∧ out.dht.rt = (d.rt.update c env.now).1 ∧
        out.eviction = (d.rt.update c env.now).2) ∨
      (out.eviction = none ∧ (out.dht.rt = d.rt ∨ ∃ id, d.rt.remove id = some out.dht.rt)) := by
  cases handled h with
  | answer => exact .inr ⟨rfl, .inl rfl⟩
  | hello hID => exact .inl ⟨_, hID, rfl, rfl⟩
  | goodbye hRemove => exact .inr ⟨rfl, .inr ⟨_, hRemove⟩⟩
  | store => exact .inr ⟨rfl, .inl (handleStore_rt _ _ _ _)⟩
  | findValue => exact .inr ⟨rfl, .inl (handleFindValue_rt _ _)⟩
  | revoke => exact .inr ⟨rfl, .inl (handleRevoke_rt _ _ _ _)⟩

/-! ## The store -/

/-- The entry that a `dht_store` message asks for. -/
def Stores (codec : PayloadCodec) (msg : Message) (hex : GoString) (v : Bytes) : Prop :=
  msg.kind = .dhtStore ∧ ∃ sp key, codec.store msg.payload = some sp ∧
    idFromHex sp.key = some key ∧ hex = key.hex ∧ v = sp.value

theorem handleStore_store (sp : StorePayload) (sender : GoString) (order : List GoString)
    (now : Time) :
    (d.handleStore sp sender order now).1.store = d.store ∨
      ∃ key, idFromHex sp.key = some key ∧ (d.handleStore sp sender order now).1.store =
        (d.store.put order key sp.value sender now).1 := by
  rcases handleStore_cases d sp sender order now with ⟨hSame, -⟩ | ⟨key, hKey, -, -, hPut⟩
  · exact .inl (by rw [hSame])
  · exact .inr ⟨key, hKey, by rw [hPut]⟩

theorem handleFindValue_within (key : GoString) (now : Time) :
    (d.handleFindValue key now).1.store.Within d.store := by
  unfold handleFindValue
  split
  · exact .refl _
  split
  · exact .refl _
  · dsimp only
    split <;> exact LocalStore.within_get

theorem applyRevoke_within (p : RevokePayload) : (d.applyRevoke p).store.Within d.store := by
  have hFold : ∀ (chunks : List GoString) (d' : DHT), d'.store.Within d.store →
      (chunks.foldl (fun d hexHash =>
        match idFromHex hexHash with
        | none => d
        | some id => d.revokeOne id) d').store.Within d.store := by
    intro chunks
    induction chunks with
    | nil => exact fun _ h => h
    | cons c cs ih =>
      intro d' h
      rw [List.foldl_cons]
      apply ih
      split
      · exact h
      · exact h.dropEntry _
  exact hFold p.chunks _ (.refl _)

theorem handleRevoke_within (rp : RevokePayload) (now seenAt pruneAt : Time) :
    (d.handleRevoke cr rp now seenAt pruneAt).1.store.Within d.store := by
  rcases handleRevoke_cases cr d rp now seenAt pruneAt with h | ⟨revokeSeen, h⟩
  · rw [h]
    exact .refl _
  · rw [h]
    exact applyRevoke_within rp

/-- **What a message does to the store.** Every entry after it was there
before, or is the one a `dht_store` message asked for. -/
theorem handleMessage_entry (h : d.handleMessage cr codec addr msg env = some out)
    {x : GoString} {v : Bytes} (hEntry : out.dht.store.data.lookup x = some v) :
    (d.store.data.lookup x = some v ∧
        out.dht.store.attribution.lookup x = d.store.attribution.lookup x) ∨
      (Stores codec msg x v ∧ out.dht.store.attribution.lookup x =
        if msg.sender ≠ [] then some msg.sender else none) := by
  cases handled h with
  | answer | hello | goodbye => exact .inl ⟨hEntry, rfl⟩
  | findValue => exact .inl (handleFindValue_within _ _ x v hEntry)
  | revoke => exact .inl (handleRevoke_within _ _ _ _ x v hEntry)
  | @store sp hKind hStore =>
    simp only [Outcome.of] at hEntry ⊢
    rcases handleStore_store (d := d) sp msg.sender env.order env.now with hEq | ⟨key, hKey, hEq⟩
    · rw [hEq] at hEntry ⊢
      exact .inl ⟨hEntry, rfl⟩
    rw [hEq] at hEntry ⊢
    rcases LocalStore.put_entry hEntry with hOld | ⟨hx, hv, hAttr⟩
    · exact .inl hOld
    · exact .inr ⟨⟨hKind, sp, key, hStore, hKey, hx, hv⟩, hAttr⟩

end DHT

end AltNet
