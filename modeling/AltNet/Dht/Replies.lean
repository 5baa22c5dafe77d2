import AltNet.Dht.Payload
import AltNet.Dht.Walk

/-!
# AltNet — what the replies of a node tell (`core/dht/dht.go`)

Two things are asked of the replies of `handleStore` and `handleFindValue`. They
should not give away which keys a node has on its blocklist, and a node without
the value should answer a `dht_find_value` as it would answer a
`dht_find_node`.

Neither holds for all messages: a blocked `dht_store` is acknowledged when the
same message would run into the sender's quota without the block, and
`handleFindValue` leaves out the alternative addresses of the contacts that it
lists.

Main results:

* `blocklist_hidden_iff` — which messages are answered alike with and without
  the block;
* `goNodes_payload` — the payload of a `dht_nodes` reply is read back;
* `find_value_miss_iff` — when a miss tells the requester what a `dht_find_node`
  would.
-/

namespace AltNet

open List WireContact DHT

open NodeID (fill)

/-! ## The blocklist -/

/-- A message about the value of `key`: a request for it or a value to store. -/
def Message.IsAbout (codec : PayloadCodec) (msg : Message) (key : NodeID) : Prop :=
  (msg.kind = .dhtFindValue ∧
      ∃ text, codec.findValue msg.payload = some text ∧ idFromHex text = some key) ∨
    (msg.kind = .dhtStore ∧
      ∃ sp, codec.store msg.payload = some sp ∧ idFromHex sp.key = some key)

/-- What the sender of a message hears: a reply or nothing. -/
def DHT.replyTo (cr : Crypto) (codec : PayloadCodec) (d : DHT) (addr : GoString) (msg : Message)
    (env : Env) : Option Reply :=
  (d.handleMessage cr codec addr msg env).bind Outcome.reply

/-- The quota of a peer has room for `size` more bytes. -/
def LocalStore.HasRoom (s : LocalStore) (peerID : GoString) (size : Int) : Prop :=
  peerID = [] ∨ s.perPeerMax ≤ 0 ∨ s.perPeerUsage peerID + size ≤ s.perPeerMax

/-- A key that is not stored is admitted when the quota has room for it. -/
theorem LocalStore.admits_of_absent {s : LocalStore} {hex : GoString}
    (hAbsent : s.data.lookup hex = none) (size : Int) (peerID : GoString) :
    s.admits hex size peerID = true ↔ s.HasRoom peerID size := by
  rw [admits, HasRoom]
  split
  · rename_i hQuota
    -- There is no entry of the peer to refund.
    cases s.attribution.lookup hex with
    | none => simp [hQuota.1, not_le.mpr hQuota.2]
    | some oldAttr => simp [hAbsent, hQuota.1, not_le.mpr hQuota.2]
  · rename_i hFree
    refine iff_of_true rfl ?_
    by_cases hPeer : peerID = []
    · exact Or.inl hPeer
    · exact Or.inr (Or.inl (not_lt.mp fun hMax => hFree ⟨hPeer, hMax⟩))

namespace DHT

variable {cr : Crypto} {codec : PayloadCodec} {d : DHT} {key : NodeID} {msg : Message}
  {sp : StorePayload} {text : GoString}

/-- What `handleStore` replies. -/
theorem handleStore_reply (hKey : idFromHex sp.key = some key) (sender : GoString)
    (order : List GoString) (now : Time) :
    (d.handleStore sp sender order now).2 =
      if maxValueSize < sp.value.length then none
      else if d.isBlocked key = true ∨ d.store.admits key.hex sp.value.length sender = true then
        some .stored
      else none := by
  rw [handleStore, hKey]
  simp only
  split
  · rfl
  by_cases hBlocked : d.isBlocked key = true
  · rw [if_pos hBlocked, if_pos (Or.inl hBlocked)]
  rw [if_neg hBlocked]
  cases hAdmit : d.store.admits key.hex sp.value.length sender with
  | true => simp [LocalStore.put, hAdmit]
  | false => simp [LocalStore.put, hAdmit, hBlocked]

/-- What `handleFindValue` replies to a request for a value that is not there. -/
theorem handleFindValue_absent (hKey : idFromHex text = some key)
    (hAbsent : d.store.data.lookup key.hex = none) (now : Time) :
    (d.handleFindValue text now).2 = some (d.closestReply key) := by
  rw [handleFindValue, hKey]
  simp only
  split
  · rfl
  · rw [LocalStore.get, hAbsent]

theorem replyTo_store (hKind : msg.kind = .dhtStore)
    (hPayload : codec.store msg.payload = some sp) (addr : GoString) (env : Env) :
    d.replyTo cr codec addr msg env = (d.handleStore sp msg.sender env.order env.now).2 := by
  rw [replyTo, handleMessage, hKind]
  simp only [hPayload]
  rfl

theorem replyTo_findValue (hKind : msg.kind = .dhtFindValue)
    (hPayload : codec.findValue msg.payload = some text) (addr : GoString) (env : Env) :
    d.replyTo cr codec addr msg env = (d.handleFindValue text env.now).2 := by
  rw [replyTo, handleMessage, hKind]
  simp only [hPayload]
  rfl

end DHT

/-- **What a blocklist gives away.** Two nodes with the same table and store, of
which one blocks `key` and neither has it, reply alike to a message about it
exactly when it is not a `dht_store` with a value of legal size for which the
sender's quota has no room. -/
theorem blocklist_hidden_iff (cr : Crypto) (codec : PayloadCodec) (d d' : DHT) (key : NodeID)
    (hTable : d'.rt = d.rt) (hStore : d'.store = d.store) (hBlocked : d.isBlocked key = true)
    (hClear : d'.isBlocked key = false) (hAbsent : d.store.data.lookup key.hex = none)
    (addr : GoString) (msg : Message) (hMsg : msg.IsAbout codec key) (env : Env) :
    d.replyTo cr codec addr msg env = d'.replyTo cr codec addr msg env ↔
      ∀ sp, msg.kind = .dhtStore → codec.store msg.payload = some sp →
        sp.value.length ≤ maxValueSize → d.store.HasRoom msg.sender sp.value.length := by
  rcases hMsg with ⟨hKind, text, hPayload, hKey⟩ | ⟨hKind, sp, hPayload, hKey⟩
  · have hAbsent' : d'.store.data.lookup key.hex = none := by rw [hStore, hAbsent]
    have hReply : d'.closestReply key = d.closestReply key := by
      rw [closestReply, closestReply, hTable]
    rw [replyTo_findValue hKind hPayload, replyTo_findValue hKind hPayload,
      handleFindValue_absent hKey hAbsent, handleFindValue_absent hKey hAbsent', hReply]
    refine iff_of_true rfl ?_
    intro sp hOther
    cases hKind.symm.trans hOther
  · have hRoom := LocalStore.admits_of_absent hAbsent sp.value.length msg.sender
    rw [replyTo_store hKind hPayload, replyTo_store hKind hPayload,
      handleStore_reply hKey, handleStore_reply hKey, hStore, hBlocked, hClear]
    simp only [hPayload, Option.some.injEq, true_or, if_true, Bool.false_eq_true, false_or]
    by_cases hSize : maxValueSize < sp.value.length
    · rw [if_pos hSize, if_pos hSize]
      refine iff_of_true rfl ?_
      rintro sp' - rfl hLegal
      exact absurd hSize (not_lt.mpr hLegal)
    · rw [if_neg hSize, if_neg hSize]
      by_cases hAdmit : d.store.admits key.hex sp.value.length msg.sender = true
      · rw [if_pos hAdmit]
        refine iff_of_true rfl ?_
        rintro sp' - rfl -
        exact hRoom.mp hAdmit
      · rw [if_neg hAdmit]
        refine iff_of_false (by simp) fun hAll => hAdmit (hRoom.mpr ?_)
        exact hAll sp hKind rfl (not_lt.mp hSize)

/-- A node with a quota of one byte for each peer. -/
def tightNode (blocklist : Option Blocklist) : DHT :=
  { new (fill 0) 0 1 with blocklist }

/-- A value of `n` bytes to store under the key of the example. -/
def storeOfSize (n : Nat) : Message :=
  { sendStoreMessage (fill 1) (List.replicate n 7) [] with sender := "peer".toList }

def sampleEnv : Env := ⟨0, 0, 0, []⟩

/-- A value of one byte is acknowledged with and without the block. -/
theorem blocklist_hidden_small :
    (tightNode (some {(fill 1).hex})).replyTo firstByte goPayloads [] (storeOfSize 1)
        sampleEnv =
      (tightNode none).replyTo firstByte goPayloads [] (storeOfSize 1) sampleEnv :=
  (blocklist_hidden_iff firstByte goPayloads (tightNode (some {(fill 1).hex}))
    (tightNode none) (fill 1) rfl rfl (by decide +kernel) rfl (by decide +kernel) []
    (storeOfSize 1) (Or.inr ⟨by decide +kernel, ⟨(fill 1).hex, [7]⟩, by decide +kernel,
      idFromHex_hex _⟩) sampleEnv).mpr (by
    intro sp _ hPayload _
    have hSp : sp = ⟨(fill 1).hex, [7]⟩ :=
      Option.some.inj (hPayload.symm.trans (by decide +kernel))
    rw [hSp]
    exact Or.inr (Or.inr (by decide +kernel)))

/-- **A block that shows**: a value of two bytes is more than the quota has room
for, and only the node that blocks its key acknowledges it. -/
theorem block_acknowledged :
    (tightNode (some {(fill 1).hex})).replyTo firstByte goPayloads [] (storeOfSize 2)
        sampleEnv = some .stored ∧
      (tightNode none).replyTo firstByte goPayloads [] (storeOfSize 2) sampleEnv = none := by
  decide +kernel

/-! ## Reading a reply -/

/-- `wireContact`, with what lies beyond its alternates. -/
def wireContactFields : FieldTable (WireContact × List GoString) :=
  [("id".toList, fun j a => (decodeString j a.1.id).map fun s => ({ a.1 with id := s }, a.2)),
   ("address".toList, fun j a =>
      (decodeString j a.1.address).map fun s => ({ a.1 with address := s }, a.2)),
   ("alt".toList, fun j a =>
      (decodeTexts j a.1.alt a.2).map fun d => ({ a.1 with alt := d.live }, d.stale))]

/-- `nodesPayload`. -/
def nodesFields : FieldTable (DecodedSlice (WireContact × List GoString)) :=
  [("contacts".toList, DecodedSlice.decode (⟨[], [], []⟩, []) (decodeRecord wireContactFields))]

/-- `json.Unmarshal` of a `nodesPayload`. -/
def goNodes (payload : GoString) : Option (List WireContact) :=
  (unmarshal nodesFields ⟨[], []⟩ (utf8 payload)).map fun d => d.live.map Prod.fst

/-- `json.Unmarshal` of a `valuePayload`, with base64. -/
def goValue (payload : GoString) : Option Bytes :=
  (unmarshal (textField "value".toList) [] (utf8 payload)).bind base64Decode

/-- The loop over the contacts of a reply; one whose identifier does not parse is
passed over. -/
def contactsOf (cs : List WireContact) : List Contact :=
  cs.filterMap fun wc => (idFromHex wc.id).map fun id => ⟨id, wc.address, wc.alt, 0⟩

/-- What `FindNode` makes of a reply. -/
def readFindNode (reply : Message) : Option (List Contact) :=
  if reply.kind = .dhtNodes then (goNodes reply.payload).map contactsOf else none

/-- What `sendFindValue` makes of a reply. -/
def readFindValue (reply : Message) : FindReply :=
  match reply.kind with
  | .dhtValue =>
    match goValue reply.payload with
    | none => .malformed
    | some v => .value v
  | .dhtNodes =>
    match goNodes reply.payload with
    | none => .malformed
    | some cs => .contacts (contactsOf cs)
  | _ => .malformed

theorem wireContactFields_distinct : wireContactFields.Distinct := by decide +kernel

theorem nodesFields_distinct : nodesFields.Distinct := by decide +kernel

theorem WireContact.toJson_flat (c : WireContact) : c.toJson.Integral ∧ c.toJson.depth ≤ 2 := by
  have hFields : ∀ kv ∈ [("id".toList, Json.str c.id), ("address".toList, .str c.address)] ++
      omitEmpty (c.alt = []) "alt".toList (textsJson c.alt), kv.2.Integral ∧ kv.2.depth ≤ 1 := by
    intro kv hkv
    rcases mem_append.mp hkv with hText | hAlt
    · simp only [mem_cons, not_mem_nil, or_false] at hText
      rcases hText with rfl | rfl
      · exact ⟨trivial, Nat.zero_le 1⟩
      · exact ⟨trivial, Nat.zero_le 1⟩
    · rw [mem_omitEmpty hAlt]
      exact textsJson_flat _
  exact ⟨Json.integral_obj fun kv hkv => (hFields kv hkv).1,
    Json.depth_obj_le fun kv hkv => (hFields kv hkv).2⟩

theorem WireContact.decodeRecord_toJson (c : WireContact) :
    decodeRecord wireContactFields c.toJson (⟨[], [], []⟩, []) = some (c, []) := by
  have hName := @decodeField_name _ _ wireContactFields_distinct
  have hID : Decodes wireContactFields [("id".toList, .str c.id)] (⟨[], [], []⟩, [])
      (⟨c.id, [], []⟩, []) := .single (hName 0 rfl _ _)
  have hAddress : Decodes wireContactFields [("address".toList, .str c.address)]
      (⟨c.id, [], []⟩, []) (⟨c.id, c.address, []⟩, []) := .single (hName 1 rfl _ _)
  have hAlt : Decodes wireContactFields (omitEmpty (c.alt = []) "alt".toList (textsJson c.alt))
      (⟨c.id, c.address, []⟩, []) (c, []) := by
    refine .omitEmpty ?_ ?_
    · rw [hName 2 rfl, decodeTexts_textsJson]
      rfl
    · intro hEmpty
      rw [← of_decide_eq_true hEmpty]
  exact (hID.append hAddress).append hAlt

/-- **A list of contacts survives its JSON text.** -/
theorem goNodes_payload (cs : List WireContact) :
    goNodes (Reply.nodes cs).payload = some cs := by
  have hItems : DecodedSlice.decode (⟨[], [], []⟩, []) (decodeRecord wireContactFields)
      (.arr (cs.map toJson)) ⟨[], []⟩ = some ⟨cs.map fun c => (c, []), []⟩ := by
    have hMap : cs.map toJson =
        (cs.map fun c => (c, ([] : List GoString))).map fun p => p.1.toJson := by
      rw [map_map]
      rfl
    rw [hMap]
    refine DecodedSlice.decode_map fun p hp => ?_
    obtain ⟨c, -, rfl⟩ := mem_map.mp hp
    exact c.decodeRecord_toJson
  have hFlat : ∀ j ∈ cs.map toJson, j.Integral ∧ j.depth ≤ 2 := by
    intro j hj
    obtain ⟨c, -, rfl⟩ := mem_map.mp hj
    exact c.toJson_flat
  have hInt : (Json.obj [("contacts".toList, .arr (cs.map toJson))]).Integral :=
    Json.integral_obj fun kv hkv => by
      rw [mem_singleton.mp hkv]
      exact Json.integral_arr fun j hj => (hFlat j hj).1
  have hDepth : (Json.obj [("contacts".toList, .arr (cs.map toJson))]).depth ≤ 4 :=
    Json.depth_obj_le fun kv hkv => by
      rw [mem_singleton.mp hkv]
      exact Json.depth_arr_le fun j hj => (hFlat j hj).2
  have hRead : decodeRecord nodesFields
      (.obj [("contacts".toList, .arr (cs.map toJson))]) ⟨[], []⟩ =
      some ⟨cs.map fun c => (c, []), []⟩ := by
    have hField := @decodeField_name _ _ nodesFields_distinct 0 _ _ rfl
    exact Decodes.single ((hField _ _).trans hItems)
  have hText := unmarshal_marshal hInt (hDepth.trans (by decide)) hRead
  rw [goNodes, Reply.payload]
  rw [marshal] at hText
  rw [hText, Option.map_some, map_map]
  exact congrArg some (map_id' cs)

/-! ## A miss -/

theorem kind_nodes (cs : List WireContact) (request : Message) :
    ((Reply.nodes cs).message request).kind = .dhtNodes := by
  show (msgTypes.lookup "dht_nodes".toList).getD .other = .dhtNodes
  decide +kernel

/-- What a requester makes of contacts that were listed under their own
identifiers. -/
theorem contactsOf_map (cs : List Contact) (alt : Contact → List GoString) :
    contactsOf (cs.map fun c => ⟨c.id.hex, c.address, alt c⟩) =
      cs.map fun c => ⟨c.id, c.address, alt c, 0⟩ := by
  rw [contactsOf, filterMap_map]
  simp

/-- **What a miss tells.** For a key that a node does not have, blocked or not, the
contacts read from its reply to a `dht_find_value` are those read from its reply
to a `dht_find_node` exactly when none of the contacts it lists has an
alternative address. -/
theorem find_value_miss_iff (d : DHT) (key : NodeID)
    (hAbsent : d.store.data.lookup key.hex = none) (now : Time) (findValue findNode : Message) :
    ((d.handleFindValue key.hex now).2.map fun r => readFindValue (r.message findValue)) =
        ((d.handleFindNode key.hex).bind fun r => readFindNode (r.message findNode)).map
          FindReply.contacts ↔
      ∀ c ∈ d.rt.closest key bucketK, c.altAddresses = [] := by
  have hValue : ((d.handleFindValue key.hex now).2.map fun r =>
      readFindValue (r.message findValue)) =
      some (.contacts ((d.rt.closest key bucketK).map fun c => ⟨c.id, c.address, [], 0⟩)) := by
    rw [handleFindValue_absent (idFromHex_hex key) hAbsent, closestReply, Option.map_some,
      readFindValue, kind_nodes]
    simp only [Reply.message, goNodes_payload, contactsOf_map]
  have hNode : ((d.handleFindNode key.hex).bind fun r => readFindNode (r.message findNode)).map
      FindReply.contacts = some (.contacts ((d.rt.closest key bucketK).map fun c =>
        ⟨c.id, c.address, c.altAddresses, 0⟩)) := by
    rw [handleFindNode, idFromHex_hex, Option.bind_some, readFindNode, kind_nodes, if_pos rfl]
    simp only [Reply.message, goNodes_payload, Option.map_some, contactsOf_map]
  rw [hValue, hNode, Option.some.injEq, FindReply.contacts.injEq, map_inj_left]
  simp only [Contact.mk.injEq, true_and, and_true, eq_comm]

/-- A node that knows one contact, with the given alternative addresses. -/
def oneContactNode (alt : List GoString) : DHT :=
  { new (fill 0) 0 0 with
    rt := ((RoutingTable.new (fill 0) true).update
      ⟨fill 2, "192.0.2.1:1".toList, alt, 0⟩ 0).1 }

/-- A contact with one address is passed on in full. -/
theorem find_value_miss_plain :
    (((oneContactNode []).handleFindValue (fill 1).hex 0).2.map fun r =>
        readFindValue (r.message Message.zero)) =
      (((oneContactNode []).handleFindNode (fill 1).hex).bind fun r =>
        readFindNode (r.message Message.zero)).map FindReply.contacts :=
  (find_value_miss_iff (oneContactNode []) (fill 1) rfl 0 Message.zero Message.zero).mpr
    (by decide +kernel)

/-- **An alternative address gets lost**: it is in the reply to a `dht_find_node`
and not in that to a `dht_find_value`. -/
theorem alternate_lost :
    (((oneContactNode ["relay".toList]).handleFindValue (fill 1).hex 0).2.map fun r =>
        readFindValue (r.message Message.zero)) =
      some (.contacts [⟨fill 2, "192.0.2.1:1".toList, [], 0⟩]) ∧
    (((oneContactNode ["relay".toList]).handleFindNode (fill 1).hex).bind fun r =>
        readFindNode (r.message Message.zero)) =
      some [⟨fill 2, "192.0.2.1:1".toList, ["relay".toList], 0⟩] := by
  decide +kernel

end AltNet
