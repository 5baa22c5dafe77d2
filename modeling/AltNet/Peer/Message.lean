import AltNet.Crypto

/-!
# AltNet — messages between peers (`core/peer/peer.go`)

A message travels as four bytes of length, big-endian, and the JSON text of
its fields. The read loop of a connection takes frame after frame off the
stream and ends at the first one that is too large, does not decode or is not
signed as it should be.

JSON is a parameter, `MessageCodec`; the decoded fields are arbitrary.

Main results:

* `verifyMessage_ok` — what an accepted message is known to satisfy: its key
  is the one of the connection, and its sender is that key's identifier *or
  left empty*;
* `takeMessage_message` — a message comes out of the read loop only after it
  was accepted.
-/

namespace AltNet

/-- `MaxMessageSize`. -/
def maxMessageSize : Nat := 2 ^ 20

/-- `MinSupportedVersion`. -/
def minSupportedVersion : UInt32 := 1

/-- `Message`; `sender` is the field `From`. -/
structure Message where
  v : UInt32
  type : GoString
  sender : GoString
  publicKey : GoString
  reqID : GoString
  payload : GoString
  sig : GoString
  deriving DecidableEq

/-- The message types that some code switches on. -/
inductive MsgType where
  | hello
  | goodbye
  | ping
  | pong
  | chat
  | dhtPing
  | dhtPong
  | dhtFindNode
  | dhtNodes
  | dhtStore
  | dhtStored
  | dhtFindValue
  | dhtValue
  | dhtRevoke
  | other
  deriving DecidableEq

/-- The texts of the message types. -/
def msgTypes : List (GoString × MsgType) :=
  [("hello".toList, .hello), ("goodbye".toList, .goodbye), ("ping".toList, .ping),
   ("pong".toList, .pong), ("chat".toList, .chat), ("dht_ping".toList, .dhtPing),
   ("dht_pong".toList, .dhtPong), ("dht_find_node".toList, .dhtFindNode),
   ("dht_nodes".toList, .dhtNodes), ("dht_store".toList, .dhtStore),
   ("dht_stored".toList, .dhtStored), ("dht_find_value".toList, .dhtFindValue),
   ("dht_value".toList, .dhtValue), ("dht_revoke".toList, .dhtRevoke)]

def Message.kind (m : Message) : MsgType := (msgTypes.lookup m.type).getD .other

/-- `json.Marshal` and `json.Unmarshal` on messages. -/
structure MessageCodec where
  marshal : Message → Bytes
  unmarshal : Bytes → Option Message

/-- The identity fields of a `peerConn`; a missing key is Go's `nil`. -/
structure PeerConn where
  remotePub : Option Bytes
  remoteID : GoString
  deriving DecidableEq

/-- The connection after a handshake that verified the key `pub`. -/
def Crypto.authenticated (cr : Crypto) (pub : Bytes) : PeerConn where
  remotePub := some pub
  remoteID := cr.publicKeyToID pub

/-- The errors of `verifyMessage`. -/
inductive VerifyError where
  | unsupportedVersion (v : UInt32)
  | missingPublicKey
  | badPublicKey
  | fromMismatch
  | keyChanged
  | badSignature
  deriving DecidableEq

/-- A missing version counts as the first one. -/
def effectiveVersion (v : UInt32) : UInt32 := if v = 0 then 1 else v

/-- `verifyMessage`, with the connection as it leaves it. -/
def verifyMessage (cr : Crypto) (codec : MessageCodec) (pc : PeerConn) (msg : Message) :
    Except VerifyError PeerConn :=
  if effectiveVersion msg.v < minSupportedVersion then .error (.unsupportedVersion msg.v)
  else if msg.publicKey = [] then .error .missingPublicKey
  else
    match publicKeyFromHex msg.publicKey with
    | none => .error .badPublicKey
    | some pub =>
      if msg.sender ≠ [] ∧ msg.sender ≠ cr.publicKeyToID pub then .error .fromMismatch
      else if pc.remotePub ≠ none ∧ pc.remotePub ≠ some pub then .error .keyChanged
      else if cr.verify pub (codec.marshal { msg with sig := [] }) msg.sig = false then
        .error .badSignature
      else if pc.remotePub = none then .ok (cr.authenticated pub)
      else .ok pc

/-- `binary.BigEndian.Uint32`. -/
def bigEndianUint32 (b0 b1 b2 b3 : UInt8) : Nat :=
  ((b0.toNat * 256 + b1.toNat) * 256 + b2.toNat) * 256 + b3.toNat

/-- What one turn of the read loop finds on the stream. -/
inductive Frame where
  | incomplete
  | badSize (size : Nat)
  | body (buf rest : Bytes)
  deriving DecidableEq

/-- The two reads of one turn of `readLoop`. -/
def readFrame : Bytes → Frame
  | b0 :: b1 :: b2 :: b3 :: rest =>
    let size := bigEndianUint32 b0 b1 b2 b3
    if size = 0 ∨ maxMessageSize < size then .badSize size
    else if rest.length < size then .incomplete
    else .body (rest.take size) (rest.drop size)
  | _ => .incomplete

/-- The outcome of one turn of `readLoop`: it waits for more bytes, it ends,
or it hands a verified message on. -/
inductive Turn where
  | blocked
  | drop
  | message (msg : Message) (pc : PeerConn) (rest : Bytes)

/-- One turn of `readLoop` up to the call of `handleMessage`. -/
def takeMessage (cr : Crypto) (codec : MessageCodec) (pc : PeerConn) (input : Bytes) : Turn :=
  match readFrame input with
  | .incomplete => .blocked
  | .badSize _ => .drop
  | .body buf rest =>
    match codec.unmarshal buf with
    | none => .drop
    | some msg =>
      match verifyMessage cr codec pc msg with
      | .error _ => .drop
      | .ok pc => .message msg pc rest

/-! ## What an accepted message satisfies -/

variable {cr : Crypto} {codec : MessageCodec} {pc pc' : PeerConn} {msg : Message}

/-- An accepted message carries a key, is signed with it, and names that key's
identifier as its sender or nobody. The key is the one of the connection, if
that has one, and is the connection's from then on. -/
theorem verifyMessage_ok (h : verifyMessage cr codec pc msg = .ok pc') :
    ∃ pub, publicKeyFromHex msg.publicKey = some pub ∧
      (msg.sender = [] ∨ msg.sender = cr.publicKeyToID pub) ∧
      (pc.remotePub = none ∨ pc.remotePub = some pub) ∧
      cr.verify pub (codec.marshal { msg with sig := [] }) msg.sig = true ∧
      pc' = if pc.remotePub = none then cr.authenticated pub else pc := by
  unfold verifyMessage at h
  split at h
  · cases h
  split at h
  · cases h
  split at h
  · cases h
  rename_i pub hPub
  split at h
  · cases h
  rename_i hFrom
  split at h
  · cases h
  rename_i hKey
  split at h
  · cases h
  rename_i hSig
  refine ⟨pub, hPub, ?_, ?_, by simpa using hSig, ?_⟩
  · by_cases hEmpty : msg.sender = []
    · exact Or.inl hEmpty
    · right
      by_contra hOther
      exact hFrom ⟨hEmpty, hOther⟩
  · by_cases hNone : pc.remotePub = none
    · exact Or.inl hNone
    · right
      by_contra hOther
      exact hKey ⟨hNone, hOther⟩
  · split at h <;> rename_i hNone
    · rw [if_pos hNone]
      exact (Except.ok.inj h).symm
    · rw [if_neg hNone]
      exact (Except.ok.inj h).symm

/-- On an authenticated connection the key of an accepted message is the key
of the handshake, and the connection stays as it is. -/
theorem verifyMessage_authenticated {pub : Bytes}
    (h : verifyMessage cr codec (cr.authenticated pub) msg = .ok pc') :
    publicKeyFromHex msg.publicKey = some pub ∧
      (msg.sender = [] ∨ msg.sender = cr.publicKeyToID pub) ∧ pc' = cr.authenticated pub := by
  obtain ⟨pub', hPub, hFrom, hKey, -, hPc⟩ := verifyMessage_ok h
  have hSame : pub' = pub := by
    rcases hKey with hNone | hSome
    · cases hNone
    · exact (Option.some.inj hSome).symm
  subst hSame
  refine ⟨hPub, hFrom, ?_⟩
  rw [hPc]
  exact if_neg (by simp [Crypto.authenticated])

/-- The read loop hands on only what `verifyMessage` accepts. -/
theorem takeMessage_message {input rest : Bytes}
    (h : takeMessage cr codec pc input = .message msg pc' rest) :
    verifyMessage cr codec pc msg = .ok pc' := by
  unfold takeMessage at h
  split at h
  · cases h
  · cases h
  · split at h
    · cases h
    · split at h
      · cases h
      · rename_i hVerify
        cases h
        exact hVerify

end AltNet
