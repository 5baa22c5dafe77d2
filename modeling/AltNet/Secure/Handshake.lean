import AltNet.Secure.Conn
import AltNet.Crypto

/-!
# AltNet — the handshake's messages and keys (`core/secure/secure.go`)

Each side sends one message: its long-term key, a fresh X25519 key and an
Ed25519 signature. The initiator signs its own ephemeral key; the responder
signs its own followed by the initiator's. From the two ephemeral keys both
sides derive 64 bytes, the two keys of the connection.

The primitives are parameters, a `Suite`, with the sizes that the packages
fix, with signatures that verify, and with a Diffie-Hellman exchange that is
commutative. HKDF is modelled over HMAC as it is written here.

Main results:

* `length_hkdf` — the loop of `hkdf` ends with as many bytes as were asked for;
* `finishHandshake_swap` — two sides with each other's ephemeral key derive the
  same keys, with the directions swapped.
-/

namespace AltNet

open List

/-- Ed25519, X25519 and HMAC-SHA256: `publicOf`, `sign` and `verify` of the
first, `ephPublic` and `ecdh` of the second; private keys come first. -/
structure Suite where
  publicOf : Bytes → Bytes
  sign : Bytes → Bytes → Bytes
  verify : Bytes → Bytes → Bytes → Bool
  ephPublic : Bytes → Bytes
  ecdh : Bytes → Bytes → Option Bytes
  hmac : Bytes → Bytes → Bytes
  length_publicOf : ∀ key, (publicOf key).length = publicKeySize
  length_sign : ∀ key m, (sign key m).length = 64
  length_ephPublic : ∀ eph, (ephPublic eph).length = 32
  length_hmac : ∀ key m, (hmac key m).length = 32
  verify_sign : ∀ key m, verify (publicOf key) m (sign key m) = true
  ecdh_comm : ∀ a b, ecdh a (ephPublic b) = ecdh b (ephPublic a)

/-- `HandshakeMessageSize`. -/
def handshakeMessageSize : Nat := 32 + 32 + 64

inductive HandshakeError where
  | raw (e : StreamError)
  | identityMismatch
  | badSignature (signer : Role)
  | badRemoteEphemeral
  | ecdh
  | badKeySize (size : Nat)
  | badLongTermSize
  | badEphemeralSize
  | badSignatureSize
  /-- The deadline, or a network that does not take our message. -/
  | aborted
  deriving DecidableEq

/-! ## Messages -/

structure HandshakeMessage where
  ltPub : Bytes
  ephPub : Bytes
  sig : Bytes
  deriving DecidableEq

/-- `writeHandshake`: the bytes that are written. -/
def writeHandshake (ltPub ephPub sig : Bytes) : Except HandshakeError Bytes :=
  if ltPub.length ≠ publicKeySize then .error .badLongTermSize
  else if ephPub.length ≠ 32 then .error .badEphemeralSize
  else if sig.length ≠ 64 then .error .badSignatureSize
  else .ok (ltPub ++ ephPub ++ sig)

/-- `readHandshake`; `none` while it waits. -/
def readHandshake (conn : Stream) : Option (Stream × Except StreamError HandshakeMessage) :=
  match conn.readFull handshakeMessageSize with
  | none => none
  | some (conn, .error e) => some (conn, .error e)
  | some (conn, .ok buf) =>
    some (conn, .ok ⟨buf.take 32, (buf.drop 32).take 32, buf.drop 64⟩)

/-- The keys of a message that was read have their sizes, and were the first
bytes of the stream. -/
theorem readHandshake_keys {conn conn' : Stream} {msg : HandshakeMessage}
    (h : readHandshake conn = some (conn', .ok msg)) :
    msg.ltPub.length = 32 ∧ msg.ephPub.length = 32 ∧ msg.ltPub ++ msg.ephPub <+: conn.pending := by
  unfold readHandshake at h
  split at h
  · cases h
  · cases h
  · rename_i buf hBuf
    obtain ⟨hPending, hLength, -⟩ := Stream.readFull_ok hBuf
    unfold handshakeMessageSize at hLength
    cases h
    refine ⟨?_, ?_, ?_⟩
    · show (buf.take 32).length = 32
      rw [length_take, hLength]
      rfl
    · show ((buf.drop 32).take 32).length = 32
      rw [length_take, length_drop, hLength]
      rfl
    · show buf.take 32 ++ (buf.drop 32).take 32 <+: conn.pending
      rw [← take_add, hPending]
      exact ( take_prefix _ _).trans (prefix_append _ _)

/-! ## Key derivation -/

namespace Suite

variable (S : Suite)

/-- The loop of `hkdf`, for at most so many rounds. -/
def expand (prk info : Bytes) (outLen : Nat) : Nat → UInt8 → Bytes → Bytes → Bytes
  | 0, _, _, out => out
  | rounds + 1, i, prev, out =>
    if out.length < outLen then
      let prev := S.hmac prk (prev ++ info ++ [i])
      expand prk info outLen rounds (i + 1) prev (out ++ prev)
    else out

/-- `hkdf`. A round adds 32 bytes, so that `outLen` rounds are enough. -/
def hkdf (ikm : Bytes) (salt : Option Bytes) (info : Bytes) (outLen : Nat) : Bytes :=
  let salt := salt.getD (List.replicate 32 0)
  let prk := S.hmac salt ikm
  (S.expand prk info outLen outLen 1 [] []).take outLen

theorem le_length_expand (prk info : Bytes) (outLen rounds : Nat) (i : UInt8) (prev out : Bytes)
    (h : outLen ≤ out.length + rounds) :
    outLen ≤ (S.expand prk info outLen rounds i prev out).length := by
  induction rounds generalizing i prev out with
  | zero => exact h
  | succ rounds ih =>
    unfold expand
    split
    · apply ih
      rw [length_append, S.length_hmac]
      omega
    · rename_i hEnough
      exact Nat.le_of_not_lt hEnough

theorem length_hkdf (ikm : Bytes) (salt : Option Bytes) (info : Bytes) (outLen : Nat) :
    (S.hkdf ikm salt info outLen).length = outLen := by
  unfold hkdf
  dsimp only
  rw [length_take]
  exact Nat.min_eq_left (S.le_length_expand _ _ _ _ _ _ _ (by simp))

/-- Both ephemeral keys, the initiator's first. -/
def transcript (role : Role) (myEph theirEph : Bytes) : Bytes :=
  match role with
  | .initiator => myEph ++ theirEph
  | .responder => theirEph ++ myEph

/-- The 64 bytes of which `keyI2R` and `keyR2I` are the halves. -/
def sessionKeys (shared transcript : Bytes) : Bytes :=
  S.hkdf shared (some transcript) (utf8 "altnet-aead-v1".toList) 64

/-- `aes.NewCipher` takes keys of 16, 24 and 32 bytes; the rest of
`finishHandshake` is the connection with these keys. -/
def newConn (sendKey recvKey remotePub : Bytes) : Except HandshakeError SecureConn :=
  if sendKey.length ∉ [16, 24, 32] then .error (.badKeySize sendKey.length)
  else if recvKey.length ∉ [16, 24, 32] then .error (.badKeySize recvKey.length)
  else .ok (.new sendKey recvKey remotePub)

/-- `finishHandshake`. -/
def finishHandshake (role : Role) (ephPriv theirEph remotePub : Bytes) :
    Except HandshakeError SecureConn :=
  if theirEph.length ≠ 32 then .error .badRemoteEphemeral
  else
    match S.ecdh ephPriv theirEph with
    | none => .error .ecdh
    | some shared =>
      let keys := S.sessionKeys shared (transcript role (S.ephPublic ephPriv) theirEph)
      let keyI2R := keys.take 32
      let keyR2I := (keys.drop 32).take 32
      match role with
      | .initiator => newConn keyI2R keyR2I remotePub
      | .responder => newConn keyR2I keyI2R remotePub

/-- The connection with these session keys. -/
def connOf (role : Role) (keys remotePub : Bytes) : SecureConn :=
  match role with
  | .initiator => .new (keys.take 32) ((keys.drop 32).take 32) remotePub
  | .responder => .new ((keys.drop 32).take 32) (keys.take 32) remotePub

theorem newConn_ok {sendKey recvKey : Bytes} (hSend : sendKey.length = 32)
    (hRecv : recvKey.length = 32) (remotePub : Bytes) :
    newConn sendKey recvKey remotePub = .ok (.new sendKey recvKey remotePub) := by
  unfold newConn
  rw [hSend, hRecv]
  rfl

variable {c : SecureConn} {role : Role}

/-- What `finishHandshake` returns once the exchange has succeeded. The keys
are always of the right size. -/
theorem finishHandshake_ecdh {ephPriv theirEph shared : Bytes} (remotePub : Bytes)
    (hLength : theirEph.length = 32) (hShared : S.ecdh ephPriv theirEph = some shared) :
    S.finishHandshake role ephPriv theirEph remotePub = .ok (connOf role
      (S.sessionKeys shared (transcript role (S.ephPublic ephPriv) theirEph)) remotePub) := by
  have hKeys : ∀ script, (S.sessionKeys shared script).length = 64 :=
    fun script => S.length_hkdf _ _ _ _
  have hFirst : ∀ script, ((S.sessionKeys shared script).take 32).length = 32 := by
    intro script
    rw [length_take, hKeys]
    rfl
  have hSecond : ∀ script, (((S.sessionKeys shared script).drop 32).take 32).length = 32 := by
    intro script
    rw [length_take, length_drop, hKeys]
    rfl
  unfold finishHandshake
  rw [if_neg (not_not.mpr hLength), hShared]
  cases role with
  | initiator => exact newConn_ok (hFirst _) (hSecond _) remotePub
  | responder => exact newConn_ok (hSecond _) (hFirst _) remotePub

/-- It succeeds only after an exchange. -/
theorem finishHandshake_ok {ephPriv theirEph remotePub : Bytes}
    (h : S.finishHandshake role ephPriv theirEph remotePub = .ok c) :
    theirEph.length = 32 ∧ ∃ shared, S.ecdh ephPriv theirEph = some shared := by
  unfold finishHandshake at h
  split at h
  · cases h
  rename_i hLength
  refine ⟨not_not.mp hLength, ?_⟩
  split at h
  · cases h
  · rename_i shared hShared
    exact ⟨shared, hShared⟩

/-- The key that was proved is the one that the connection shows. -/
theorem finishHandshake_remotePub {ephPriv theirEph remotePub : Bytes}
    (h : S.finishHandshake role ephPriv theirEph remotePub = .ok c) : c.remotePub = remotePub := by
  obtain ⟨hLength, shared, hShared⟩ := S.finishHandshake_ok h
  rw [S.finishHandshake_ecdh remotePub hLength hShared] at h
  cases role <;> cases h <;> rfl

/-- **The two sides agree.** If the initiator's side succeeds, the responder's
side does, and their keys are the same ones with the directions swapped. -/
theorem finishHandshake_swap {a b remotePub : Bytes} (remotePub' : Bytes)
    (h : S.finishHandshake .initiator a (S.ephPublic b) remotePub = .ok c) :
    ∃ c', S.finishHandshake .responder b (S.ephPublic a) remotePub' = .ok c' ∧
      c.sendKey = c'.recvKey ∧ c.recvKey = c'.sendKey := by
  obtain ⟨-, shared, hShared⟩ := S.finishHandshake_ok h
  have hShared' : S.ecdh b (S.ephPublic a) = some shared := by rw [S.ecdh_comm, hShared]
  rw [S.finishHandshake_ecdh remotePub (S.length_ephPublic b) hShared] at h
  cases h
  exact ⟨_, S.finishHandshake_ecdh remotePub' (S.length_ephPublic a) hShared', rfl, rfl⟩

end Suite

/-! ## Primitives to run the model with -/

/-- The bytes, cut or filled up to `n`. -/
def pad (n : Nat) (bytes : Bytes) : Bytes := (bytes ++ List.replicate n 0).take n

theorem length_pad (n : Nat) (bytes : Bytes) : (pad n bytes).length = n := by
  rw [pad, length_take, length_append, length_replicate]
  omega

/-- Nothing is hidden and nothing is hard, but the laws hold. -/
def plainSuite : Suite where
  publicOf key := pad 32 key
  sign key m := pad 64 (pad 32 key ++ m)
  verify pub m sig := sig == pad 64 (pub ++ m)
  ephPublic eph := pad 32 eph
  ecdh eph theirEph := some (List.zipWith (· + ·) (pad 32 eph) theirEph)
  hmac key m := pad 32 (m.reverse ++ key)
  length_publicOf _ := length_pad _ _
  length_sign _ _ := length_pad _ _
  length_ephPublic _ := length_pad _ _
  length_hmac _ _ := length_pad _ _
  verify_sign _ _ := beq_self_eq_true _
  ecdh_comm a b := by
    rw [zipWith_comm_of_comm UInt8.add_comm]

end AltNet
