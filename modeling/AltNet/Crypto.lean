import AltNet.Dht.Id
import AltNet.Lib.Utf8

/-!
# AltNet — keys and signatures (`core/crypto`)

SHA-256 and Ed25519 verification are the two primitives the rest of the code
calls. They are parameters of the model: a `Crypto` is any hash with 32-byte
output and any verification predicate, and no result below assumes more of
them than it states.
-/

namespace AltNet

/-- The primitives: `sha256.Sum256` and `ed25519.Verify(pub, data, sig)`. -/
structure Crypto where
  sha256 : Bytes → NodeID
  ed25519Verify : Bytes → Bytes → Bytes → Bool

/-- `ed25519.PublicKeySize`. -/
def publicKeySize : Nat := 32

/-- `PublicKeyFromHex`. -/
def publicKeyFromHex (s : GoString) : Option Bytes :=
  match hexDecode s with
  | none => none
  | some raw => if raw.length = publicKeySize then some raw else none

/-- `PublicKeyToHex`. -/
def publicKeyToHex (pub : Bytes) : GoString := hexEncode pub

namespace Crypto

variable (cr : Crypto)

/-- `PublicKeyToID`. -/
def publicKeyToID (pub : Bytes) : GoString := (cr.sha256 pub).hex

/-- `ContentAddress`. -/
def contentAddress (value : Bytes) : NodeID := cr.sha256 value

/-- `Verify`; `false` stands for `ErrBadSignature`. -/
def verify (pub data : Bytes) (sigHex : GoString) : Bool :=
  match hexDecode sigHex with
  | none => false
  | some sig => cr.ed25519Verify pub data sig

end Crypto

/-- `Identity`: a key pair, whose signatures verify. -/
structure Identity (cr : Crypto) where
  publicKey : Bytes
  signRaw : Bytes → Bytes
  length_publicKey : publicKey.length = publicKeySize
  verifies : ∀ data, cr.ed25519Verify publicKey data (signRaw data) = true

/-- `Identity.Sign`: the signature in hex. -/
def Identity.sign {cr : Crypto} (id : Identity cr) (data : Bytes) : GoString :=
  hexEncode (id.signRaw data)

theorem Identity.verify_sign {cr : Crypto} (id : Identity cr) (data : Bytes) :
    cr.verify id.publicKey data (id.sign data) = true := by
  unfold Crypto.verify Identity.sign
  rw [hexDecode_hexEncode]
  exact id.verifies data

theorem Identity.publicKeyFromHex_publicKey {cr : Crypto} (id : Identity cr) :
    publicKeyFromHex (publicKeyToHex id.publicKey) = some id.publicKey := by
  unfold publicKeyFromHex publicKeyToHex
  rw [hexDecode_hexEncode]
  exact if_pos id.length_publicKey

/-- An identifier made from a key is never the empty text. -/
theorem Crypto.publicKeyToID_ne_nil (cr : Crypto) (pub : Bytes) : cr.publicKeyToID pub ≠ [] :=
  NodeID.hex_ne_nil _

/-- Hashes that look at the first byte, and signatures that are all good. -/
def firstByte : Crypto := ⟨fun bs => NodeID.fill (bs.headD 0), fun _ _ _ => true⟩

/-- A signer whose signatures are empty, and always good. -/
def sampleIdentity : Identity firstByte := ⟨List.replicate 32 7, fun _ => [], rfl, fun _ => rfl⟩

end AltNet
