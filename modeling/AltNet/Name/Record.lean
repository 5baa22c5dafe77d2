import AltNet.Crypto

/-!
# AltNet — signed name records (`core/name/name.go`)

A name record is a JSON blob under the hash of the name. JSON itself is a
parameter of the model: `RecordCodec` is the pair of `json.Marshal` and
`json.Unmarshal` at this type.

`signedRecord` is the part of the loop of `pickBestRecord` that does not look
at the clock: it parses a blob and drops it unless it is for the wanted name,
carries a valid signature and comes from an allowed registrar. The version of
such a record is what resolvers compare.
-/

namespace AltNet

/-- `NameRecord`. -/
structure NameRecord where
  name : GoString
  publicKey : GoString
  root : GoString
  version : Int
  timestamp : Int
  ttl : Int
  sig : GoString
  deriving DecidableEq

/-- `json.Marshal` and `json.Unmarshal` of a `NameRecord`. -/
structure RecordCodec where
  marshal : NameRecord → Bytes
  unmarshal : Bytes → Option NameRecord

/-- `NameRecord.Verify`: the signature is over the record without it. -/
def NameRecord.verify (cr : Crypto) (codec : RecordCodec) (r : NameRecord) : Bool :=
  match publicKeyFromHex r.publicKey with
  | none => false
  | some pub => cr.verify pub (codec.marshal { r with sig := [] }) r.sig

/-- `registrarAllowed`; an empty set of trusted registrars is the open mode. -/
def registrarAllowed (trusted : Finset GoString) (pk : GoString) : Bool :=
  if trusted = ∅ then true else decide (normalise pk ∈ trusted)

/-- The checks `pickBestRecord` makes of one candidate before it asks whether
the record has expired. -/
def signedRecord (cr : Crypto) (codec : RecordCodec) (trusted : Finset GoString)
    (canonical : GoString) (blob : Bytes) : Option NameRecord :=
  match codec.unmarshal blob with
  | none => none
  | some rec =>
    if rec.name ≠ canonical then none
    else if rec.verify cr codec = false then none
    else if registrarAllowed trusted rec.publicKey = false then none
    else some rec

/-- The version of a blob that is a validly signed record for the name. -/
def recordVersion (cr : Crypto) (codec : RecordCodec) (trusted : Finset GoString)
    (canonical : GoString) (blob : Bytes) : Option Int :=
  (signedRecord cr codec trusted canonical blob).map (·.version)

/-- A codec whose blobs are a version number and nothing else. -/
def versionCodec : RecordCodec where
  marshal := fun r => [UInt8.ofNat r.version.toNat]
  unmarshal := fun blob => some
    { name := "a.alt".toList, publicKey := (NodeID.fill 0).hex, root := [],
      version := (blob.headD 0).toNat, timestamp := 0, ttl := 0, sig := [] }

end AltNet
