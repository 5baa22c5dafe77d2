import AltNet.Dht.MessageSize
import AltNet.Name.Labels
import AltNet.Name.Record

/-!
# AltNet — signed name records as JSON (`core/name/name.go`)

`RecordCodec` leaves the JSON of a name record open. Here it is `encoding/json`
at the struct's tags: `ttl` and `sig` are left out when they are zero, and a
signature is made over the record without it.

Main results:

* `goRecords_unmarshal_marshal` — a record survives its JSON text;
* `NameRecord.verify_sign` — what is signed verifies;
* `NameRecord.length_marshal_le` — how long the text is at most.
-/

namespace AltNet

open NameRecord

/-- The zero value of `NameRecord`. -/
def NameRecord.zero : NameRecord := ⟨[], [], [], 0, 0, 0, []⟩

/-- `NameRecord` with its tags, as it is read. -/
def recordFields : FieldTable NameRecord :=
  [("name".toList, fun j r => (decodeString j r.name).map fun s => { r with name := s }),
   ("pk".toList, fun j r => (decodeString j r.publicKey).map fun s => { r with publicKey := s }),
   ("root".toList, fun j r => (decodeString j r.root).map fun s => { r with root := s }),
   ("version".toList, fun j r => (decodeInt64 j r.version).map fun n => { r with version := n }),
   ("ts".toList, fun j r => (decodeInt64 j r.timestamp).map fun n => { r with timestamp := n }),
   ("ttl".toList, fun j r => (decodeInt64 j r.ttl).map fun n => { r with ttl := n }),
   ("sig".toList, fun j r => (decodeString j r.sig).map fun s => { r with sig := s })]

/-- `NameRecord` with its tags, as it is written. -/
def NameRecord.toJson (r : NameRecord) : Json :=
  .obj ([("name".toList, .str r.name), ("pk".toList, .str r.publicKey),
      ("root".toList, .str r.root), ("version".toList, .num (formatInt r.version)),
      ("ts".toList, .num (formatInt r.timestamp))] ++
    omitEmpty (r.ttl = 0) "ttl".toList (.num (formatInt r.ttl)) ++
    omitEmpty (r.sig = []) "sig".toList (.str r.sig))

/-- `encoding/json` on name records. -/
def goRecords : RecordCodec where
  marshal r := marshal r.toJson
  unmarshal := unmarshal recordFields zero

/-- `NameRecord.Sign`. -/
def NameRecord.sign {cr : Crypto} (codec : RecordCodec) (id : Identity cr) (r : NameRecord) :
    NameRecord :=
  let bare := { r with publicKey := publicKeyToHex id.publicKey, sig := [] }
  { bare with sig := id.sign (codec.marshal bare) }

/-- **What is signed verifies.** -/
theorem NameRecord.verify_sign {cr : Crypto} (codec : RecordCodec) (id : Identity cr)
    (r : NameRecord) : (r.sign codec id).verify cr codec = true := by
  unfold verify
  rw [show (r.sign codec id).publicKey = publicKeyToHex id.publicKey from rfl,
    id.publicKeyFromHex_publicKey]
  exact id.verify_sign _

/-! ## The round trip -/

/-- The numbers of a record are `int64`. -/
structure NameRecord.InRange (r : NameRecord) : Prop where
  version : IsInt64 r.version
  timestamp : IsInt64 r.timestamp
  ttl : IsInt64 r.ttl

theorem recordFields_distinct : recordFields.Distinct := by decide +kernel

theorem NameRecord.decodeRecord_toJson {r : NameRecord} (h : r.InRange) :
    decodeRecord recordFields r.toJson zero = some r := by
  have hField := @decodeField_name _ _ recordFields_distinct
  obtain ⟨hVersion, hTimestamp, hTTL⟩ := h
  obtain ⟨name, publicKey, root, version, timestamp, ttl, sig⟩ := r
  have hTexts : Decodes recordFields
      [("name".toList, .str name), ("pk".toList, .str publicKey), ("root".toList, .str root)]
      zero ⟨name, publicKey, root, 0, 0, 0, []⟩ := by
    have hName : Decodes recordFields [("name".toList, .str name)]
        zero ⟨name, [], [], 0, 0, 0, []⟩ := .single (hField 0 rfl _ _)
    have hKey : Decodes recordFields [("pk".toList, .str publicKey)]
        ⟨name, [], [], 0, 0, 0, []⟩ ⟨name, publicKey, [], 0, 0, 0, []⟩ :=
      .single (hField 1 rfl _ _)
    have hRoot : Decodes recordFields [("root".toList, .str root)]
        ⟨name, publicKey, [], 0, 0, 0, []⟩ ⟨name, publicKey, root, 0, 0, 0, []⟩ :=
      .single (hField 2 rfl _ _)
    exact hName.append (hKey.append hRoot)
  have hNumbers : Decodes recordFields
      [("version".toList, .num (formatInt version)), ("ts".toList, .num (formatInt timestamp))]
      ⟨name, publicKey, root, 0, 0, 0, []⟩ ⟨name, publicKey, root, version, timestamp, 0, []⟩ := by
    have hFirst : Decodes recordFields [("version".toList, .num (formatInt version))]
        ⟨name, publicKey, root, 0, 0, 0, []⟩ ⟨name, publicKey, root, version, 0, 0, []⟩ := by
      refine .single ?_
      rw [hField 3 rfl, decodeInt64_formatInt hVersion]
      rfl
    have hSecond : Decodes recordFields [("ts".toList, .num (formatInt timestamp))]
        ⟨name, publicKey, root, version, 0, 0, []⟩
        ⟨name, publicKey, root, version, timestamp, 0, []⟩ := by
      refine .single ?_
      rw [hField 4 rfl, decodeInt64_formatInt hTimestamp]
      rfl
    exact hFirst.append hSecond
  have hWindow : Decodes recordFields (omitEmpty (ttl = 0) "ttl".toList (.num (formatInt ttl)))
      ⟨name, publicKey, root, version, timestamp, 0, []⟩
      ⟨name, publicKey, root, version, timestamp, ttl, []⟩ := by
    refine .omitEmpty ?_ fun hZero => by rw [of_decide_eq_true hZero]
    rw [hField 5 rfl, decodeInt64_formatInt hTTL]
    rfl
  have hSig : Decodes recordFields (omitEmpty (sig = []) "sig".toList (.str sig))
      ⟨name, publicKey, root, version, timestamp, ttl, []⟩
      ⟨name, publicKey, root, version, timestamp, ttl, sig⟩ :=
    .omitEmpty (hField 6 rfl _ _) fun hNil => by rw [of_decide_eq_true hNil]
  exact ((hTexts.append hNumbers).append hWindow).append hSig

/-- A record is an object of texts and numbers. -/
theorem NameRecord.toJson_flat (r : NameRecord) : r.toJson.Integral ∧ r.toJson.depth ≤ 1 := by
  have hFields : ∀ kv ∈ ([("name".toList, Json.str r.name), ("pk".toList, .str r.publicKey),
      ("root".toList, .str r.root), ("version".toList, .num (formatInt r.version)),
      ("ts".toList, .num (formatInt r.timestamp))] ++
      omitEmpty (r.ttl = 0) "ttl".toList (.num (formatInt r.ttl)) ++
      omitEmpty (r.sig = []) "sig".toList (.str r.sig)), kv.2.Integral ∧ kv.2.depth ≤ 0 := by
    intro kv hkv
    simp only [List.mem_append, List.mem_cons, List.not_mem_nil, or_false] at hkv
    rcases hkv with ((rfl | rfl | rfl | rfl | rfl) | hTTL) | hSig
    · exact ⟨trivial, Nat.le_refl 0⟩
    · exact ⟨trivial, Nat.le_refl 0⟩
    · exact ⟨trivial, Nat.le_refl 0⟩
    · exact ⟨Json.integral_num _, Nat.le_refl 0⟩
    · exact ⟨Json.integral_num _, Nat.le_refl 0⟩
    · rw [mem_omitEmpty hTTL]
      exact ⟨Json.integral_num _, Nat.le_refl 0⟩
    · rw [mem_omitEmpty hSig]
      exact ⟨trivial, Nat.le_refl 0⟩
  exact ⟨Json.integral_obj fun kv hkv => (hFields kv hkv).1,
    Json.depth_obj_le fun kv hkv => (hFields kv hkv).2⟩

/-- **A record survives its JSON text.** -/
theorem goRecords_unmarshal_marshal {r : NameRecord} (h : r.InRange) :
    goRecords.unmarshal (goRecords.marshal r) = some r :=
  unmarshal_marshal r.toJson_flat.1 (r.toJson_flat.2.trans (by decide)) (r.decodeRecord_toJson h)

/-! ## The size -/

/-- **The length of a record's text**, whose own texts are written as they are. -/
theorem NameRecord.length_marshal_le {r : NameRecord} (h : r.InRange) (hName : Plain r.name)
    (hKey : Plain r.publicKey) (hRoot : Plain r.root) (hSig : Plain r.sig) :
    (goRecords.marshal r).length ≤
      r.name.length + r.publicKey.length + r.root.length + r.sig.length + 150 := by
  have hKeys : cost Char.utf8Size (quote "name".toList) = 6 ∧
      cost Char.utf8Size (quote "pk".toList) = 4 ∧
      cost Char.utf8Size (quote "root".toList) = 6 ∧
      cost Char.utf8Size (quote "version".toList) = 9 ∧
      cost Char.utf8Size (quote "ts".toList) = 4 ∧
      cost Char.utf8Size (quote "ttl".toList) = 5 ∧
      cost Char.utf8Size (quote "sig".toList) = 5 := by decide
  obtain ⟨hKeyName, hKeyPk, hKeyRoot, hKeyVersion, hKeyTs, hKeyTTL, hKeySig⟩ := hKeys
  have hVersion := length_formatInt_le h.version
  have hTimestamp := length_formatInt_le h.timestamp
  have hTTL := length_formatInt_le h.ttl
  rw [show goRecords.marshal r = marshal r.toJson from rfl, length_marshal, toJson,
    cost_obj structural_utf8Size (by simp)]
  simp only [fieldsCost_append, fieldsCost_omitEmpty, fieldsCost_cons, fieldsCost_nil,
    length_quote, length_num, hKeyName, hKeyPk, hKeyRoot, hKeyVersion, hKeyTs, hKeyTTL, hKeySig,
    hName.textCost, hKey.textCost, hRoot.textCost, hSig.textCost]
  split <;> split <;> omega

/-- A valid name is written as it is. -/
theorem plain_canonicalName {name : GoString} (h : validName name = none) :
    Plain (canonicalName name) := by
  have hTable : ∀ n < 128, n = 0x2D ∨ n = 0x2E ∨ 0x61 ≤ n ∧ n ≤ 0x7A ∨ 0x30 ≤ n ∧ n ≤ 0x39 →
      escape (Char.ofNat n) = [Char.ofNat n] ∧ (Char.ofNat n).utf8Size = 1 := by
    decide
  intro c hc
  have hRange : c.toNat = 0x2D ∨ c.toNat = 0x2E ∨ 0x61 ≤ c.toNat ∧ c.toNat ≤ 0x7A ∨
      0x30 ≤ c.toNat ∧ c.toNat ≤ 0x39 := by
    rcases ascii_of_labels (validName_iff.mp h).split_labels hc with rfl | hChar
    · exact Or.inr (Or.inl rfl)
    · rcases isLabelChar_range hChar with rfl | hRange
      · exact Or.inl rfl
      · exact Or.inr (Or.inr hRange)
  have hPlain := hTable c.toNat (by omega) hRange
  rwa [Char.ofNat_toNat] at hPlain

end AltNet
