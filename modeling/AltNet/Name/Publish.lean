import AltNet.Dht.Maintenance
import AltNet.Name.Vote

/-!
# AltNet — publishing a name (`core/name/name.go`)

`PublishWithTTL` signs a record for the canonical name and stores its JSON text
under the key of the name. Resolvers take it until its time to live has passed:
they add the time to live to the time of signing, and the allowed clock skew to
their own time. Both sums are `int64` and wrap around, so that a record with a
very long time to live has expired when it is signed.

Main results:

* `publishWithTTL_ok` — publishing a valid name does not fail;
* `publishedRecord_fresh_iff` — when the record has not expired, in exact integers;
* `published_window_iff` — when the window in which the record is taken is that
  of its time to live.
-/

namespace AltNet

open NameRecord

/-- `DefaultNameTTL`. -/
def defaultNameTTL : Int := 7 * 24 * 3600

inductive PublishError where
  | badName (e : NameError)
  | tooLarge
  | store (e : DhtError)
  deriving DecidableEq

/-- The record that `PublishWithTTL` builds and signs at Unix time `unixNow`. -/
def publishedRecord {cr : Crypto} (id : Identity cr) (name : GoString) (root : NodeID)
    (version ttl unixNow : Int) : NameRecord :=
  sign goRecords id
    { name := canonicalName name, publicKey := [], root := root.hex, version, timestamp := unixNow,
      ttl, sig := [] }

/-- `PublishWithTTL`; what `Store` needs comes with it. -/
def publishWithTTL {cr : Crypto} (d : DHT) (id : Identity cr) (name : GoString) (root : NodeID)
    (version ttl unixNow : Int) (order : List GoString) (now : Time) (table : RoutingTable) :
    Except PublishError (DHT × NameRecord) :=
  match validName name with
  | some e => .error (.badName e)
  | none =>
    let signed := publishedRecord id name root version ttl unixNow
    let blob := goRecords.marshal signed
    if maxValueSize < blob.length then .error .tooLarge
    else
      match d.storeCall (recordKey cr name) blob order now table with
      | .error e => .error (.store e)
      | .ok d => .ok (d, signed)

/-! ## Publishing -/

section Publish

variable {cr : Crypto} {id : Identity cr} {name : GoString} {root : NodeID}
  {version ttl t : Int}

/-- The text of the record is well below what the DHT stores. -/
theorem length_publishedRecord_le (hSig : ∀ data, (id.signRaw data).length = signatureSize)
    (hName : validName name = none)
    (hRange : (publishedRecord id name root version ttl t).InRange) :
    (goRecords.marshal (publishedRecord id name root version ttl t)).length ≤ maxValueSize := by
  have hLength := length_marshal_le hRange (plain_canonicalName hName)
    (plain_hexEncode _) (plain_hexEncode _) (plain_hexEncode _)
  have hNameLength : (publishedRecord id name root version ttl t).name.length ≤ 253 :=
    (validName_iff.mp hName).short
  have hKeyLength : (publishedRecord id name root version ttl t).publicKey.length = 64 := by
    show (hexEncode id.publicKey).length = 64
    rw [length_hexEncode, id.length_publicKey]
    rfl
  have hRootLength : (publishedRecord id name root version ttl t).root.length = 64 :=
    NodeID.length_hex root
  have hSigLength : (publishedRecord id name root version ttl t).sig.length = 128 := by
    show (hexEncode (id.signRaw _)).length = 128
    rw [length_hexEncode, hSig]
    rfl
  rw [hKeyLength, hRootLength, hSigLength] at hLength
  exact (hLength.trans (by omega : _ ≤ 659)).trans (by decide)

/-- **Publishing a valid name does not fail.** -/
theorem publishWithTTL_ok (hSig : ∀ data, (id.signRaw data).length = signatureSize)
    (hName : validName name = none) (hRange : (publishedRecord id name root version ttl t).InRange)
    (d : DHT) (order : List GoString) (now : Time) (table : RoutingTable) :
    ∃ d', publishWithTTL d id name root version ttl t order now table =
      .ok (d', publishedRecord id name root version ttl t) := by
  have hFits := not_lt.mpr (length_publishedRecord_le hSig hName hRange)
  have hStore : ∃ d', d.storeCall (recordKey cr name)
      (goRecords.marshal (publishedRecord id name root version ttl t)) order now table =
      .ok d' := by
    unfold DHT.storeCall DHT.storeLocal
    rw [if_neg hFits]
    by_cases hBlocked : d.isBlocked (recordKey cr name) = true
    · rw [if_pos hBlocked]
      dsimp only
      rw [if_pos hBlocked]
      exact ⟨_, rfl⟩
    · rw [if_neg hBlocked]
      dsimp only
      split
      · exact ⟨_, rfl⟩
      · exact ⟨_, rfl⟩
  obtain ⟨d', hStore⟩ := hStore
  refine ⟨d', ?_⟩
  unfold publishWithTTL
  rw [hName]
  dsimp only
  rw [if_neg hFits, hStore]

/-! ## The window -/

/-- **When a record has not expired**, in exact integers: as long as the resolver's
time, with the skew added, has not wrapped around, and the end of the window
has neither passed nor wrapped around. -/
theorem publishedRecord_fresh_iff {now : Int} (hTTL : IsInt64 ttl) (hT : IsInt64 t)
    (hNow : IsInt64 now) (hPast : 0 ≤ t) (hLe : t ≤ now) :
    (publishedRecord id name root version ttl t).expired now = false ↔
      now + maxClockSkew < 2 ^ 63 ∧ (0 < ttl → now - t ≤ ttl ∧ t + ttl < 2 ^ 63) := by
  have hSkewRange : IsInt64 maxClockSkew := by decide
  have hSkew : t ≤ addInt64 now maxClockSkew ↔ now + maxClockSkew < 2 ^ 63 := by
    have hSkewPos : 0 < maxClockSkew := by decide
    by_cases hFits : now + maxClockSkew < 2 ^ 63
    · rw [addInt64_of_fits ⟨by omega, hFits⟩]
      omega
    rw [addInt64_of_overflow hNow hSkewRange (by omega)]
    obtain ⟨-, hHigh⟩ := hNow
    obtain ⟨-, hSkewHigh⟩ := hSkewRange
    omega
  have hEnd : 0 < ttl → (now ≤ addInt64 t ttl ↔ now - t ≤ ttl ∧ t + ttl < 2 ^ 63) := by
    intro hPos
    by_cases hFits : t + ttl < 2 ^ 63
    · rw [addInt64_of_fits ⟨by omega, hFits⟩]
      omega
    rw [addInt64_of_overflow hT hTTL (by omega)]
    obtain ⟨-, hHigh⟩ := hT
    obtain ⟨-, hTTLHigh⟩ := hTTL
    omega
  rw [expired_eq_false_iff]
  show t ≤ addInt64 now maxClockSkew ∧ (0 < ttl → now ≤ addInt64 t ttl) ↔ _
  rw [hSkew]
  exact and_congr_right fun _ => forall_congr' hEnd

/-- A window that has passed is seen to have passed. -/
theorem publishedRecord_expired {now : Int} (hNow : IsInt64 now) (hPast : 0 ≤ t) (hPos : 0 < ttl)
    (hLate : ttl < now - t) : (publishedRecord id name root version ttl t).expired now = true := by
  obtain ⟨-, hHigh⟩ := hNow
  have hSum : addInt64 t ttl = t + ttl := addInt64_of_fits ⟨by omega, by omega⟩
  rw [← Bool.not_eq_false, expired_eq_false_iff]
  rintro ⟨-, hEnd⟩
  have hLe : now ≤ addInt64 t ttl := hEnd hPos
  omega

/-- The record as the only candidate, in open mode. -/
theorem pickBestRecord_published
    (hRange : (publishedRecord id name root version ttl t).InRange) (now : Int) :
    (pickBestRecord cr goRecords ∅ (canonicalName name) now
        [goRecords.marshal (publishedRecord id name root version ttl t)]).1 =
      if (publishedRecord id name root version ttl t).expired now then none
      else some (publishedRecord id name root version ttl t) := by
  have hParse := goRecords_unmarshal_marshal hRange
  have hChecks : Acceptable cr goRecords ∅ (canonicalName name) now
      (publishedRecord id name root version ttl t) ↔
      (publishedRecord id name root version ttl t).expired now = false := by
    rw [expired_eq_false_iff]
    exact ⟨fun h => ⟨h.notFuture, h.notElapsed⟩, fun ⟨hFuture, hElapsed⟩ =>
      ⟨rfl, verify_sign goRecords id _, fun hNe => absurd hNe (by simp), hFuture,
        hElapsed⟩⟩
  cases hExpired : (publishedRecord id name root version ttl t).expired now with
  | false =>
    rw [if_neg Bool.false_ne_true]
    refine pickBestRecord_first (checkRecord_ok_iff.mpr ⟨hParse, hChecks.mpr hExpired⟩) ?_
    intro r hOk
    obtain ⟨blob, hMem, -⟩ := hOk.parsed
    cases hMem
  | true =>
    rw [if_pos rfl]
    rcases @pickBestRecord_cases cr goRecords ∅ (canonicalName name) now
      [goRecords.marshal (publishedRecord id name root version ttl t)] with
      ⟨hNone, -⟩ | ⟨best, -, hOk, -⟩
    · exact hNone
    obtain ⟨blob, hMem, hBest⟩ := hOk.parsed
    rw [List.mem_singleton.mp hMem, hParse] at hBest
    have hFresh := hChecks.mp (Option.some.inj hBest ▸ hOk.acceptable)
    cases hFresh.symm.trans hExpired

end Publish

/-- **The window of a published record.** A valid name is published, and its record,
read back from its text, is taken throughout the window of its time to live
and dropped after it, exactly when the sums with which the code looks for the
end of the window, and for records from the future, do not wrap around. -/
theorem published_window_iff {cr : Crypto} (id : Identity cr) (name : GoString) (root : NodeID)
    (version ttl t now : Int) (hName : validName name = none) (hVersion : IsInt64 version)
    (hTTL : IsInt64 ttl) (hT : IsInt64 t) (hPast : 0 ≤ t) (hNow : IsInt64 now) :
    ((∀ data, (id.signRaw data).length = signatureSize) → ∀ d order time table,
      ∃ d', publishWithTTL d id name root version ttl t order time table =
        .ok (d', publishedRecord id name root version ttl t)) ∧
    ((t ≤ now ∧ (ttl ≤ 0 ∨ now - t ≤ ttl) →
        (pickBestRecord cr goRecords ∅ (canonicalName name) now
          [goRecords.marshal (publishedRecord id name root version ttl t)]).1 =
        some (publishedRecord id name root version ttl t)) ∧
      (0 < ttl ∧ ttl < now - t →
        (pickBestRecord cr goRecords ∅ (canonicalName name) now
          [goRecords.marshal (publishedRecord id name root version ttl t)]).1 = none) ↔
      (t ≤ now ∧ (ttl ≤ 0 ∨ now - t ≤ ttl) →
        now + maxClockSkew < 2 ^ 63 ∧ (ttl ≤ 0 ∨ t + ttl < 2 ^ 63))) := by
  have hRange : (publishedRecord id name root version ttl t).InRange := ⟨hVersion, hT, hTTL⟩
  refine ⟨fun hSig d order time table => publishWithTTL_ok hSig hName hRange d order time table, ?_⟩
  rw [pickBestRecord_published hRange]
  have hLate : 0 < ttl ∧ ttl < now - t →
      (publishedRecord id name root version ttl t).expired now = true :=
    fun ⟨hPos, hLate⟩ => publishedRecord_expired hNow hPast hPos hLate
  have hTaken : (if (publishedRecord id name root version ttl t).expired now then none
      else some (publishedRecord id name root version ttl t)) =
      some (publishedRecord id name root version ttl t) ↔
      (publishedRecord id name root version ttl t).expired now = false := by
    simp
  rw [hTaken, and_iff_left fun h => if_pos (hLate h)]
  refine forall_congr' fun ⟨hLe, hWindow⟩ => ?_
  rw [publishedRecord_fresh_iff hTTL hT hNow hPast hLe]
  omega

/-- A record for a week, resolved a day later. -/
theorem published_window_week :
    (pickBestRecord firstByte goRecords ∅ (canonicalName "a.alt".toList) (1700000000 + 86400)
        [goRecords.marshal (publishedRecord (sampleSigner 1) "a.alt".toList (NodeID.fill 2) 1
          defaultNameTTL 1700000000)]).1 =
      some (publishedRecord (sampleSigner 1) "a.alt".toList (NodeID.fill 2) 1 defaultNameTTL
        1700000000) :=
  ((published_window_iff (sampleSigner 1) "a.alt".toList (NodeID.fill 2) 1 defaultNameTTL
    1700000000 (1700000000 + 86400) (by decide +kernel) (by decide) (by decide) (by decide)
    (by decide) (by decide)).2.mpr (fun _ => by decide)).1 (by decide)

/-- **A time to live that has passed at once**: the largest one, signed and resolved
in the same second. -/
theorem endless_record_expired :
    (pickBestRecord firstByte goRecords ∅ (canonicalName "a.alt".toList) 1700000000
        [goRecords.marshal (publishedRecord (sampleSigner 1) "a.alt".toList (NodeID.fill 2) 1
          (2 ^ 63 - 1) 1700000000)]).1 = none := by
  rw [pickBestRecord_published ⟨by decide, by decide, by decide⟩]
  decide

end AltNet
