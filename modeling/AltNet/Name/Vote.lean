import AltNet.Name.Resolve
import AltNet.Name.Signing

/-!
# AltNet — the vote between records (`core/name/name.go`)

`pickBestRecord` goes once over the candidates and keeps the first record of
the highest version among those that pass its checks. What it returns is
described here without the loop: `Eligible` lists the checks as properties of a
record, and the record returned is an eligible one that no other outdates.

Which of several eligible records of the same version is returned depends on
the order of the candidates, and `GetAllUnverified` lists them in the order of
a Go map.

Main results:

* `checkRecord_ok_iff` — the checks of the loop, as properties of the record;
* `pickBestRecord_spec` — the record returned is eligible and newest, and there
  is one if any candidate is eligible;
* `vote_order_free_iff` — when all orders of the candidates give the same
  content.
-/

namespace AltNet

open List NameRecord

section Vote

variable (cr : Crypto) (codec : RecordCodec) (trusted : Finset GoString)
  (canonical : GoString) (now : Int)

/-- The properties that the loop checks of a record. Sums of times are `int64`. -/
structure Acceptable (r : NameRecord) : Prop where
  name : r.name = canonical
  signature : r.verify cr codec = true
  registrar : trusted.Nonempty → normalise r.publicKey ∈ trusted
  notFuture : r.timestamp ≤ addInt64 now maxClockSkew
  notElapsed : 0 < r.ttl → now ≤ addInt64 r.timestamp r.ttl

/-- A record that the loop does not drop. -/
structure Eligible (candidates : List Bytes) (r : NameRecord) : Prop where
  parsed : ∃ blob ∈ candidates, codec.unmarshal blob = some r
  acceptable : Acceptable cr codec trusted canonical now r

/-- What a resolver goes by. -/
def NameRecord.content (r : NameRecord) : GoString × GoString × Int :=
  (r.root, r.publicKey, r.version)

variable {cr codec trusted canonical now}

/-! ## The checks -/

variable {best r : NameRecord} {blob : Bytes} {candidates : List Bytes}

theorem NameRecord.expired_eq_false_iff : r.expired now = false ↔
    r.timestamp ≤ addInt64 now maxClockSkew ∧ (0 < r.ttl → now ≤ addInt64 r.timestamp r.ttl) := by
  unfold expired
  split
  · simp
    omega
  split
  · simp
    omega
  · simp
    omega

theorem registrarAllowed_iff {pk : GoString} :
    registrarAllowed trusted pk = true ↔ (trusted.Nonempty → normalise pk ∈ trusted) := by
  unfold registrarAllowed
  by_cases hOpen : trusted = ∅
  · simp [hOpen]
  · simp [hOpen, Finset.nonempty_iff_ne_empty]

/-- **The checks of the loop.** -/
theorem checkRecord_ok_iff :
    checkRecord cr codec trusted canonical now blob = .ok r ↔
      codec.unmarshal blob = some r ∧ Acceptable cr codec trusted canonical now r := by
  have hDropped : ∀ {rec : NameRecord}, ¬ Acceptable cr codec trusted canonical now rec →
      (False ↔ some rec = some r ∧ Acceptable cr codec trusted canonical now r) := by
    intro rec hNot
    refine iff_of_false id ?_
    rintro ⟨⟨⟩, hOk⟩
    exact hNot hOk
  unfold checkRecord
  rcases codec.unmarshal blob with _ | rec
  · simp
  dsimp only
  split_ifs with hName hSig hKey hExpired
  · exact hDropped fun hOk => hName hOk.name
  · refine hDropped fun hOk => ?_
    rw [hOk.signature] at hSig
    cases hSig
  · refine hDropped fun hOk => ?_
    rw [registrarAllowed_iff.mpr hOk.registrar] at hKey
    cases hKey
  · refine hDropped fun hOk => ?_
    rw [expired_eq_false_iff.mpr ⟨hOk.notFuture, hOk.notElapsed⟩] at hExpired
    cases hExpired
  · rw [Bool.not_eq_false] at hSig hKey
    rw [Bool.not_eq_true] at hExpired
    obtain ⟨hFuture, hElapsed⟩ := expired_eq_false_iff.mp hExpired
    rw [Except.ok.injEq, Option.some.injEq]
    constructor
    · rintro rfl
      exact ⟨rfl, not_not.mp hName, hSig, registrarAllowed_iff.mp hKey, hFuture, hElapsed⟩
    · exact fun h => h.1

theorem eligible_iff :
    Eligible cr codec trusted canonical now candidates r ↔
      ∃ blob ∈ candidates, checkRecord cr codec trusted canonical now blob = .ok r := by
  simp only [checkRecord_ok_iff]
  constructor
  · rintro ⟨⟨blob, hMem, hParse⟩, hOk⟩
    exact ⟨blob, hMem, hParse, hOk⟩
  · rintro ⟨blob, hMem, hParse, hOk⟩
    exact ⟨⟨blob, hMem, hParse⟩, hOk⟩

theorem Eligible.of_perm {candidates' : List Bytes}
    (h : Eligible cr codec trusted canonical now candidates r)
    (hPerm : candidates.Perm candidates') :
    Eligible cr codec trusted canonical now candidates' r := by
  obtain ⟨blob, hMem, hParse⟩ := h.parsed
  exact ⟨⟨blob, hPerm.mem_iff.mp hMem, hParse⟩, h.acceptable⟩

/-! ## The loop -/

/-- One turn keeps the best record, or takes the candidate. -/
theorem pickStep_cases (acc : Option NameRecord × Option RecordError) (blob : Bytes) :
    (pickStep cr codec trusted canonical now acc blob).1 = acc.1 ∨
      ∃ r, checkRecord cr codec trusted canonical now blob = .ok r ∧
        (pickStep cr codec trusted canonical now acc blob).1 = some r ∧
        ∀ best, acc.1 = some best → best.version < r.version := by
  unfold pickStep
  cases hCheck : checkRecord cr codec trusted canonical now blob with
  | error e => exact .inl rfl
  | ok r =>
    obtain ⟨_ | best, lastErr⟩ := acc
    · exact .inr ⟨r, rfl, rfl, fun best hBest => by cases hBest⟩
    · dsimp only
      split
      · rename_i hLt
        refine .inr ⟨r, rfl, rfl, ?_⟩
        rintro best' ⟨⟩
        exact hLt
      · exact .inl rfl

/-- What the loop ends with was there before, or is one of the candidates. -/
theorem foldl_pickStep_sound (candidates : List Bytes)
    (acc : Option NameRecord × Option RecordError) :
    (candidates.foldl (pickStep cr codec trusted canonical now) acc).1 = acc.1 ∨
      ∃ r, Eligible cr codec trusted canonical now candidates r ∧
        (candidates.foldl (pickStep cr codec trusted canonical now) acc).1 = some r := by
  induction candidates generalizing acc with
  | nil => exact .inl rfl
  | cons blob rest ih =>
    rw [foldl_cons]
    rcases ih (pickStep cr codec trusted canonical now acc blob) with hSame | ⟨r, hOk, hBest⟩
    · rw [hSame]
      rcases pickStep_cases acc blob with hKept | ⟨r, hCheck, hTaken, -⟩
      · exact .inl hKept
      · exact .inr ⟨r, eligible_iff.mpr ⟨blob, mem_cons_self, hCheck⟩, hTaken⟩
    · obtain ⟨blob', hMem, hCheck⟩ := eligible_iff.mp hOk
      exact .inr ⟨r, eligible_iff.mpr ⟨blob', mem_cons_of_mem _ hMem, hCheck⟩, hBest⟩

/-- A record that no candidate outdates stays. -/
theorem foldl_pickStep_newest
    (h : ∀ r, Eligible cr codec trusted canonical now candidates r → r.version ≤ best.version)
    (lastErr : Option RecordError) :
    (candidates.foldl (pickStep cr codec trusted canonical now) (some best, lastErr)).1 =
      some best := by
  induction candidates generalizing lastErr with
  | nil => rfl
  | cons blob rest ih =>
    have hRest : ∀ r, Eligible cr codec trusted canonical now rest r →
        r.version ≤ best.version := by
      intro r hOk
      obtain ⟨blob', hMem, hCheck⟩ := eligible_iff.mp hOk
      exact h r (eligible_iff.mpr ⟨blob', mem_cons_of_mem _ hMem, hCheck⟩)
    have hKept : (pickStep cr codec trusted canonical now (some best, lastErr) blob).1 =
        some best := by
      rcases pickStep_cases (some best, lastErr) blob with hKept | ⟨r, hCheck, -, hNewer⟩
      · exact hKept
      · have hLe := h r (eligible_iff.mpr ⟨blob, mem_cons_self, hCheck⟩)
        have hLt := hNewer best rfl
        omega
    rw [foldl_cons, ← Prod.mk.eta (p := pickStep cr codec trusted canonical now _ blob), hKept]
    exact ih hRest _

/-- **What the loop ends with**: nothing, where nothing is eligible, or an
eligible record that no other outdates. -/
theorem pickBestRecord_cases (candidates : List Bytes) :
    ((pickBestRecord cr codec trusted canonical now candidates).1 = none ∧
      ∀ r, ¬ Eligible cr codec trusted canonical now candidates r) ∨
    ∃ best, (pickBestRecord cr codec trusted canonical now candidates).1 = some best ∧
      Eligible cr codec trusted canonical now candidates best ∧
      ∀ r, Eligible cr codec trusted canonical now candidates r → r.version ≤ best.version := by
  have hMax : ∀ r, Eligible cr codec trusted canonical now candidates r →
      AtLeast r.version (pickBestRecord cr codec trusted canonical now candidates).1 := by
    intro r hOk
    obtain ⟨blob, hMem, hCheck⟩ := eligible_iff.mp hOk
    exact pickBestRecord_max hMem hCheck
  have hSound : (pickBestRecord cr codec trusted canonical now candidates).1 = none ∨
      ∃ r, Eligible cr codec trusted canonical now candidates r ∧
        (pickBestRecord cr codec trusted canonical now candidates).1 = some r :=
    foldl_pickStep_sound candidates (none, none)
  rcases hSound with hNone | ⟨best, hOk, hBest⟩
  · refine .inl ⟨hNone, fun r hOk => ?_⟩
    obtain ⟨b, hSome, -⟩ := hMax r hOk
    cases hNone.symm.trans hSome
  · refine .inr ⟨best, hBest, hOk, fun r hOk' => ?_⟩
    obtain ⟨b, hSome, hLe⟩ := hMax r hOk'
    rwa [Option.some.inj (hBest.symm.trans hSome)]

/-- The first of the newest records wins. -/
theorem pickBestRecord_first {rest : List Bytes}
    (hCheck : checkRecord cr codec trusted canonical now blob = .ok best)
    (h : ∀ r, Eligible cr codec trusted canonical now rest r → r.version ≤ best.version) :
    (pickBestRecord cr codec trusted canonical now (blob :: rest)).1 = some best := by
  have hStep : pickStep cr codec trusted canonical now (none, none) blob = (some best, none) := by
    unfold pickStep
    rw [hCheck]
  unfold pickBestRecord
  rw [foldl_cons, hStep]
  exact foldl_pickStep_newest h none

end Vote

/-- **The vote.** The record returned is eligible (it was parsed from a candidate,
has the name, verifies under its own key, is signed by a trusted registrar if
there are any, is neither from the future nor past its end), and no eligible
record is newer. None is returned exactly when no candidate is eligible. -/
theorem pickBestRecord_spec (cr : Crypto) (codec : RecordCodec) (trusted : Finset GoString)
    (canonical : GoString) (now : Int) (candidates : List Bytes) :
    (∀ r, (pickBestRecord cr codec trusted canonical now candidates).1 = some r →
      Eligible cr codec trusted canonical now candidates r ∧
      ∀ r', Eligible cr codec trusted canonical now candidates r' → r'.version ≤ r.version) ∧
    ((pickBestRecord cr codec trusted canonical now candidates).1 = none ↔
      ∀ r, ¬ Eligible cr codec trusted canonical now candidates r) := by
  rcases @pickBestRecord_cases cr codec trusted canonical now candidates with
    ⟨hNone, hNobody⟩ | ⟨best, hBest, hOk, hMax⟩
  · refine ⟨fun r hSome => ?_, iff_of_true hNone hNobody⟩
    cases hNone.symm.trans hSome
  constructor
  · intro r hSome
    obtain rfl : best = r := Option.some.inj (hBest.symm.trans hSome)
    exact ⟨hOk, hMax⟩
  · refine iff_of_false (fun hNone => ?_) fun hNobody => hNobody best hOk
    cases hBest.symm.trans hNone

/-- **When resolvers agree.** All orders of the same candidates give the same root,
key and version exactly when the newest of the eligible records agree on root
and key. -/
theorem vote_order_free_iff (cr : Crypto) (codec : RecordCodec) (trusted : Finset GoString)
    (canonical : GoString) (now : Int) (candidates : List Bytes) :
    (∀ order, order.Perm candidates →
      (pickBestRecord cr codec trusted canonical now order).1.map content =
        (pickBestRecord cr codec trusted canonical now candidates).1.map content) ↔
    ∀ r r', Eligible cr codec trusted canonical now candidates r →
      Eligible cr codec trusted canonical now candidates r' →
      (∀ r'', Eligible cr codec trusted canonical now candidates r'' →
        r''.version ≤ r.version ∧ r''.version ≤ r'.version) →
      r.root = r'.root ∧ r.publicKey = r'.publicKey := by
  constructor
  · -- Each of the newest records wins in an order that starts with it.
    intro hAgree r r' hOk hOk' hMax
    have hWins : ∀ best, Eligible cr codec trusted canonical now candidates best →
        (∀ r'', Eligible cr codec trusted canonical now candidates r'' →
          r''.version ≤ best.version) →
        (pickBestRecord cr codec trusted canonical now candidates).1.map content =
          some best.content := by
      intro best hBest hNewest
      obtain ⟨blob, hMem, hCheck⟩ := eligible_iff.mp hBest
      have hPerm : (blob :: candidates.erase blob).Perm candidates :=
        (perm_cons_erase hMem).symm
      have hRest : ∀ r'', Eligible cr codec trusted canonical now (candidates.erase blob) r'' →
          r''.version ≤ best.version := by
        intro r'' hOk''
        obtain ⟨blob'', hMem'', hCheck''⟩ := eligible_iff.mp hOk''
        exact hNewest r'' (eligible_iff.mpr ⟨blob'', mem_of_mem_erase hMem'', hCheck''⟩)
      rw [← hAgree _ hPerm, pickBestRecord_first hCheck hRest]
      rfl
    have hSame : r.content = r'.content := Option.some.inj
      ((hWins r hOk fun r'' h => (hMax r'' h).1).symm.trans
        (hWins r' hOk' fun r'' h => (hMax r'' h).2))
    simp only [content, Prod.mk.injEq] at hSame
    exact ⟨hSame.1, hSame.2.1⟩
  · intro hAgree order hPerm
    rcases @pickBestRecord_cases cr codec trusted canonical now order with
      ⟨hNone, hNobody⟩ | ⟨r, hBest, hOk, hMax⟩
    · rcases @pickBestRecord_cases cr codec trusted canonical now candidates with
        ⟨hNone', -⟩ | ⟨r', -, hOk', -⟩
      · rw [hNone, hNone']
      · exact absurd (hOk'.of_perm hPerm.symm) (hNobody r')
    · rcases @pickBestRecord_cases cr codec trusted canonical now candidates with
        ⟨-, hNobody⟩ | ⟨r', hBest', hOk', hMax'⟩
      · exact absurd (hOk.of_perm hPerm) (hNobody r)
      · have hLe := hMax' r (hOk.of_perm hPerm)
        have hGe := hMax r' (hOk'.of_perm hPerm.symm)
        obtain ⟨hRoot, hKey⟩ := hAgree r r' (hOk.of_perm hPerm) hOk' fun r'' hOk'' =>
          ⟨hMax r'' (hOk''.of_perm hPerm.symm), hMax' r'' hOk''⟩
        have hVersion : r.version = r'.version := by omega
        simp only [hBest, hBest', Option.map_some, content, hRoot, hKey, hVersion]

/-- A record of version 1 for `a.alt`, with a root of its signer's choice. -/
def rivalRecord (b : UInt8) : NameRecord :=
  sign goRecords (sampleSigner b)
    ⟨"a.alt".toList, [], (NodeID.fill b).hex, 1, 0, 0, []⟩

theorem rivalRecord_passes (b : UInt8) :
    checkRecord firstByte goRecords ∅ "a.alt".toList 0 (goRecords.marshal (rivalRecord b)) =
      .ok (rivalRecord b) := by
  refine checkRecord_ok_iff.mpr
    ⟨goRecords_unmarshal_marshal ⟨show IsInt64 1 by decide, show IsInt64 0 by decide,
      show IsInt64 0 by decide⟩, rfl, verify_sign goRecords _ _, ?_, ?_, ?_⟩
  · exact fun hNe => absurd hNe (by simp)
  · show (0 : Int) ≤ addInt64 0 maxClockSkew
    decide
  · exact fun hTTL => absurd hTTL (lt_irrefl (0 : Int))

/-- The record that stands first is the one that is picked. -/
theorem pickBestRecord_rivals (b b' : UInt8) :
    (pickBestRecord firstByte goRecords ∅ "a.alt".toList 0
      [goRecords.marshal (rivalRecord b), goRecords.marshal (rivalRecord b')]).1 =
      some (rivalRecord b) := by
  refine pickBestRecord_first (rivalRecord_passes b) fun r hOk => ?_
  obtain ⟨blob, hMem, hCheck⟩ := eligible_iff.mp hOk
  rw [mem_singleton.mp hMem, rivalRecord_passes, Except.ok.injEq] at hCheck
  rw [← hCheck]
  exact le_rfl

/-- **Two records of one version**: each of two resolvers, who were sent both, goes
by the one that its map lists first. -/
theorem rivals_by_order :
    ((pickBestRecord firstByte goRecords ∅ "a.alt".toList 0
        [goRecords.marshal (rivalRecord 1), goRecords.marshal (rivalRecord 2)]).1.map
      fun r => r.root) = some (NodeID.fill 1).hex ∧
    ((pickBestRecord firstByte goRecords ∅ "a.alt".toList 0
        [goRecords.marshal (rivalRecord 2), goRecords.marshal (rivalRecord 1)]).1.map
      fun r => r.root) = some (NodeID.fill 2).hex ∧
    (NodeID.fill 1).hex ≠ (NodeID.fill 2).hex := by
  rw [pickBestRecord_rivals, pickBestRecord_rivals]
  exact ⟨rfl, rfl, by decide +kernel⟩

end AltNet
