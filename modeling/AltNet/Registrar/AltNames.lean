import AltNet.Name.Labels
import AltNet.Registrar.SiteRevoke

/-!
# AltNet — three validators for `.alt` names (`apps/registrar`, `apps/altca`)

`validName` knows the grammar of names. `ValidateDomain`, which decides what
the registrar offers, ends with the comment that the rest is delegated to the
name package, and delegates nothing. `validAltHostname`, which decides what
the local CA signs for, checks the characters, and no labels.

Main results:

* `validateDomain_iff` — what `ValidateDomain` accepts;
* `canonicalName_altHostname` — what the CA accepts is canonical;
* `alt_validators_iff` — the names on which the validators agree.
-/

namespace AltNet

/-- Under `.alt`, with something before it. -/
def EndsAlt (c : GoString) : Prop := altSuffix <:+ c ∧ c ≠ altSuffix

/-- `validAltHostname`. -/
def validAltHostname (s : GoString) : Bool :=
  if s = [] ∨ s ≠ trimSpace s then false
  else if ¬ altSuffix <:+ s then false
  else if s = altSuffix then false
  else s.all fun r => decide ('a' ≤ r) && decide (r ≤ 'z') ||
    decide ('0' ≤ r) && decide (r ≤ '9') || decide (r = '-') || decide (r = '.')

/-- `CheckResponse`, with its status. -/
structure CheckResponse where
  status : Nat
  name : GoString
  available : Bool
  owner : GoString
  root : GoString
  error : Option DomainError
  deriving DecidableEq

/-- `handleCheck`, for a name that is not empty. -/
def handleCheck (cr : Crypto) (d : DHT) (env : ResolveEnv) (reg : Registry) (rawName : GoString) :
    Option (DHT × CheckResponse) :=
  let canonical := canonicalName rawName
  match validateDomain canonical with
  | some e => some (d, ⟨400, canonical, false, [], [], some e⟩)
  | none =>
    match reg.lookup canonical with
    | some rec => some (d, ⟨200, canonical, false, rec.owner, rec.root, none⟩)
    | none =>
      (resolve d cr env.codec env.trusted env.net env.order canonical env.now env.unixNow
        env.fuel).map fun resolved =>
          match resolved with
          | (d, .ok dhtRec) => (d, ⟨200, canonical, false, [], dhtRec.root, none⟩)
          | (d, .error _) => (d, ⟨200, canonical, true, [], [], none⟩)

/-! ## What the two accept -/

/-- **What `ValidateDomain` accepts**: whatever ends in `.alt`. -/
theorem validateDomain_iff {c : GoString} : validateDomain c = none ↔ EndsAlt c := by
  have hLong : altSuffix <:+ c → 2 ≤ (utf8 c).length := by
    rintro ⟨front, rfl⟩
    have hAlt : (utf8 altSuffix).length = 4 := by decide +kernel
    rw [utf8_append, List.length_append, hAlt]
    omega
  unfold validateDomain EndsAlt
  constructor
  · intro h
    split at h
    · cases h
    split at h
    · cases h
    split at h
    · cases h
    rename_i hSuffix
    split at h
    · cases h
    · rename_i hPrefix
      exact ⟨not_not.mp hSuffix, hPrefix⟩
  · rintro ⟨hSuffix, hPrefix⟩
    have hNe : c ≠ [] := by
      rintro rfl
      exact absurd (hLong hSuffix) (by decide)
    rw [if_neg hNe, if_neg (Nat.not_lt.mpr (hLong hSuffix)), if_neg (not_not.mpr hSuffix),
      if_neg hPrefix]

theorem altChar_iff {c : Char} :
    (decide ('a' ≤ c) && decide (c ≤ 'z') || decide ('0' ≤ c) && decide (c ≤ '9') ||
      decide (c = '-') || decide (c = '.')) = true ↔ c = '.' ∨ isLabelChar c = true := by
  simp only [isLabelChar, Bool.or_eq_true, Bool.and_eq_true, decide_eq_true_eq]
  tauto

theorem isSpaceRune_altChar {c : Char} (h : c = '.' ∨ isLabelChar c = true) :
    isSpaceRune c = false := by
  rcases h with rfl | hChar
  · decide
  · exact isSpaceRune_labelChar hChar

/-- **What `validAltHostname` accepts**: what ends in `.alt` and has the
characters of names. -/
theorem validAltHostname_iff {h : GoString} : validAltHostname h = true ↔
    EndsAlt h ∧ ∀ c ∈ h, c = '.' ∨ isLabelChar c = true := by
  have hAll : (h.all fun r => decide ('a' ≤ r) && decide (r ≤ 'z') ||
      decide ('0' ≤ r) && decide (r ≤ '9') || decide (r = '-') || decide (r = '.')) = true ↔
      ∀ c ∈ h, c = '.' ∨ isLabelChar c = true := by
    simp only [List.all_eq_true, altChar_iff]
  unfold validAltHostname EndsAlt
  constructor
  · intro hValid
    split at hValid
    · cases hValid
    split at hValid
    · cases hValid
    rename_i hSuffix
    split at hValid
    · cases hValid
    · rename_i hPrefix
      exact ⟨⟨not_not.mp hSuffix, hPrefix⟩, hAll.mp hValid⟩
  · rintro ⟨⟨hSuffix, hPrefix⟩, hChars⟩
    have hTrimmed : h = trimSpace h :=
      (trimSpace_eq_self fun c hc => isSpaceRune_altChar (hChars c hc)).symm
    have hNe : h ≠ [] := by
      rintro rfl
      exact absurd hSuffix (by decide)
    rw [if_neg (not_or.mpr ⟨hNe, not_not.mpr hTrimmed⟩), if_neg (not_not.mpr hSuffix),
      if_neg hPrefix]
    exact hAll.mpr hChars

theorem toLowerRune_altChar {c : Char} (h : c = '.' ∨ isLabelChar c = true) :
    toLowerRune c = c := by
  have hTable : ∀ n < 0x80, ¬ (0x41 ≤ n ∧ n ≤ 0x5A) →
      toLowerRune (Char.ofNat n) = Char.ofNat n := by decide +kernel
  have hRange : c.toNat < 0x80 ∧ ¬ (0x41 ≤ c.toNat ∧ c.toNat ≤ 0x5A) := by
    rcases h with rfl | hChar
    · decide
    rcases isLabelChar_range hChar with rfl | hLetter | hDigit
    · decide
    · omega
    · omega
  have hFixed := hTable c.toNat hRange.1 hRange.2
  rwa [Char.ofNat_toNat] at hFixed

/-- **What the CA accepts is canonical.** -/
theorem canonicalName_altHostname {h : GoString} (hValid : validAltHostname h = true) :
    canonicalName h = h := by
  obtain ⟨⟨⟨front, rfl⟩, -⟩, hChars⟩ := validAltHostname_iff.mp hValid
  have hLower : toLower (front ++ altSuffix) = front ++ altSuffix :=
    (List.map_congr_left fun c hc => toLowerRune_altChar (hChars c hc)).trans (List.map_id _)
  rw [canonicalName, trimSpace_eq_self fun c hc => isSpaceRune_altChar (hChars c hc), hLower,
    trimDot, if_neg]
  simp [altSuffix]

/-! ## Where the validators agree -/

/-- **The validators agree** on a canonical name exactly if it is no name under
`.alt` or one with good labels, and the CA accepts a hostname rightly exactly
if its labels are good. -/
theorem alt_validators_iff (c h : GoString) (hc : canonicalName c = c) :
    ((validateDomain c = none ↔ EndsAlt c ∧ validName c = none) ↔
      (EndsAlt c → c.length ≤ 253 ∧ ∀ label ∈ split c '.', IsLabel label)) ∧
    ((validAltHostname h = true → validName h = none ∧ canonicalName h = h) ↔
      (validAltHostname h = true → h.length ≤ 253 ∧ ∀ label ∈ split h '.',
        label ≠ [] ∧ label.length ≤ 63 ∧ label.head? ≠ some '-' ∧ label.getLast? ≠ some '-')) := by
  have hName : ∀ n, canonicalName n = n →
      (validName n = none ↔ n.length ≤ 253 ∧ ∀ label ∈ split n '.', IsLabel label) := by
    intro n hn
    rw [validName_iff, hn]
    exact ⟨fun h => ⟨h.short, h.split_labels⟩, fun h => .of_split h.1 h.2⟩
  constructor
  · rw [validateDomain_iff, hName c hc]
    tauto
  · refine forall_congr' fun hValid => ?_
    have hFixed := canonicalName_altHostname hValid
    rw [hName h hFixed, and_iff_left hFixed]
    refine and_congr_right fun _ => forall₂_congr fun label hLabel => ?_
    constructor
    · exact fun hGood => ⟨hGood.nonempty, hGood.short, hGood.head, hGood.last⟩
    · rintro ⟨hNe, hShort, hHead, hLast⟩
      refine ⟨hNe, hShort, fun x hx => ?_, hHead, hLast⟩
      -- The CA has looked at the characters, and a label has no dots.
      have hx' : x ∈ h := by
        rw [← join_split h '.']
        exact mem_join_of_mem hLabel hx
      rcases (validAltHostname_iff.mp hValid).2 x hx' with rfl | hChar
      · exact absurd hx (not_mem_of_mem_split hLabel)
      · exact hChar

/-- The theorem on `a-b.alt`. -/
theorem alt_validators_good : validName "a-b.alt".toList = none ∧
    canonicalName "a-b.alt".toList = "a-b.alt".toList := by
  obtain ⟨-, hHost⟩ := alt_validators_iff "a-b.alt".toList "a-b.alt".toList (by decide +kernel)
  exact hHost.mpr (fun _ => by decide +kernel) (by decide +kernel)

/-- **A name that starts with a hyphen**: it is canonical, `/api/check` says that
it is available, the CA would sign for it, and registering it fails because
`Publish` refuses it. -/
theorem hyphen_name_offered :
    canonicalName "-.alt".toList = "-.alt".toList ∧
    validateDomain "-.alt".toList = none ∧ validAltHostname "-.alt".toList = true ∧
    validName "-.alt".toList = some (.labelHyphen "-".toList) ∧
    (handleCheck firstByte siteNode siteEnv ∅ "-.alt".toList).map (fun r => r.2) =
      some ⟨200, "-.alt".toList, true, [], [], none⟩ ∧
    (handleRegister ∅ ⟨"-.alt".toList, (NodeID.fill 5).hex, []⟩ 0).2.1.status = 500 := by
  decide +kernel

end AltNet
