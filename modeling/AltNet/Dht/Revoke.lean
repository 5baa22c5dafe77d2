import AltNet.Dht.Node

/-!
# AltNet — signed revokes (`core/dht/revoke.go`)

A revoke lists the hashes of content that nodes shall delete and block. What
is signed is a normal form of the payload: name and chunk hashes trimmed,
lower-cased and the hashes sorted, all fields joined by line feeds. What is
*applied* is the payload as it came over the wire: every chunk text is handed
to `IDFromHex` as it is, and that accepts either case but no padding.

So the signed bytes do not determine the effect. Padding every hash with a
blank changes neither the signature nor the revoke's identifier, and leaves
nothing to block; a node that has handled such a variant drops the original
as a duplicate.

Main results:

* `sameEffect_iff` — two payloads have the same effect on every node exactly
  when they denote the same identifiers;
* `canonical_lines` — the signed bytes of a payload whose fields are single
  lines determine its normalised fields;
* `revoke_effect_bound_iff` — when payloads with the same signed bytes have
  the same effect;
* `revoke_effect_unbound` — two payloads with the same signed bytes, one of
  which blocks a chunk and the other nothing.
-/

namespace AltNet

open List DHT

/-- `RevokePayload`. -/
structure RevokePayload where
  name : GoString
  chunks : List GoString
  timestamp : Int
  nonce : GoString
  publicKey : GoString
  signature : GoString
  deriving DecidableEq

/-- The first line of the signed bytes. -/
def revokeHeader : GoString := "revoke".toList

/-- `RevokeCanonical`. -/
def revokeCanonical (name : GoString) (chunks : List GoString) (timestamp : Int)
    (nonce : GoString) : GoString :=
  let sorted := sortStrings (chunks.map normalise)
  revokeHeader ++ '\n' :: (normalise name ++ '\n' ::
    (join sorted ['\n'] ++ '\n' :: (formatInt timestamp ++ '\n' :: nonce)))

/-- `MaxRevokeAge` in seconds. -/
def maxRevokeAge : Int := 24 * 60 * 60

/-- `MaxRevokeFutureSkew` in seconds. -/
def maxRevokeFutureSkew : Int := 5 * 60

/-- Clock readings are in nanoseconds. -/
def nanosPerSecond : Nat := 1000000000

namespace RevokePayload

/-- The bytes `handleRevoke` verifies. -/
def canonical (p : RevokePayload) : GoString :=
  revokeCanonical p.name p.chunks p.timestamp p.nonce

/-- The identifiers the loop of `applyRevoke` acts on. -/
def revokedIDs (p : RevokePayload) : List NodeID := p.chunks.filterMap idFromHex

end RevokePayload

/-- `revokeID`. -/
def revokeID (cr : Crypto) (p : RevokePayload) : GoString := (cr.sha256 (utf8 p.canonical)).hex

namespace DHT

/-- The body of the loop of `applyRevoke`: `Blocklist.Add`, then `Delete`. -/
def revokeOne (d : DHT) (id : NodeID) : DHT :=
  { d with
    blocklist := some (insert id.hex (d.blocklist.getD ∅))
    store := d.store.delete id }

/-- `applyRevoke`. -/
def applyRevoke (d : DHT) (p : RevokePayload) : DHT :=
  let d := { d with blocklist := some (d.blocklist.getD ∅) }
  p.chunks.foldl (fun d hexHash =>
    match idFromHex hexHash with
    | none => d
    | some id => d.revokeOne id) d

/-- `TrustedRevokers.Contains`. -/
def trusts (d : DHT) (hexKey : GoString) : Bool :=
  match d.trustedRevokers with
  | none => false
  | some keys => decide (normalise hexKey ∈ keys)

/-- The deduplication of `handleRevoke`: `none` when the identifier is there
already, else the map with it, pruned when it has grown large. The clock is
read again for the entry and for the cutoff. -/
def markSeen (seen : GoMap GoString Time) (rid : GoString) (seenAt pruneAt : Time) :
    Option (GoMap GoString Time) :=
  if (seen.lookup rid).isSome then none
  else
    let seen := seen.insert rid seenAt
    if 1024 < seen.keys.card then
      let age := 2 * maxRevokeAge.toNat * nanosPerSecond
      let stale := seen.keys.filter fun k => (seen.lookup k).getD 0 + age < pruneAt
      some ((sortedStrings stale).foldl (fun m k => m.erase k) seen)
    else some seen

/-- `handleRevoke`; the result says whether the message is broadcast on. -/
def handleRevoke (cr : Crypto) (d : DHT) (rp : RevokePayload) (now seenAt pruneAt : Time) :
    DHT × Bool :=
  if d.trusts rp.publicKey = false then (d, false)
  else if rp.timestamp < (now / nanosPerSecond : Nat) - maxRevokeAge then (d, false)
  else if rp.timestamp > (now / nanosPerSecond : Nat) + maxRevokeFutureSkew then (d, false)
  else
    match publicKeyFromHex rp.publicKey with
    | none => (d, false)
    | some pub =>
      if cr.verify pub (utf8 rp.canonical) rp.signature = false then (d, false)
      else
        match markSeen d.revokeSeen (revokeID cr rp) seenAt pruneAt with
        | none => (d, false)
        | some revokeSeen => ({ d with revokeSeen }.applyRevoke rp, true)

end DHT

/-- Two payloads do the same to every node: the same keys are blocked and the
same entries are left. -/
def SameEffect (p q : RevokePayload) : Prop :=
  ∀ d : DHT, (d.applyRevoke p).blocklist = (d.applyRevoke q).blocklist ∧
    (d.applyRevoke p).store.data = (d.applyRevoke q).store.data

namespace RevokePayload

/-- Some chunk text denotes `id` and has no white space around it. -/
def NamesUnpadded (p : RevokePayload) (id : NodeID) : Prop :=
  ∃ c ∈ p.chunks, trimSpace c = c ∧ idFromHex (normalise c) = some id

/-- Every field is a single line. -/
structure SingleLines (p : RevokePayload) : Prop where
  name : '\n' ∉ normalise p.name
  chunks : ∀ c ∈ p.chunks, '\n' ∉ normalise c
  nonce : '\n' ∉ p.nonce

/-- Every field is a single line and no chunk is padded. -/
structure Strict (p : RevokePayload) : Prop extends SingleLines p where
  unpadded : ∀ c ∈ p.chunks, trimSpace c = c

/-- The same payload with a blank before every chunk. -/
def padded (p : RevokePayload) : RevokePayload := { p with chunks := p.chunks.map (' ' :: ·) }

end RevokePayload

/-! ## What a revoke does -/

namespace DHT

variable {d : DHT} {p : RevokePayload} {id : NodeID}

/-- The loop runs over the identifiers that parse. -/
theorem applyRevoke_eq (d : DHT) (p : RevokePayload) :
    d.applyRevoke p =
      p.revokedIDs.foldl revokeOne { d with blocklist := some (d.blocklist.getD ∅) } := by
  rw [applyRevoke, RevokePayload.revokedIDs]
  generalize ({ d with blocklist := some (d.blocklist.getD ∅) } : DHT) = d
  induction p.chunks generalizing d with
  | nil => rfl
  | cons c rest ih =>
    rw [foldl_cons, ih]
    cases h : idFromHex c with
    | none => simp [h]
    | some id => simp [h]

theorem foldl_revokeOne_blocklist (ids : List NodeID) (d : DHT) (k : GoString) :
    k ∈ (ids.foldl revokeOne d).blocklist.getD ∅ ↔
      k ∈ d.blocklist.getD ∅ ∨ ∃ id ∈ ids, id.hex = k := by
  induction ids generalizing d with
  | nil => simp
  | cons id rest ih =>
    rw [foldl_cons, ih]
    simp only [revokeOne, Option.getD_some, Finset.mem_insert, mem_cons]
    constructor
    · rintro ((rfl | h) | ⟨x, hx, rfl⟩)
      · exact .inr ⟨id, .inl rfl, rfl⟩
      · exact .inl h
      · exact .inr ⟨x, .inr hx, rfl⟩
    · rintro (h | ⟨x, rfl | hx, rfl⟩)
      · exact .inl (.inr h)
      · exact .inl (.inl rfl)
      · exact .inr ⟨x, hx, rfl⟩

theorem foldl_revokeOne_isSome (ids : List NodeID) {d : DHT} (h : d.blocklist.isSome) :
    (ids.foldl revokeOne d).blocklist.isSome := by
  induction ids generalizing d with
  | nil => exact h
  | cons id rest ih => exact ih rfl

theorem foldl_revokeOne_lookup (ids : List NodeID) (d : DHT) (k : GoString) :
    (ids.foldl revokeOne d).store.data.lookup k =
      if ∃ id ∈ ids, id.hex = k then none else d.store.data.lookup k := by
  induction ids generalizing d with
  | nil => simp
  | cons id rest ih =>
    rw [foldl_cons, ih]
    have hDelete : (d.revokeOne id).store.data = d.store.data.erase id.hex :=
      LocalStore.dropEntry_data
    rw [hDelete]
    by_cases hk : id.hex = k
    · subst hk
      simp [Finmap.lookup_erase]
    · simp only [mem_cons, exists_eq_or_imp, hk, false_or,
        Finmap.lookup_erase_ne (Ne.symm hk)]

/-- **The blocklist after a revoke**: what was blocked before and what the
payload denotes. -/
theorem applyRevoke_blocklist (d : DHT) (p : RevokePayload) :
    ∃ hashes, (d.applyRevoke p).blocklist = some hashes ∧
      ∀ k, k ∈ hashes ↔ k ∈ d.blocklist.getD ∅ ∨ ∃ id ∈ p.revokedIDs, id.hex = k := by
  rw [applyRevoke_eq]
  have hSome := foldl_revokeOne_isSome p.revokedIDs
    (d := { d with blocklist := some (d.blocklist.getD ∅) }) rfl
  obtain ⟨hashes, hEq⟩ := Option.isSome_iff_exists.mp hSome
  refine ⟨hashes, hEq, fun k => ?_⟩
  have hMem := foldl_revokeOne_blocklist p.revokedIDs
    { d with blocklist := some (d.blocklist.getD ∅) } k
  rw [hEq] at hMem
  exact hMem

/-- **The store after a revoke**: the entries the payload denotes are gone. -/
theorem applyRevoke_lookup (d : DHT) (p : RevokePayload) (k : GoString) :
    (d.applyRevoke p).store.data.lookup k =
      if ∃ id ∈ p.revokedIDs, id.hex = k then none else d.store.data.lookup k := by
  rw [applyRevoke_eq, foldl_revokeOne_lookup]

theorem applyRevoke_isBlocked (hid : id ∈ p.revokedIDs) :
    (d.applyRevoke p).isBlocked id = true := by
  obtain ⟨hashes, hEq, hMem⟩ := d.applyRevoke_blocklist p
  rw [isBlocked, hEq]
  exact decide_eq_true ((hMem id.hex).mpr (.inr ⟨id, hid, rfl⟩))

end DHT

/-! ## Duplicates -/

theorem foldl_erase_lookup {k : GoString} (stale : List GoString) (h : k ∉ stale)
    (m : GoMap GoString Time) :
    (stale.foldl (fun m k => m.erase k) m).lookup k = m.lookup k := by
  induction stale generalizing m with
  | nil => rfl
  | cons x rest ih =>
    rw [mem_cons, not_or] at h
    rw [foldl_cons, ih h.2, Finmap.lookup_erase_ne h.1]

variable {cr : Crypto} {pruneAt seenAt : Time} {rid : GoString}

/-- An identifier is entered only if it is not there. -/
theorem markSeen_new {seen seen' : GoMap GoString Time}
    (h : markSeen seen rid seenAt pruneAt = some seen') : seen.lookup rid = none := by
  unfold markSeen at h
  split at h
  · cases h
  · rename_i hNew
    rw [Bool.not_eq_true, Option.isSome_eq_false_iff, Option.isNone_iff_eq_none] at hNew
    exact hNew

/-- The pruning removes only entries older than twice the maximal age. -/
theorem markSeen_keeps {seen seen' : GoMap GoString Time} {k : GoString} {t : Time}
    (h : markSeen seen rid seenAt pruneAt = some seen')
    (ht : (seen.insert rid seenAt).lookup k = some t) :
    seen'.lookup k = some t ∨ t + 2 * maxRevokeAge.toNat * nanosPerSecond < pruneAt := by
  unfold markSeen at h
  split at h
  · cases h
  dsimp only at h
  split at h
  · cases h
    by_cases hStale : k ∈ sortedStrings ((seen.insert rid seenAt).keys.filter fun k =>
        ((seen.insert rid seenAt).lookup k).getD 0 +
          2 * maxRevokeAge.toNat * nanosPerSecond < pruneAt)
    · have hOld := (Finset.mem_filter.mp (mem_sortedStrings.mp hStale)).2
      rw [ht, Option.getD_some] at hOld
      exact .inr hOld
    · left
      rw [foldl_erase_lookup _ hStale, ht]
  · cases h
    exact .inl ht

/-- Only the fields that a revoke touches change: the blocklist and the store. -/
theorem DHT.applyRevoke_keeps {α : Type} {f : DHT → α}
    (hBlocklist : ∀ d blocklist, f { d with blocklist } = f d)
    (hOne : ∀ d id, f (revokeOne d id) = f d) (d : DHT) (p : RevokePayload) :
    f (d.applyRevoke p) = f d := by
  have hFold : ∀ (ids : List NodeID) (d : DHT), f (ids.foldl revokeOne d) = f d := by
    intro ids
    induction ids with
    | nil => exact fun _ => rfl
    | cons id rest ih => exact fun d => (ih (d.revokeOne id)).trans (hOne d id)
  rw [applyRevoke_eq, hFold, hBlocklist]

theorem DHT.applyRevoke_revokeSeen (d : DHT) (p : RevokePayload) :
    (d.applyRevoke p).revokeSeen = d.revokeSeen :=
  applyRevoke_keeps (fun _ _ => rfl) (fun _ _ => rfl) d p

theorem DHT.applyRevoke_trustedRevokers (d : DHT) (p : RevokePayload) :
    (d.applyRevoke p).trustedRevokers = d.trustedRevokers :=
  applyRevoke_keeps (fun _ _ => rfl) (fun _ _ => rfl) d p

variable {p q : RevokePayload}

/-- The timestamp is not too old and not too far ahead of the clock. -/
def RevokePayload.InWindow (p : RevokePayload) (now : Time) : Prop :=
  ((now / nanosPerSecond : Nat) : Int) - maxRevokeAge ≤ p.timestamp ∧
    p.timestamp ≤ ((now / nanosPerSecond : Nat) : Int) + maxRevokeFutureSkew

/-- **A revoke is accepted** exactly if it is trusted, in time, signed and new,
and it is applied then. -/
theorem handleRevoke_accepted_iff {d d' : DHT} {now : Time} :
    d.handleRevoke cr q now seenAt pruneAt = (d', true) ↔
      d.trusts q.publicKey = true ∧ q.InWindow now ∧
      (∃ pub, publicKeyFromHex q.publicKey = some pub ∧
        cr.verify pub (utf8 q.canonical) q.signature = true) ∧
      ∃ seen, markSeen d.revokeSeen (revokeID cr q) seenAt pruneAt = some seen ∧
        d' = { d with revokeSeen := seen }.applyRevoke q := by
  unfold handleRevoke
  constructor
  · intro h
    split at h
    · simp at h
    rename_i hTrust
    split at h
    · simp at h
    rename_i hOld
    split at h
    · simp at h
    rename_i hAhead
    split at h
    · simp at h
    rename_i pub hPub
    split at h
    · simp at h
    rename_i hSig
    split at h
    · simp at h
    rename_i seen hMark
    rw [Bool.not_eq_false] at hTrust hSig
    exact ⟨hTrust, ⟨not_lt.mp hOld, not_lt.mp hAhead⟩, ⟨pub, hPub, hSig⟩, seen, hMark,
      (Prod.mk.inj h).1.symm⟩
  · rintro ⟨hTrust, ⟨hOld, hAhead⟩, ⟨pub, hPub, hSig⟩, seen, hMark, rfl⟩
    rw [if_neg (by simp [hTrust]), if_neg (not_lt.mpr hOld), if_neg (not_lt.mpr hAhead), hPub]
    dsimp only
    rw [if_neg (by simp [hSig]), hMark]

/-- Two payloads have the same effect exactly when they denote the same
identifiers. -/
theorem sameEffect_iff :
    SameEffect p q ↔ ∀ id, id ∈ p.revokedIDs ↔ id ∈ q.revokedIDs := by
  have hHex : ∀ (ids : List NodeID) (id : NodeID), (∃ x ∈ ids, x.hex = id.hex) ↔ id ∈ ids := by
    intro ids id
    constructor
    · rintro ⟨x, hx, hEq⟩
      rwa [← NodeID.hex_injective hEq]
    · exact fun h => ⟨id, h, rfl⟩
  constructor
  · intro h id
    -- a fresh node blocks nothing but what the revoke denotes
    obtain ⟨hashes, hEq, hMem⟩ := (new id 0 0).applyRevoke_blocklist p
    obtain ⟨hashes', hEq', hMem'⟩ := (new id 0 0).applyRevoke_blocklist q
    have hSame : hashes = hashes' := by
      have := (h (new id 0 0)).1
      rw [hEq, hEq'] at this
      exact Option.some.inj this
    have hp := hMem id.hex
    have hq := hMem' id.hex
    rw [hHex] at hp hq
    simp only [new, Option.getD_none, Finset.notMem_empty, false_or] at hp hq
    rw [← hp, ← hq, hSame]
  · intro h d
    have hAny : ∀ k, (∃ id ∈ p.revokedIDs, id.hex = k) ↔ ∃ id ∈ q.revokedIDs, id.hex = k := by
      intro k
      simp only [h]
    constructor
    · obtain ⟨hashes, hEq, hMem⟩ := d.applyRevoke_blocklist p
      obtain ⟨hashes', hEq', hMem'⟩ := d.applyRevoke_blocklist q
      rw [hEq, hEq']
      congr 1
      ext k
      rw [hMem, hMem', hAny]
    · apply Finmap.ext_lookup
      intro k
      rw [applyRevoke_lookup, applyRevoke_lookup]
      simp only [hAny]

/-! ## What is signed -/

namespace RevokePayload

theorem mem_revokedIDs {id : NodeID} : id ∈ p.revokedIDs ↔ p.NamesUnpadded id := by
  rw [revokedIDs, mem_filterMap, NamesUnpadded]
  exact exists_congr fun c => and_congr_right fun _ => idFromHex_eq_some_iff

/-- The chunk lines of the signed bytes; an empty list still takes a line. -/
def chunkLines (p : RevokePayload) : List GoString :=
  if p.chunks = [] then [[]] else sortStrings (p.chunks.map normalise)

theorem chunkLines_ne_nil (p : RevokePayload) : p.chunkLines ≠ [] := by
  rw [chunkLines]
  split
  · simp
  · rename_i h
    rw [ne_eq, sortStrings_eq_nil, map_eq_nil_iff]
    exact h

theorem join_chunkLines (p : RevokePayload) :
    join (sortStrings (p.chunks.map normalise)) ['\n'] = join p.chunkLines ['\n'] := by
  rw [chunkLines]
  split
  · rename_i h
    rw [h]
    rfl
  · rfl

theorem mem_chunkLines {s : GoString} (h : s ∈ p.chunkLines) :
    s = [] ∨ ∃ c ∈ p.chunks, normalise c = s := by
  rw [chunkLines] at h
  split at h
  · exact .inl (by simpa using h)
  · rw [mem_sortStrings, mem_map] at h
    exact .inr h

/-- The signed bytes are the fields joined by line feeds. -/
theorem canonical_eq_join (p : RevokePayload) :
    p.canonical = join (revokeHeader :: normalise p.name ::
      (p.chunkLines ++ [formatInt p.timestamp, p.nonce])) ['\n'] := by
  have hTail : ∀ lines : List GoString, lines ≠ [] →
      join (lines ++ [formatInt p.timestamp, p.nonce]) ['\n'] =
        join lines ['\n'] ++ '\n' :: (formatInt p.timestamp ++ '\n' :: p.nonce) := by
    intro lines hne
    induction lines with
    | nil => exact absurd rfl hne
    | cons a rest ih =>
      cases rest with
      | nil => simp [join, intercalate]
      | cons b rest =>
        rw [cons_append, cons_append, join_cons_cons, ← cons_append,
          ih (by simp), join_cons_cons, append_assoc, cons_append]
  rw [canonical, revokeCanonical, join_chunkLines]
  obtain ⟨first, rest, hLines⟩ := exists_cons_of_ne_nil p.chunkLines_ne_nil
  have hJoin := hTail p.chunkLines p.chunkLines_ne_nil
  rw [hLines, cons_append] at hJoin ⊢
  rw [join_cons_cons, join_cons_cons, hJoin]

theorem SingleLines.no_newline (h : p.SingleLines) :
    ∀ s ∈ revokeHeader :: normalise p.name ::
      (p.chunkLines ++ [formatInt p.timestamp, p.nonce]), '\n' ∉ s := by
  intro s hs
  simp only [mem_cons, mem_append, not_mem_nil, or_false] at hs
  rcases hs with rfl | rfl | hs | rfl | rfl
  · decide
  · exact h.name
  · rcases mem_chunkLines hs with rfl | ⟨c, hc, rfl⟩
    · simp
    · exact h.chunks c hc
  · exact formatInt_no_newline _
  · exact h.nonce

/-- **Signed bytes of single-line payloads** can be taken apart again. -/
theorem canonical_lines (hp : p.SingleLines) (hq : q.SingleLines)
    (hEq : p.canonical = q.canonical) :
    normalise p.name = normalise q.name ∧ p.chunkLines = q.chunkLines ∧
      formatInt p.timestamp = formatInt q.timestamp ∧ p.nonce = q.nonce := by
  rw [canonical_eq_join, canonical_eq_join] at hEq
  have hLines := congrArg (split · '\n') hEq
  simp only [split_join (cons_ne_nil _ _) hp.no_newline,
    split_join (cons_ne_nil _ _) hq.no_newline] at hLines
  simp only [cons.injEq, true_and] at hLines
  obtain ⟨hName, hRest⟩ := hLines
  obtain ⟨hChunks, hLast⟩ := append_inj' hRest rfl
  simp only [cons.injEq, and_true] at hLast
  exact ⟨hName, hChunks, hLast⟩

/-- For an unpadded payload, what is denoted can be read off the signed
lines. -/
theorem Strict.mem_revokedIDs_iff (h : p.Strict) {id : NodeID} :
    id ∈ p.revokedIDs ↔ ∃ s ∈ p.chunkLines, idFromHex s = some id := by
  rw [mem_revokedIDs, NamesUnpadded]
  constructor
  · rintro ⟨c, hc, -, hid⟩
    refine ⟨normalise c, ?_, hid⟩
    rw [chunkLines, if_neg (ne_nil_of_mem hc), mem_sortStrings, mem_map]
    exact ⟨c, hc, rfl⟩
  · rintro ⟨s, hs, hid⟩
    rcases mem_chunkLines hs with rfl | ⟨c, hc, rfl⟩
    · -- the line of an empty list denotes nothing
      cases hid
    · exact ⟨c, hc, h.unpadded c hc, hid⟩

/-! ## Padding -/

theorem padded_canonical (p : RevokePayload) : p.padded.canonical = p.canonical := by
  have hNorm : ∀ c : GoString, normalise (' ' :: c) = normalise c :=
    fun c => normalise_space_cons (by decide) c
  simp only [canonical, padded, revokeCanonical, map_map, Function.comp_def, hNorm]

theorem padded_revokedIDs (p : RevokePayload) : p.padded.revokedIDs = [] := by
  rw [revokedIDs, filterMap_eq_nil_iff]
  intro c hc
  obtain ⟨c', -, rfl⟩ := mem_map.mp hc
  exact idFromHex_space_cons (by decide) c'

end RevokePayload

open RevokePayload

/-- **When the effect of a revoke is bound to its signed bytes.** Of two
payloads with the same signed bytes the effects agree exactly when their
unpadded chunks denote the same identifiers. They do when both payloads are
strict. Among *all* payloads with the given signed bytes they agree only if
none of them has any effect. -/
theorem revoke_effect_bound_iff (p : RevokePayload) :
    (∀ q : RevokePayload, p.canonical = q.canonical →
      (SameEffect p q ↔ ∀ id, p.NamesUnpadded id ↔ q.NamesUnpadded id)) ∧
    (∀ q : RevokePayload, p.canonical = q.canonical → p.Strict → q.Strict →
      SameEffect p q) ∧
    ((∀ q : RevokePayload, q.canonical = p.canonical → SameEffect p q) ↔
      ∀ q : RevokePayload, q.canonical = p.canonical → ∀ id, ¬ q.NamesUnpadded id) := by
  refine ⟨fun q _ => ?_, fun q hEq hp hq => ?_, ⟨fun h q hq => ?_, fun h q hq => ?_⟩⟩
  · simp only [sameEffect_iff, mem_revokedIDs]
  · rw [sameEffect_iff]
    intro id
    rw [hp.mem_revokedIDs_iff, hq.mem_revokedIDs_iff,
      (canonical_lines hp.toSingleLines hq.toSingleLines hEq).2.1]
  · -- the padded variant of `p` does nothing, so `p` does nothing, so `q` does
    intro id hid
    have hPad := sameEffect_iff.mp (h p.padded p.padded_canonical) id
    have hSame := sameEffect_iff.mp (h q hq) id
    rw [p.padded_revokedIDs] at hPad
    rw [mem_revokedIDs.symm, ← hSame, hPad] at hid
    exact absurd hid not_mem_nil
  · rw [sameEffect_iff]
    intro id
    rw [mem_revokedIDs, mem_revokedIDs]
    exact iff_of_false (h p rfl id) (h q hq id)

/-- A revoke of one chunk, its hash in lower case. -/
def sampleRevoke : RevokePayload where
  name := "panmox.alt".toList
  chunks := [(NodeID.fill 0xab).hex]
  timestamp := 1779392691
  nonce := "1f3c".toList
  publicKey := []
  signature := []

/-- The signed bytes do not bind the effect: with a blank before the hash they
are the same, and the chunk is blocked by one payload and not by the other. -/
theorem revoke_effect_unbound :
    sampleRevoke.canonical = sampleRevoke.padded.canonical ∧
      ((new (NodeID.fill 0) 0 0).applyRevoke sampleRevoke).isBlocked (NodeID.fill 0xab) = true ∧
      ((new (NodeID.fill 0) 0 0).applyRevoke sampleRevoke.padded).isBlocked
        (NodeID.fill 0xab) = false ∧
      ¬ SameEffect sampleRevoke sampleRevoke.padded := by
  refine ⟨sampleRevoke.padded_canonical.symm, by decide +kernel, by decide +kernel, fun h => ?_⟩
  have hSame := sameEffect_iff.mp h (NodeID.fill 0xab)
  rw [sampleRevoke.padded_revokedIDs] at hSame
  exact absurd (hSame.mp (by decide +kernel)) not_mem_nil

/-- The sample with its hash in upper case is strict too and has the same
effect. -/
theorem revoke_effect_upper_case :
    SameEffect sampleRevoke
      { sampleRevoke with chunks := [(replicate 32 ['A', 'B']).flatten] } := by
  refine (revoke_effect_bound_iff _).2.1 _ (by decide +kernel) ⟨⟨?_, ?_, ?_⟩, ?_⟩ ⟨⟨?_, ?_, ?_⟩, ?_⟩
  all_goals decide +kernel

end AltNet
