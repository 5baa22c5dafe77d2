import AltNet.Dht.Payload

/-!
# AltNet — a revoke from its signer to a node (`core/dht/revoke.go`)

`SignRevoke` signs the normal form of its arguments and puts that normal form
into the payload. The receiver normalises once more what has arrived, checks
the signature over the result, and then parses the chunks as they are. For a
payload that comes from `SignRevoke` the three agree: a normal form is its own
normal form, sorting forgets the order, and a normal form is never padded.

On its way the payload is JSON. A time of signing is an `int64` in Go, and then
what `json.Marshal` writes is what `json.Unmarshal` reads (`goPayloads_revoke`).

Main results:

* `Carried.canonical` — on its way a payload keeps its signed bytes;
* `revoke_reaches` — a revoke is accepted by every node that trusts its
  signer, and blocks and deletes there all that it was signed for.
-/

namespace AltNet

inductive SignError where
  | nilIdentity
  | nameRequired
  | nonce
  deriving DecidableEq

/-- The payload that `SignRevoke` returns. -/
def signedRevoke {cr : Crypto} (id : Identity cr) (name : GoString) (chunks : List GoString)
    (nonceBytes : Bytes) (now : Time) : RevokePayload :=
  let nonce := hexEncode nonceBytes
  let ts : Int := (now / nanosPerSecond : Nat)
  { name := normalise name
    chunks := sortStrings (chunks.map normalise)
    timestamp := ts
    nonce := nonce
    publicKey := publicKeyToHex id.publicKey
    signature := id.sign (utf8 (revokeCanonical name chunks ts nonce)) }

/-- `SignRevoke`; the random bytes may fail to come. -/
def signRevoke {cr : Crypto} (id : Option (Identity cr)) (name : GoString)
    (chunks : List GoString) (nonceBytes : Option Bytes) (now : Time) :
    Except SignError RevokePayload :=
  match id with
  | none => .error .nilIdentity
  | some id =>
    if trimSpace name = [] then .error .nameRequired
    else
      match nonceBytes with
      | none => .error .nonce
      | some nonceBytes => .ok (signedRevoke id name chunks nonceBytes now)

/-- `q` is `p` after a journey: written as JSON and read again, and with the
chunks in any order. -/
def Carried (p q : RevokePayload) : Prop :=
  ∃ p' chunks, goPayloads.revoke (revokeMessage p).payload = some p' ∧ chunks.Perm p'.chunks ∧
    q = { p' with chunks }

variable {cr : Crypto}

theorem Carried.perm {p q : RevokePayload} (hTime : IsInt64 p.timestamp) (h : Carried p q) :
    ∃ chunks, chunks.Perm p.chunks ∧ q = { p with chunks } := by
  obtain ⟨p', chunks, hRead, hPerm, rfl⟩ := h
  rw [goPayloads_revoke hTime] at hRead
  cases hRead
  exact ⟨chunks, hPerm, rfl⟩

/-- **The signed bytes survive.** -/
theorem Carried.canonical {p q : RevokePayload} (hTime : IsInt64 p.timestamp) (h : Carried p q) :
    q.canonical = p.canonical := by
  obtain ⟨chunks, hPerm, rfl⟩ := h.perm hTime
  unfold RevokePayload.canonical revokeCanonical
  dsimp only
  rw [sortStrings_perm (hPerm.map normalise)]

/-- To normalise twice changes nothing. -/
theorem revokeCanonical_normalised (name : GoString) (chunks : List GoString) (ts : Int)
    (nonce : GoString) :
    revokeCanonical (normalise name) (sortStrings (chunks.map normalise)) ts nonce =
      revokeCanonical name chunks ts nonce := by
  have hAgain : (chunks.map normalise).map normalise = chunks.map normalise := by
    rw [List.map_map]
    exact List.map_congr_left fun c _ => normalise_idem c
  have hSorted : sortStrings ((sortStrings (chunks.map normalise)).map normalise) =
      sortStrings (chunks.map normalise) := by
    conv_rhs => rw [← hAgain]
    exact sortStrings_perm ((perm_sortStrings _).map normalise)
  unfold revokeCanonical
  dsimp only
  rw [normalise_idem, hSorted]

theorem signedRevoke_canonical (id : Identity cr) (name : GoString) (chunks : List GoString)
    (nonceBytes : Bytes) (now : Time) :
    (signedRevoke id name chunks nonceBytes now).canonical =
      revokeCanonical name chunks ((now / nanosPerSecond : Nat) : Int) (hexEncode nonceBytes) :=
  revokeCanonical_normalised _ _ _ _

/-- What is signed is what the receiver computes. -/
theorem signedRevoke_verifies (id : Identity cr) (name : GoString) (chunks : List GoString)
    (nonceBytes : Bytes) (now : Time) :
    cr.verify id.publicKey (utf8 (signedRevoke id name chunks nonceBytes now).canonical)
      (signedRevoke id name chunks nonceBytes now).signature = true := by
  rw [signedRevoke_canonical]
  exact id.verify_sign _

/-- A payload in normal form names all that its chunks denote, also in another
order. -/
theorem Carried.revokedIDs {p q : RevokePayload} (hTime : IsInt64 p.timestamp) (h : Carried p q)
    {chunks : List GoString} (hChunks : p.chunks = sortStrings (chunks.map normalise))
    {c : GoString} (hc : c ∈ chunks) {key : NodeID}
    (hKey : idFromHex (normalise c) = some key) : key ∈ q.revokedIDs := by
  obtain ⟨arrived, hPerm, rfl⟩ := h.perm hTime
  have hMem : normalise c ∈ arrived := by
    rw [hPerm.mem_iff, hChunks, mem_sortStrings]
    exact List.mem_map_of_mem hc
  exact List.mem_filterMap.mpr ⟨normalise c, hMem, hKey⟩

/-- A new identifier is entered. -/
theorem exists_markSeen {seen : GoMap GoString Time} {rid : GoString}
    (h : seen.lookup rid = none) (seenAt pruneAt : Time) :
    ∃ seen', DHT.markSeen seen rid seenAt pruneAt = some seen' := by
  unfold DHT.markSeen
  rw [h, if_neg (by decide)]
  dsimp only
  split
  · exact ⟨_, rfl⟩
  · exact ⟨_, rfl⟩

/-- **A revoke reaches everything.** For every identity, name that is not
blank, list of chunk texts and time: `SignRevoke` makes a payload, and every
node that trusts the key, has not seen the revoke and has its clock in the
window accepts it, however it has travelled. From then on, all identifiers
that the chunks denote are blocked there and gone from the store. -/
theorem revoke_reaches (cr : Crypto) (id : Identity cr) (name : GoString)
    (hName : trimSpace name ≠ []) (chunks : List GoString) (nonceBytes : Bytes)
    (signedAt : Time) (hTime : IsInt64 (signedAt / nanosPerSecond : Nat)) :
    ∃ p, signRevoke (some id) name chunks (some nonceBytes) signedAt = .ok p ∧
      p.timestamp = (signedAt / nanosPerSecond : Nat) ∧
      ∀ q, Carried p q → ∀ (d : DHT) (now seenAt pruneAt : Time),
        d.trusts (publicKeyToHex id.publicKey) = true →
        d.revokeSeen.lookup (revokeID cr p) = none → p.InWindow now →
        ∃ d', d.handleRevoke cr q now seenAt pruneAt = (d', true) ∧
          ∀ c ∈ chunks, ∀ key, idFromHex (normalise c) = some key →
            d'.isBlocked key = true ∧ d'.store.data.lookup key.hex = none := by
  refine ⟨signedRevoke id name chunks nonceBytes signedAt, if_neg hName, rfl, ?_⟩
  intro q hCarried d now seenAt pruneAt hTrust hNew hWindow
  have hSame := hCarried.canonical hTime
  have hRid : revokeID cr q = revokeID cr (signedRevoke id name chunks nonceBytes signedAt) := by
    unfold revokeID
    rw [hSame]
  have hVerifies : cr.verify id.publicKey (utf8 q.canonical) q.signature = true := by
    obtain ⟨_, -, hq⟩ := hCarried.perm hTime
    rw [hSame, hq]
    exact signedRevoke_verifies id name chunks nonceBytes signedAt
  have hKept : q.publicKey = publicKeyToHex id.publicKey ∧ q.InWindow now := by
    obtain ⟨_, -, rfl⟩ := hCarried.perm hTime
    exact ⟨rfl, hWindow⟩
  obtain ⟨seen, hSeen⟩ := exists_markSeen (hRid ▸ hNew) seenAt pruneAt
  refine ⟨_, handleRevoke_accepted_iff.mpr ⟨?_, hKept.2, ⟨id.publicKey, ?_, hVerifies⟩, seen, hSeen,
    rfl⟩, ?_⟩
  · rw [hKept.1]
    exact hTrust
  · rw [hKept.1]
    exact id.publicKeyFromHex_publicKey
  · intro c hc key hKey
    have hMem : key ∈ q.revokedIDs := hCarried.revokedIDs hTime rfl hc hKey
    refine ⟨DHT.applyRevoke_isBlocked hMem, ?_⟩
    rw [DHT.applyRevoke_lookup, if_pos ⟨key, hMem, rfl⟩]

/-- A node that trusts `sampleIdentity`. -/
def trustingNode : DHT :=
  { DHT.new (NodeID.fill 0) 0 0 with
    trustedRevokers := some {publicKeyToHex sampleIdentity.publicKey} }

/-- A hash in upper case with blanks around it, and something that is none. -/
def sampleChunks : List GoString :=
  [' ' :: (List.replicate 32 ['A', 'B']).flatten ++ [' '], "x".toList]

theorem revoke_reaches_padded :
    ∃ p q d', signRevoke (some sampleIdentity) "panmox.alt".toList sampleChunks (some [])
        1700000000000000000 = .ok p ∧
      Carried p q ∧ q.chunks = p.chunks.reverse ∧
      trustingNode.handleRevoke firstByte q 1700000001000000000 0 0 = (d', true) ∧
      d'.isBlocked (NodeID.fill 0xab) = true := by
  obtain ⟨p, hSign, hStamp, hReach⟩ := revoke_reaches firstByte sampleIdentity
    "panmox.alt".toList (by decide +kernel) sampleChunks [] 1700000000000000000 (by decide)
  have hRead : goPayloads.revoke (revokeMessage p).payload = some p := by
    refine goPayloads_revoke ?_
    rw [hStamp]
    decide
  have hCarried : Carried p { p with chunks := p.chunks.reverse } :=
    ⟨p, p.chunks.reverse, hRead, List.reverse_perm _, rfl⟩
  have hWindow : p.InWindow 1700000001000000000 := by
    unfold RevokePayload.InWindow
    rw [hStamp]
    decide
  obtain ⟨d', hAccepted, hGone⟩ := hReach _ hCarried trustingNode 1700000001000000000 0 0
    (by decide +kernel) (Finmap.lookup_empty _) hWindow
  exact ⟨p, _, d', hSign, hCarried, rfl, hAccepted,
    (hGone _ List.mem_cons_self (NodeID.fill 0xab) (by decide +kernel)).1⟩

end AltNet
