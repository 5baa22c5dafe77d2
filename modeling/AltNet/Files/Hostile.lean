import AltNet.Files.RoundTrip

/-!
# AltNet — manifests from strangers (`apps/files/chunk.go`)

A manifest comes from whoever chose the key under which it is stored. Its size is
any 64-bit number and its chunks are any texts, and `FetchBytes` allocates the
size before it has looked at the chunks. A size that is negative, or larger than
what the machine can allocate, ends the program: `make` panics where the number
is no capacity at all, and the runtime gives up where there is no such memory. The
chunks may be longer than the size; then `append` allocates for them, and the size
is compared only when all of them are there.

All else ends in an error or in the file. The chunks are verified by the DHT, so
the file is made of the chunks that the manifest names.

Main results:

* `DHT.getter_verified` — what `Get` returns has the hash that was asked for;
* `fetchChunks_spec` — the loop over the chunks ends in an error or in the file;
* `fetchChunksWithin_spec` — the loop with its allocations is the loop without
  them, or fails at one of them;
* `fetchBytes_safe_iff` — the sizes and the chunks for which `FetchBytes` is safe.
-/

namespace AltNet

open List

variable {σ : Type}

/-! ## Memory and panics -/

/-- The outcomes that are panics: those of `make` and `append`, and that of `hexKey[:8]`
in the text of an error for a key that is too short. -/
def FileError.isPanic : FileError → Bool
  | .makeslice | .growslice => true
  | .fetchChunk _ hexKey _ => decide (hexKey.length < 8)
  | _ => false

section Memory

/-! `grow cap n` is the capacity that `append` gives to a slice of capacity `cap` which is
to hold `n` bytes, and `limit` the largest capacity that the machine can allocate. -/

variable (grow : Nat → Nat → Nat) (limit : Int) (get : Getter σ)

/-- The loop of `FetchBytes`, from its `i`-th turn on, into a slice of capacity `cap`. -/
def fetchChunksWithin :
    Nat → List GoString → Bytes → (cap : Nat) → σ → σ × Except FileError Bytes
  | _, [], out, _, s => (s, .ok out)
  | i, hexKey :: rest, out, cap, s =>
    match idFromHex hexKey with
    | none => (s, .error (.badKey i hexKey))
    | some key =>
      match get s key with
      | (s, .error e) => (s, .error (.fetchChunk i hexKey e))
      | (s, .ok chunk) =>
        let n := out.length + chunk.length
        if n ≤ cap then fetchChunksWithin (i + 1) rest (out ++ chunk) cap s
        else if limit < grow cap n then (s, .error .growslice)
        else fetchChunksWithin (i + 1) rest (out ++ chunk) (grow cap n) s

/-- `FetchBytes` from the line on that allocates the result. -/
def FileManifest.fetchWithin (m : FileManifest) (s : σ) : σ × Except FileError Bytes :=
  if m.size < 0 ∨ limit < m.size then (s, .error .makeslice)
  else
    match fetchChunksWithin grow limit get 0 m.chunks [] m.size.toNat s with
    | (s, .error e) => (s, .error e)
    | (s, .ok out) =>
      if (out.length : Int) ≠ m.size then (s, .error .sizeMismatch) else (s, .ok out)

/-- `FetchBytes` on a machine that can allocate `memory` bytes. -/
def fetchBytesWithin (memory : Int) (s : σ) (manifestKey : NodeID) :
    σ × Except FileError Bytes :=
  match get s manifestKey with
  | (s, .error e) => (s, .error (.fetchManifest e))
  | (s, .ok blob) =>
    match unmarshalFileManifest blob with
    | none => (s, .error .malformedManifest)
    | some m => m.fetchWithin grow (min memory maxAlloc) get s

/-- The capacities that `append` allocates for pieces of these lengths, when the slice
has the capacity `cap` and `len` bytes in it. -/
def capacities : (cap len : Nat) → List Nat → List Nat
  | _, _, [] => []
  | cap, len, n :: rest =>
    if len + n ≤ cap then capacities cap (len + n) rest
    else grow cap (len + n) :: capacities (grow cap (len + n)) (len + n) rest

/-- The lengths of the chunks that the store returns, up to the first that it does
not have or whose key is no key. -/
def fetchedLengths : List GoString → σ → List Nat
  | [], _ => []
  | hexKey :: rest, s =>
    match idFromHex hexKey with
    | none => []
    | some key =>
      match get s key with
      | (_, .error _) => []
      | (s, .ok chunk) => chunk.length :: fetchedLengths rest s

variable {grow limit get}

/-- Pieces that fit need no allocation. -/
theorem capacities_eq_nil {cap len : Nat} {lengths : List Nat} (h : len + lengths.sum ≤ cap) :
    capacities grow cap len lengths = [] := by
  induction lengths generalizing len with
  | nil => rfl
  | cons n rest ih =>
    rw [sum_cons] at h
    rw [capacities, if_pos (by omega)]
    exact ih (by omega)

/-- **The loop with its allocations**: if all of them can be made, it is the loop without
them, and otherwise it fails at one. -/
theorem fetchChunksWithin_spec (i : Nat) (keys : List GoString) (out : Bytes) (cap : Nat) (s : σ) :
    ((∀ c ∈ capacities grow cap out.length (fetchedLengths get keys s), (c : Int) ≤ limit) →
      fetchChunksWithin grow limit get i keys out cap s = fetchChunks get i keys out s) ∧
    ((¬ ∀ c ∈ capacities grow cap out.length (fetchedLengths get keys s), (c : Int) ≤ limit) →
      (fetchChunksWithin grow limit get i keys out cap s).2 = .error .growslice) := by
  induction keys generalizing i out cap s with
  | nil => exact ⟨fun _ => rfl, fun h => absurd (by simp [fetchedLengths, capacities]) h⟩
  | cons hexKey rest ih =>
    rw [fetchChunksWithin, fetchChunks, fetchedLengths]
    cases idFromHex hexKey with
    | none => exact ⟨fun _ => rfl, fun h => absurd (by simp [capacities]) h⟩
    | some key =>
      dsimp only
      generalize get s key = r
      obtain ⟨s₁, e | chunk⟩ := r
      · exact ⟨fun _ => rfl, fun h => absurd (by simp [capacities]) h⟩
      · have hRest := fun cap => ih (i + 1) (out ++ chunk) cap s₁
        simp only [length_append] at hRest
        dsimp only
        rw [capacities]
        by_cases hFits : out.length + chunk.length ≤ cap
        · rw [if_pos hFits, if_pos hFits]
          exact hRest cap
        rw [if_neg hFits, if_neg hFits, forall_mem_cons]
        by_cases hLarge : limit < grow cap (out.length + chunk.length)
        · rw [if_pos hLarge]
          exact ⟨fun h => absurd h.1 (by omega), fun _ => rfl⟩
        · rw [if_neg hLarge]
          simp only [not_lt.mp hLarge, true_and]
          exact hRest _

end Memory

/-! ## Verified answers -/

/-- What is returned for a key has that hash. -/
def Verified (cr : Crypto) (get : Getter σ) : Prop :=
  ∀ s key b, (get s key).2 = .ok b → cr.contentAddress b = key

variable {cr : Crypto} {get : Getter σ}

/-- What a lookup returns has passed its check. -/
theorem DHT.getInner_sound {d : DHT} {net : Remote} {key : NodeID} {verify : Bool}
    {order : List GoString} {now later : Time} {fuel : Nat} {l : Lookup Bytes} {v : Bytes}
    (h : d.getInner cr net key verify order now later fuel = some l) (hv : l.result = .ok v) :
    cr.acceptable key verify v = true := by
  unfold getInner at h
  split at h
  · cases h
    cases hv
  dsimp only at h
  split at h
  · rename_i v' hLocal
    cases h
    cases hv
    exact (Option.filter_eq_some_iff.mp hLocal).2
  split at h
  · cases h
    cases hv
  obtain ⟨w, hRun, rfl⟩ := Option.map_eq_some_iff.mp h
  cases hValues : w.values with
  | nil =>
    simp only [hValues] at hv
    cases hv
  | cons v' rest =>
    simp only [hValues] at hv
    cases hv
    have hFound := Walk.run_values hRun (by rw [hValues]; exact mem_cons_self)
    exact hFound.resolve_left (by simp [Walk.start])

/-- **`Get` verifies** what it finds in the store and what it is sent. -/
theorem DHT.getter_verified (cr : Crypto) : Verified cr (DHT.getter cr) := by
  intro s key b h
  rw [DHT.getter] at h
  split at h
  · cases h
  · rename_i l hLookup
    simpa [Crypto.acceptable] using DHT.getInner_sound hLookup h

/-! ## The loop -/

theorem length_of_hexDecode : ∀ {s : GoString} {bytes : Bytes}, hexDecode s = some bytes →
    s.length = 2 * bytes.length
  | [], _, h => by
    cases h
    rfl
  | [_], _, h => by simp [hexDecode] at h
  | a :: b :: rest, bytes, h => by
    rw [hexDecode] at h
    split at h
    · rename_i x y tail hx hy hRest
      cases h
      rw [length_cons, length_cons, length_of_hexDecode hRest, length_cons]
      omega
    · cases h

/-- A text that is a key has 64 characters, so that its first eight are there. -/
theorem length_of_idFromHex {s : GoString} {id : NodeID} (h : idFromHex s = some id) :
    s.length = 64 := by
  rw [length_of_hexDecode (idFromHex_hexDecode h), id.length_eq]
  rfl

/-- The pieces of a file are the chunks that the keys name. -/
def Named (cr : Crypto) (keys : List GoString) (cs : List Bytes) : Prop :=
  List.Forall₂ (fun hexKey c => idFromHex hexKey = some (cr.contentAddress c)) keys cs

/-- **The loop ends in an error or in the chunks**, whatever the texts are. -/
theorem fetchChunks_spec (hVerified : Verified cr get) (i : Nat) (keys : List GoString)
    (out : Bytes) (s : σ) :
    (∃ e, (fetchChunks get i keys out s).2 = .error e ∧ e.isPanic = false) ∨
      ∃ cs, (fetchChunks get i keys out s).2 = .ok (out ++ cs.flatten) ∧ Named cr keys cs := by
  induction keys generalizing i out s with
  | nil => exact .inr ⟨[], by simp [fetchChunks], .nil⟩
  | cons hexKey rest ih =>
    rw [fetchChunks]
    cases hKey : idFromHex hexKey with
    | none => exact .inl ⟨_, rfl, rfl⟩
    | some key =>
      have hHash := hVerified s key
      dsimp only
      generalize get s key = r at hHash
      obtain ⟨s₁, e | chunk⟩ := r
      · refine .inl ⟨_, rfl, decide_eq_false ?_⟩
        rw [length_of_idFromHex hKey]
        decide
      · rcases ih (i + 1) (out ++ chunk) s₁ with hError | ⟨cs, hOk, hNamed⟩
        · exact .inl hError
        · refine .inr ⟨chunk :: cs, ?_, .cons (by rw [hKey, hHash chunk rfl]) hNamed⟩
          rw [hOk, append_assoc, flatten_cons]

/-! ## The whole function -/

/-- What `FetchBytes` may end in: an error, or the chunks that the manifest names, one
after another and of its size together. -/
def SafeFetch (cr : Crypto) (m : FileManifest) (r : Except FileError Bytes) : Prop :=
  (∃ e, r = .error e ∧ e.isPanic = false) ∨
    ∃ cs, r = .ok cs.flatten ∧ (cs.flatten.length : Int) = m.size ∧ Named cr m.chunks cs

theorem SafeFetch.not_panic {m : FileManifest} {e : FileError} (hPanic : e.isPanic = true) :
    ¬ SafeFetch cr m (.error e) := by
  rintro (⟨_, ⟨⟩, hNot⟩ | ⟨cs, ⟨⟩, -⟩)
  rw [hPanic] at hNot
  cases hNot

theorem FileManifest.fetch_safe (hVerified : Verified cr get) {m : FileManifest}
    (hSize : 0 ≤ m.size ∧ m.size ≤ maxAlloc) (s : σ) : SafeFetch cr m (m.fetch get s).2 := by
  have hLoop := fetchChunks_spec hVerified 0 m.chunks [] s
  rw [fetch, if_neg (by omega)]
  generalize fetchChunks get 0 m.chunks [] s = r at hLoop
  obtain ⟨s₁, out⟩ := r
  rcases hLoop with ⟨e, rfl, hPanic⟩ | ⟨cs, rfl, hNamed⟩
  · exact .inl ⟨e, rfl, hPanic⟩
  rw [nil_append]
  dsimp only
  split_ifs with hLength
  · exact .inl ⟨_, rfl, rfl⟩
  · exact .inr ⟨cs, rfl, not_not.mp hLength, hNamed⟩

/-- **When `FetchBytes` is safe**: for a size that can be allocated, if the chunks that
the store returns are no longer than that together or every capacity that `append` asks
for can be allocated as well. -/
theorem fetchBytes_safe_iff {cr : Crypto} {get : Getter σ} (hVerified : Verified cr get)
    (grow : Nat → Nat → Nat) (memory : Int) {s s₁ : σ} {manifestKey : NodeID} {blob : Bytes}
    {m : FileManifest} (hGet : get s manifestKey = (s₁, .ok blob))
    (hRead : unmarshalFileManifest blob = some m) :
    SafeFetch cr m (fetchBytesWithin grow get memory s manifestKey).2 ↔
      0 ≤ m.size ∧ m.size ≤ min memory maxAlloc ∧
        (((fetchedLengths get m.chunks s₁).sum : Int) ≤ m.size ∨
          ∀ c ∈ capacities grow m.size.toNat 0 (fetchedLengths get m.chunks s₁),
            (c : Int) ≤ min memory maxAlloc) := by
  have hLoop := @fetchChunksWithin_spec _ grow (min memory maxAlloc) get 0 m.chunks []
    m.size.toNat s₁
  rw [length_nil] at hLoop
  rw [fetchBytesWithin, hGet]
  simp only [hRead]
  rw [FileManifest.fetchWithin]
  by_cases hSize : m.size < 0 ∨ min memory maxAlloc < m.size
  · rw [if_pos hSize]
    exact ⟨fun h => absurd h (SafeFetch.not_panic rfl), fun h => absurd hSize (by omega)⟩
  rw [if_neg hSize]
  have hAlloc : 0 ≤ m.size ∧ m.size ≤ min memory maxAlloc := by omega
  by_cases hRoom : ∀ c ∈ capacities grow m.size.toNat 0 (fetchedLengths get m.chunks s₁),
      (c : Int) ≤ min memory maxAlloc
  · have hSafe := m.fetch_safe hVerified ⟨hAlloc.1, hAlloc.2.trans (min_le_right _ _)⟩ s₁
    rw [FileManifest.fetch, if_neg (by omega), ← hLoop.1 hRoom] at hSafe
    exact ⟨fun _ => ⟨hAlloc.1, hAlloc.2, .inr hRoom⟩, fun _ => hSafe⟩
  · have hError := hLoop.2 hRoom
    generalize fetchChunksWithin grow (min memory maxAlloc) get 0 m.chunks [] m.size.toNat s₁ = r
      at hError
    obtain ⟨s₂, out⟩ := r
    dsimp only at hError
    subst hError
    refine ⟨fun h => absurd h (SafeFetch.not_panic rfl), fun h => absurd ?_ hRoom⟩
    -- pieces that fit would need no allocation
    rcases h.2.2 with hFits | hAll
    · rw [capacities_eq_nil (by omega)]
      exact nofun
    · exact hAll

/-- The node that answers this one blob, and what it has to hold for the blob to be a
manifest. -/
def onlyBlob (blob : Bytes) : Getter Unit := fixedGetter fun key =>
  if key = byLength.contentAddress blob then .ok blob else .error .notFound

theorem onlyBlob_verified (blob : Bytes) : Verified byLength (onlyBlob blob) := by
  intro s key b h
  rw [onlyBlob, fixedGetter] at h
  split_ifs at h with hKey
  · cases h
    exact hKey.symm

theorem onlyBlob_get (blob : Bytes) :
    onlyBlob blob () (byLength.contentAddress blob) = ((), .ok blob) := by
  rw [onlyBlob, fixedGetter, if_pos rfl]

/-- A manifest of two chunks, of three bytes and of two, and its size. -/
def twoChunks (size : Int) : FileManifest := ⟨size, [(NodeID.fill 3).hex, (NodeID.fill 2).hex]⟩

/-- A store with such a manifest and its chunks. -/
def twoChunksStore (size : Int) : Getter Unit := fixedGetter fun key =>
  if key = NodeID.fill 3 then .ok [1, 2, 3]
  else if key = NodeID.fill 2 then .ok [4, 5]
  else if key = byLength.contentAddress (twoChunks size).marshal then .ok (twoChunks size).marshal
  else .error .notFound

theorem twoChunksStore_verified (size : Int) : Verified byLength (twoChunksStore size) := by
  intro s key b h
  rw [twoChunksStore, fixedGetter] at h
  split_ifs at h with hThree hTwo hManifest
  · cases h
    exact hThree.symm
  · cases h
    exact hTwo.symm
  · cases h
    exact hManifest.symm

/-- The theorem on a manifest whose size is too small: `append` asks for three bytes and
then for six. -/
theorem fetchBytes_safe_iff_short :
    (fetchedLengths (twoChunksStore 1) (twoChunks 1).chunks ()).sum = 5 ∧
    SafeFetch byLength (twoChunks 1) (fetchBytesWithin (fun cap n => max (2 * cap) n)
      (twoChunksStore 1) 6 () (byLength.contentAddress (twoChunks 1).marshal)).2 := by
  have hGet : twoChunksStore 1 () (byLength.contentAddress (twoChunks 1).marshal) =
      ((), .ok (twoChunks 1).marshal) := by decide +kernel
  exact ⟨by decide +kernel, (fetchBytes_safe_iff (twoChunksStore_verified 1) _ 6 hGet
    (unmarshalFileManifest_marshal (by decide))).mpr (by decide +kernel)⟩

/-- A manifest of size -1 is accepted, and `FetchBytes` panics, however much memory
there is. -/
theorem negative_size_panics :
    unmarshalFileManifest (FileManifest.marshal ⟨-1, []⟩) = some ⟨-1, []⟩ ∧
      Verified byLength (onlyBlob (FileManifest.marshal ⟨-1, []⟩)) ∧
      (fetchBytes (onlyBlob (FileManifest.marshal ⟨-1, []⟩)) ()
        (byLength.contentAddress (FileManifest.marshal ⟨-1, []⟩))).2 = .error .makeslice := by
  have hRead : unmarshalFileManifest (FileManifest.marshal ⟨-1, []⟩) = some ⟨-1, []⟩ :=
    unmarshalFileManifest_marshal (by decide)
  refine ⟨hRead, onlyBlob_verified _, ?_⟩
  rw [fetchBytes, onlyBlob_get]
  simp only [hRead]
  rfl

end AltNet
