import AltNet.Files.Dir
import AltNet.Name.Rollback

/-!
# AltNet — what is published is fetched (`apps/files/chunk.go`, `apps/files/dir.go`)

`FetchBytes` of the key that `PublishBytes` returned, and `FetchDir` of the root
key that `PublishDir` returned into a vacant destination, at a node whose store
has no limit and no blocklist.

What `FetchDir` writes are the files that were published, with one exception. The
check that is to keep an entry from leading out of the destination looks for
two dots anywhere in the path, so it also refuses a file whose name has two
dots in a row and the whole directory with it.

Main results:

* `putAll_open` — such a node holds all that was stored;
* `published_file_fetched` — a published file is fetched, and cut as it should be;
* `fetchEntries_holding` — the entries of files are fetched one after another;
* `fetchDir_published_iff` — when a published directory is fetched.
-/

namespace AltNet

open List DHT

open NodeID (fill)

/-! ## A node that holds what was stored -/

/-- The node stores without limit, and holds these blobs under their hashes. -/
structure HoldsAll (cr : Crypto) (blobs : List Bytes) (d : DHT) : Prop where
  isOpen : d.Open
  held : ∀ b ∈ blobs, d.store.data.lookup (cr.contentAddress b).hex = some b

section Node

variable {cr : Crypto} {d d' : DHT} {puts puts' : Stream' PutEnv} {blobs : List Bytes}

theorem DHT.putter_ok {key : NodeID} {value : Bytes} (hOpen : d.Open)
    (h : putter (d, puts) key value = .ok (d', puts')) :
    d'.Open ∧ d'.store.data = d.store.data.insert key.hex value ∧ value.length ≤ maxValueSize := by
  have hSize : value.length ≤ maxValueSize := by
    by_contra hLarge
    rw [putter, storeLocal, if_pos (Nat.lt_of_not_le hLarge)] at h
    cases h
  rw [putter] at h
  cases hStore : d.storeLocal key value puts.head.order puts.head.now with
  | error e =>
    rw [hStore] at h
    cases h
  | ok d₁ =>
    rw [hStore] at h
    cases h
    obtain ⟨hOpen', hData⟩ := storeLocal_open hOpen hStore
    exact ⟨hOpen', hData, hSize⟩

/-- **What was stored is held**, if no two of the blobs have one hash. -/
theorem putAll_open (hFree : ∀ b ∈ blobs, ∀ b' ∈ blobs,
      cr.contentAddress b = cr.contentAddress b' → b = b') {rest : List Bytes}
    (hRest : rest ⊆ blobs) (hOpen : d.Open)
    (h : putAll cr putter rest (d, puts) = .ok (d', puts')) :
    d'.Open ∧ (∀ b ∈ rest, b.length ≤ maxValueSize) ∧
      ∀ b ∈ blobs, b ∈ rest ∨ d.store.data.lookup (cr.contentAddress b).hex = some b →
        d'.store.data.lookup (cr.contentAddress b).hex = some b := by
  induction rest generalizing d puts with
  | nil =>
    cases h
    refine ⟨hOpen, by simp, fun b _ hHeld => ?_⟩
    simpa using hHeld
  | cons c rest ih =>
    rw [putAll] at h
    cases hPut : putter (d, puts) (cr.contentAddress c) c with
    | error e =>
      rw [hPut] at h
      cases h
    | ok s₁ =>
      rw [hPut] at h
      obtain ⟨d₁, puts₁⟩ := s₁
      obtain ⟨hOpen₁, hData, hSize⟩ := putter_ok hOpen hPut
      obtain ⟨hOpen', hSizes, hHeld⟩ := ih (cons_subset.mp hRest).2 hOpen₁ h
      refine ⟨hOpen', forall_mem_cons.mpr ⟨hSize, hSizes⟩, fun b hb hBefore => hHeld b hb ?_⟩
      by_cases hSame : b = c
      · right
        rw [hData, hSame, Finmap.lookup_insert]
      have hOther : (cr.contentAddress b).hex ≠ (cr.contentAddress c).hex := fun hEq =>
        hSame (hFree b hb c (cons_subset.mp hRest).1 (NodeID.hex_injective hEq))
      rcases hBefore with hMem | hOld
      · exact Or.inl ((mem_cons.mp hMem).resolve_left hSame)
      · right
        rw [hData, Finmap.lookup_insert_of_ne _ hOther, hOld]

/-- **A held blob is answered** from the store, and it stays there. -/
theorem HoldsAll.answers (content : NodeID → Except DhtError Bytes)
    (hContent : ∀ b ∈ blobs, content (cr.contentAddress b) = .ok b) :
    Answers (getter cr) (fun s => HoldsAll cr blobs s.1)
      (fun key => ∃ b ∈ blobs, key = cr.contentAddress b) content := by
  rintro ⟨d, gets⟩ key hHolds ⟨b, hb, rfl⟩
  have hHeld := hHolds.held b hb
  have hAccept : cr.acceptable (cr.contentAddress b) true b = true := by simp [Crypto.acceptable]
  have hGet : d.getInner cr gets.head.net (cr.contentAddress b) true gets.head.order gets.head.now
      gets.head.later gets.head.fuel =
      some ⟨{ d with store := (d.store.get (cr.contentAddress b) gets.head.now).1 },
        Walk.start d.rt (cr.contentAddress b) [], .ok b⟩ := by
    simp [getInner, hHolds.isOpen.isBlocked, hHeld, Option.filter_some, hAccept]
  rw [getter, hGet, hContent b hb]
  refine ⟨⟨⟨?_, hHolds.isOpen.unblocked⟩, fun b hb => ?_⟩, rfl⟩
  · simpa using hHolds.isOpen.unlimited
  · simpa using hHolds.held b hb

end Node

/-! ## What a node refuses -/

section Sizes

variable {cr : Crypto} {s : DHT × Stream' PutEnv}

theorem DHT.putter_small {value : Bytes} (hSmall : value.length ≤ maxValueSize) (key : NodeID) :
    ∃ s', putter s key value = .ok s' := by
  rw [putter, storeLocal, if_neg (Nat.not_lt.mpr hSmall)]
  by_cases hBlocked : s.1.isBlocked key = true
  · rw [if_pos hBlocked]
    exact ⟨_, rfl⟩
  · rw [if_neg hBlocked]
    exact ⟨_, rfl⟩

theorem DHT.putter_large {value : Bytes} (hLarge : maxValueSize < value.length) (key : NodeID) :
    putter s key value = .error (.tooLarge value.length) := by
  rw [putter, storeLocal, if_pos hLarge]
  rfl

theorem publishChunks_small {chunks : List Bytes}
    (hSmall : ∀ c ∈ chunks, c.length ≤ maxValueSize) (i : Nat) :
    ∃ s', publishChunks cr putter i chunks s =
      (s', .ok (chunks.map fun c => (cr.contentAddress c).hex)) := by
  induction chunks generalizing i s with
  | nil => exact ⟨s, rfl⟩
  | cons c rest ih =>
    obtain ⟨hFirst, hRest⟩ := forall_mem_cons.mp hSmall
    obtain ⟨s₁, hPut⟩ := @DHT.putter_small s _ hFirst (cr.contentAddress c)
    obtain ⟨s₂, hChunks⟩ := @ih s₁ hRest (i + 1)
    exact ⟨s₂, by rw [publishChunks, hPut]; simp only [hChunks, map_cons]⟩

/-- A chunk can always be stored. -/
theorem dataChunks_small {data c : Bytes} (hc : c ∈ dataChunks data) :
    c.length ≤ maxValueSize := by
  obtain ⟨i, hi⟩ := mem_iff_getElem?.mp hc
  exact (dataChunks_full hi).2.2

/-- **`PublishBytes` on any node**: it stores the chunks, and fails if the manifest is
too large. -/
theorem publishBytes_of_manifest (cr : Crypto) (s : DHT × Stream' PutEnv) (data : Bytes) :
    ∃ s', publishBytes cr putter s data =
      if (manifestOf cr data).marshal.length ≤ maxValueSize then
        (s', .ok (manifestOf cr data, cr.contentAddress (manifestOf cr data).marshal))
      else (s', .error (.storeManifest (.tooLarge (manifestOf cr data).marshal.length))) := by
  obtain ⟨s₁, hChunks⟩ := @publishChunks_small cr s _ (fun c hc => @dataChunks_small data c hc) 0
  by_cases hFits : (manifestOf cr data).marshal.length ≤ maxValueSize
  · obtain ⟨s₂, hPut⟩ := @DHT.putter_small s₁ _ hFits
      (cr.contentAddress (manifestOf cr data).marshal)
    refine ⟨s₂, ?_⟩
    rw [if_pos hFits]
    rw [publishBytes_eq hChunks, ← manifestOf, storeManifest, hPut]
  · have hPut := @DHT.putter_large s₁ _ (Nat.lt_of_not_le hFits)
      (cr.contentAddress (manifestOf cr data).marshal)
    refine ⟨s₁, ?_⟩
    rw [if_neg hFits]
    rw [publishBytes_eq hChunks, ← manifestOf, storeManifest, hPut]

end Sizes

/-! ## One file -/

/-- No two of the blobs have one hash. -/
def CollisionFree (cr : Crypto) (blobs : List Bytes) : Prop :=
  ∀ b ∈ blobs, ∀ b' ∈ blobs, cr.contentAddress b = cr.contentAddress b' → b = b'

theorem manifest_mem_fileBlobs (cr : Crypto) (data : Bytes) :
    (manifestOf cr data).marshal ∈ fileBlobs cr data :=
  mem_append_right _ (mem_singleton_self _)

section File

variable {cr : Crypto} {d d' : DHT} {puts puts' : Stream' PutEnv} {blobs : List Bytes}
  {data : Bytes}

/-- What a node holds is what it answers. -/
theorem HoldsAll.exists_content (h : HoldsAll cr blobs d) :
    ∃ content : NodeID → Except DhtError Bytes,
      ∀ b ∈ blobs, content (cr.contentAddress b) = .ok b := by
  refine ⟨fun key => (d.store.data.lookup key.hex).elim (.error .notFound) .ok, fun b hb => ?_⟩
  show (d.store.data.lookup (cr.contentAddress b).hex).elim _ _ = _
  rw [h.held b hb]
  rfl

/-- A file is fetched from a node that holds it, and stays there. -/
theorem fetchBytes_held (hFile : fileBlobs cr data ⊆ blobs)
    (hSmall : (manifestOf cr data).marshal.length ≤ maxValueSize)
    {s : DHT × Stream' GetEnv} (hs : HoldsAll cr blobs s.1) :
    ∃ s₁ : DHT × Stream' GetEnv, HoldsAll cr blobs s₁.1 ∧
      fetchBytes (getter cr) s (cr.contentAddress (manifestOf cr data).marshal) =
        (s₁, .ok data) := by
  obtain ⟨content, hContent⟩ := hs.exists_content
  have hManifest := hFile (manifest_mem_fileBlobs cr data)
  have hWithin : ∀ blob m, content (cr.contentAddress (manifestOf cr data).marshal) = .ok blob →
      unmarshalFileManifest blob = some m →
      m.Within fun key => ∃ b ∈ blobs, key = cr.contentAddress b := by
    intro blob m hBlob hm
    rw [hContent _ hManifest] at hBlob
    cases hBlob
    rw [unmarshalFileManifest_marshal (isInt64_manifestOf hSmall)] at hm
    cases hm
    exact within_manifestOf hFile
  obtain ⟨hHolds, hSame⟩ :=
    fetchBytes_answers (HoldsAll.answers content hContent) ⟨_, hManifest, rfl⟩ hWithin hs
  have hFixed := fetchBytes_published hSmall fun b hb => hContent b (hFile hb)
  exact ⟨_, hHolds, Prod.ext rfl (hSame.trans hFixed)⟩

/-- What a node holds after a successful `PublishBytes`. -/
theorem publishBytes_holds (hOpen : d.Open) (hFree : CollisionFree cr (fileBlobs cr data))
    {m : FileManifest} {key : NodeID}
    (hPublish : publishBytes cr putter (d, puts) data = ((d', puts'), .ok (m, key))) :
    HoldsAll cr (fileBlobs cr data) d' ∧ (∀ b ∈ fileBlobs cr data, b.length ≤ maxValueSize) ∧
      m = manifestOf cr data ∧ key = cr.contentAddress (manifestOf cr data).marshal := by
  obtain ⟨hAll, rfl, rfl⟩ := publishBytes_ok hPublish
  obtain ⟨hOpen', hSizes, hHeld⟩ := putAll_open hFree (List.Subset.refl _) hOpen hAll
  exact ⟨⟨hOpen', fun b hb => hHeld b hb (Or.inl hb)⟩, hSizes, rfl, rfl⟩

/-- **A published file is fetched**, and what is stored for it are its pieces: full
ones, and a shorter last one that is not empty. -/
theorem published_file_fetched (hOpen : d.Open) (hFree : CollisionFree cr (fileBlobs cr data))
    {m : FileManifest} {key : NodeID}
    (hPublish : publishBytes cr putter (d, puts) data = ((d', puts'), .ok (m, key)))
    (gets : Stream' GetEnv) :
    (fetchBytes (getter cr) (d', gets) key).2 = .ok data ∧
      m.chunks.length = data.length ⌈/⌉ chunkSize ∧
      ∀ i hexKey, m.chunks[i]? = some hexKey → ∃ chunk,
        d'.store.data.lookup hexKey = some chunk ∧
        (i + 1 < m.chunks.length → chunk.length = chunkSize) ∧
        0 < chunk.length ∧ chunk.length ≤ chunkSize ∧ chunk.length ≤ maxValueSize := by
  obtain ⟨hHolds, hSizes, rfl, rfl⟩ := publishBytes_holds hOpen hFree hPublish
  obtain ⟨s₁, -, hFetch⟩ := @fetchBytes_held _ _ _ (List.Subset.refl _)
    (hSizes _ (manifest_mem_fileBlobs cr data)) (d', gets) hHolds
  have hLength : (manifestOf cr data).chunks.length = (dataChunks data).length :=
    length_map _
  refine ⟨by rw [hFetch], ?_, fun i hexKey hi => ?_⟩
  · rw [hLength, length_dataChunks, Nat.ceilDiv_eq_add_pred_div]
  · rw [manifestOf, getElem?_map, Option.map_eq_some_iff] at hi
    obtain ⟨chunk, hChunk, rfl⟩ := hi
    have hMem : chunk ∈ fileBlobs cr data :=
      mem_append_left _ (mem_of_getElem? hChunk)
    obtain ⟨hFull, hPos, hMax⟩ := dataChunks_full hChunk
    exact ⟨chunk, hHolds.held chunk hMem, by rwa [hLength], hPos, hMax, hSizes chunk hMem⟩

end File

/-- The length of the bytes for their hash: good enough for three blobs. -/
def byLength : Crypto := ⟨fun bs => fill (UInt8.ofNat bs.length), fun _ _ _ => true⟩

def openNode : DHT := new (fill 1) 0 0

theorem openNode_open : openNode.Open := ⟨by decide, rfl⟩

instance (cr : Crypto) (blobs : List Bytes) : Decidable (CollisionFree cr blobs) :=
  inferInstanceAs (Decidable (∀ b ∈ blobs, ∀ b' ∈ blobs, _))

/-- A file that is one byte longer than a chunk. -/
def longFile : Bytes := replicate chunkSize 0 ++ [1]

theorem dataChunks_longFile : dataChunks longFile = [replicate chunkSize 0, [1]] := by
  have hLength : (replicate chunkSize (0 : UInt8)).length = chunkSize := length_replicate
  have hTurns : (longFile.length + chunkSize - 1) / chunkSize = 2 := by
    rw [longFile, length_append, hLength]
    rfl
  rw [dataChunks, hTurns]
  show [(longFile.drop (0 * chunkSize)).take chunkSize,
    (longFile.drop (1 * chunkSize)).take chunkSize] = _
  rw [Nat.zero_mul, Nat.one_mul, drop_zero, longFile, take_left' hLength, drop_left' hLength]
  rfl

/-- The keys of its chunks are those of their lengths. -/
theorem keys_longFile : ((dataChunks longFile).map fun c => (byLength.contentAddress c).hex) =
    [(fill 0).hex, (fill 1).hex] := by
  have hFull : byLength.contentAddress (replicate chunkSize 0) = fill 0 := by
    show fill (UInt8.ofNat (replicate chunkSize 0).length) = _
    rw [length_replicate]
    rfl
  rw [dataChunks_longFile, map_cons, hFull]
  rfl

theorem manifestOf_longFile : manifestOf byLength longFile =
    ⟨chunkSize + 1, [(fill 0).hex, (fill 1).hex]⟩ := by
  rw [manifestOf, keys_longFile, longFile, length_append, length_replicate]
  rfl

theorem exists_published_long : CollisionFree byLength (fileBlobs byLength longFile) ∧
    ∃ s' m key, publishBytes byLength putter (openNode, Stream'.const ⟨[], 0⟩) longFile =
      (s', .ok (m, key)) := by
  constructor
  · -- the three blobs differ in their lengths
    have hNodup : ((fileBlobs byLength longFile).map fun b =>
        (byLength.contentAddress b).hex).Nodup := by
      rw [fileBlobs, map_append, keys_longFile, manifestOf_longFile]
      decide +kernel
    intro b hb b' hb' hEq
    exact inj_on_of_nodup_map hNodup hb hb' (congrArg NodeID.hex hEq)
  · obtain ⟨s', hPublish⟩ :=
      publishBytes_of_manifest byLength (openNode, Stream'.const ⟨[], 0⟩) longFile
    rw [if_pos (by rw [manifestOf_longFile]; decide +kernel)] at hPublish
    exact ⟨s', _, _, hPublish⟩

/-- The theorem on this file. -/
theorem published_file_fetched_long : ∃ s' m key,
    publishBytes byLength putter (openNode, Stream'.const ⟨[], 0⟩) longFile =
      (s', .ok (m, key)) ∧
    (fetchBytes (getter byLength)
      (s'.1, Stream'.const ⟨steadyNet fun _ => .failed, [], 0, 0, 0⟩) key).2 = .ok longFile ∧
    m.chunks.length = 2 := by
  obtain ⟨hFree, s', m, key, hPublish⟩ := exists_published_long
  obtain ⟨hFetch, -⟩ := published_file_fetched openNode_open hFree hPublish
    (Stream'.const ⟨steadyNet fun _ => .failed, [], 0, 0, 0⟩)
  refine ⟨s', m, key, hPublish, hFetch, ?_⟩
  rw [(publishBytes_ok hPublish).2.1, manifestOf_longFile]
  rfl

/-! ## The entries, one after another -/

section Entries

variable {σ : Type} {cr : Crypto} {get : Getter σ} {dest : GoString} {s s₁ : σ}
  {fs fs₁ fs₂ : FileSystem} {e : DirEntry} {rest : List DirEntry}

/-- Where the directory of an entry is. -/
theorem location_dirPath (hDest : dest ≠ []) (rel : GoString) :
    dirPath (joinPath [dest, rel]) ≠ [] ∧ location (dirPath (joinPath [dest, rel])) =
      ((location (joinPath [dest, rel])).1, (location (joinPath [dest, rel])).2.dropLast) := by
  rw [joinPath_pair hDest]
  obtain ⟨hRooted, hElems⟩ := pathElems_dirPath (if rel = [] then dest else dest ++ '/' :: rel)
  refine ⟨cleanPath_ne_nil _, ?_⟩
  rw [location, location, hRooted, hElems, isRooted_cleanPath, pathElems_cleanPath]

theorem osDisk_mkdirAll {p : GoString} (hp : p ≠ []) (h : fs.mkdirAll (location p) = some fs₁) :
    osDisk.mkdirAll fs p = (fs₁, true) := by
  simp [osDisk, hp, h]

/-- An entry that passes every check is written, and the loop goes on. -/
theorem fetchEntries_step {key : NodeID} {data : Bytes} (hDest : dest ≠ [])
    (hSafe : unsafeDirPath e.path = false)
    (hKey : idFromHex e.manifestKey = some key) (hFetch : fetchBytes get s key = (s₁, .ok data))
    (hSize : (data.length : Int) = e.size)
    (hMkdir : fs.mkdirAll ((location (joinPath [dest, e.path])).1,
      (location (joinPath [dest, e.path])).2.dropLast) = some fs₁)
    (hWrite : fs₁.writeFile (location (joinPath [dest, e.path])) data = some fs₂) :
    fetchEntriesOn osDisk get dest (e :: rest) s fs =
      fetchEntriesOn osDisk get dest rest s₁ fs₂ := by
  obtain ⟨hNe, hDir⟩ := location_dirPath hDest e.path
  have hMade := osDisk_mkdirAll hNe (hDir.symm ▸ hMkdir)
  have hWrote : osDisk.writeFile fs₁ (joinPath [dest, e.path]) data = (fs₂, true) := by
    simp [osDisk, hWrite]
  simp only [fetchEntriesOn, hSafe, hKey, hFetch, hSize, hMade, hWrote, Bool.false_eq_true,
    if_false, ne_eq, not_true_eq_false]

/-- When all is fetched, every path has passed the check. -/
theorem fetchEntries_safe {δ : Type} {disk : Disk δ} {fs : δ} {entries : List DirEntry}
    (h : (fetchEntriesOn disk get dest entries s fs).2 = .ok ()) :
    ∀ e ∈ entries, unsafeDirPath e.path = false := by
  induction entries generalizing s fs with
  | nil => simp
  | cons e rest ih =>
    rw [fetchEntriesOn] at h
    split at h
    · cases h
    rename_i hSafe
    refine forall_mem_cons.mpr ⟨Bool.eq_false_iff.mpr hSafe, ?_⟩
    split at h
    · cases h
    split at h
    · cases h
    split at h
    · cases h
    dsimp only at h
    split at h
    · cases h
    · split at h
      · cases h
      · exact ih h

variable {dir : Directory} {out : σ × FileSystem} {rootKey : NodeID}

/-- `FetchDir` is its loop, once the record is there. -/
theorem fetchDir_ok {blob : Bytes} (hDest : dest ≠ [])
    (hMkdir : fs.mkdirAll (location dest) = some fs₁) (hGet : get s rootKey = (s₁, .ok blob))
    (hRead : unmarshalDirectory blob = some dir)
    (hEntries : fetchEntriesOn osDisk get dest dir.entries s₁ fs₁ = (out, .ok ())) :
    fetchDir get s fs rootKey dest = (out, .ok dir) := by
  simp only [fetchDir, fetchDirOn, osDisk_mkdirAll hDest hMkdir, hGet, hRead, hEntries]

theorem fetchDir_safe (h : fetchDir get s fs rootKey dest = (out, .ok dir)) :
    ∀ e ∈ dir.entries, unsafeDirPath e.path = false := by
  unfold fetchDir fetchDirOn at h
  split at h
  · cases h
  split at h
  · cases h
  split at h
  · cases h
  split at h
  · cases h
  · rename_i hEntries
    cases h
    exact fetchEntries_safe (congrArg Prod.snd hEntries)

/-- The place of an entry is where its names lead to under the destination. -/
theorem location_slashPath (hDest : dest ≠ []) {names : List GoString} (hNe : names ≠ [])
    (hNames : ∀ name ∈ names, LegalName name) :
    location (joinPath [dest, slashPath names]) = (location dest).under names := by
  obtain ⟨-, hRooted, hElems⟩ :=
    pathElems_joinPath hDest hNe fun name hMem => (hNames name hMem).1
  exact Prod.ext hRooted hElems

/-- **The entries of files are fetched**, in any order, if each of the files can
be, and they come beside the files that are there. -/
theorem fetchEntries_holding {I : σ → Prop} {files kept : List (List GoString × Bytes)}
    (hDest : dest ≠ []) (hNamed : ∀ f ∈ files, f.1 ≠ [] ∧ ∀ name ∈ f.1, LegalName name)
    (hSafe : ∀ f ∈ files, unsafeDirPath (slashPath f.1) = false)
    (hFetch : ∀ f ∈ files, ∀ s, I s → ∃ s₁, I s₁ ∧
      fetchBytes get s (cr.contentAddress (manifestOf cr f.2).marshal) = (s₁, .ok f.2))
    (hApart : Apart (files.reverse ++ kept)) (hHold : Holding fs (location dest) kept) (hs : I s) :
    ∃ s' fs', fetchEntriesOn osDisk get dest (files.map (entryOf cr)) s fs = ((s', fs'), .ok ()) ∧
      Holding fs' (location dest) (files.reverse ++ kept) := by
  induction files generalizing s fs kept with
  | nil => exact ⟨s, fs, rfl, hHold⟩
  | cons f rest ih =>
    obtain ⟨⟨hNe, hNames⟩, hNamed⟩ := forall_mem_cons.mp hNamed
    obtain ⟨hSafeHere, hSafe⟩ := forall_mem_cons.mp hSafe
    obtain ⟨hFetchHere, hFetch⟩ := forall_mem_cons.mp hFetch
    rw [reverse_cons, append_assoc, singleton_append] at hApart ⊢
    have hFirst : ∀ g ∈ kept, ¬ f.1 <+: g.1 ∧ ¬ g.1 <+: f.1 :=
      (pairwise_cons.mp (pairwise_append.mp hApart).2.1).1
    obtain ⟨fs₁, fs₂, hMkdir, hWrite, hHold₂⟩ := hHold.write hNe hFirst
    obtain ⟨s₁, hs₁, hGot⟩ := hFetchHere s hs
    rw [map_cons, fetchEntries_step hDest hSafeHere (idFromHex_hex _) hGot rfl
      (by rw [entryOf, location_slashPath hDest hNe hNames]; exact hMkdir)
      (by rw [entryOf, location_slashPath hDest hNe hNames]; exact hWrite)]
    exact ih hNamed hSafe hFetch hApart hHold₂ hs₁

end Entries

/-! ## The whole directory -/

/-- A destination that can be made, with nothing in it. -/
structure Vacant (fs : FileSystem) (dest : GoString) : Prop where
  nonempty : dest ≠ []
  passable : fs.Passable (location dest)
  empty : ∀ names, names ≠ [] → fs ((location dest).under names) = none

theorem unsafeDirPath_slashPath {names : List GoString}
    (hNames : ∀ name ∈ names, LegalName name) :
    unsafeDirPath (slashPath names) = false ↔ ¬ ['.', '.'] <:+: slashPath names := by
  have hHead : isRooted (slashPath names) = false :=
    head_join (fun name hMem => (hNames name hMem).1.ne_nil)
      fun name hMem => (hNames name hMem).1.no_slash
  rw [unsafeDirPath, Bool.or_eq_false_iff, decide_eq_false_iff_not]
  exact and_iff_left hHead

section Directory

variable {cr : Crypto} {tree : FileTree} {d d' : DHT} {puts puts' : Stream' PutEnv}
  {rootPath dest : GoString} {rootKey : NodeID} {dir : Directory} {fs : FileSystem}

/-- The files in the order of the record. -/
def FileTree.sorted (tree : FileTree) : List (List GoString × Bytes) :=
  tree.files.insertionSort fun f g => slashPath f.1 ≤ slashPath g.1

theorem FileTree.mem_sorted {f : List GoString × Bytes} : f ∈ tree.sorted ↔ f ∈ tree.files :=
  mem_insertionSort _

theorem FileTree.apart_sorted : Apart tree.sorted.reverse := by
  have hPerm : tree.sorted.reverse.Perm tree.files :=
    (reverse_perm _).trans (perm_insertionSort _ _)
  refine (hPerm.pairwise_iff ?_).mpr tree.apart
  exact fun h => ⟨h.2, h.1⟩

theorem directoryOf_entries : (directoryOf cr tree).entries = tree.sorted.map (entryOf cr) := by
  rw [FileTree.sorted, map_insertionSort _ (fun a b : DirEntry => a.path ≤ b.path)]
  · rfl
  · exact fun _ _ _ _ => Iff.rfl

/-- What a node holds after a successful `PublishDir`. -/
theorem publishDir_holds (hOpen : d.Open) (hFree : CollisionFree cr (treeBlobs cr tree))
    (hPublish : publishDir cr putter (d, puts) rootPath tree =
      ((d', puts'), .ok (rootKey, dir))) :
    HoldsAll cr (treeBlobs cr tree) d' ∧ (∀ b ∈ treeBlobs cr tree, b.length ≤ maxValueSize) ∧
      dir = directoryOf cr tree ∧ rootKey = cr.contentAddress (directoryOf cr tree).marshal := by
  obtain ⟨hAll, rfl, rfl⟩ := publishDir_ok hPublish
  obtain ⟨hOpen', hSizes, hHeld⟩ := putAll_open hFree (List.Subset.refl _) hOpen hAll
  exact ⟨⟨hOpen', fun b hb => hHeld b hb (Or.inl hb)⟩, hSizes, rfl, rfl⟩

theorem mem_treeBlobs {f : List GoString × Bytes} (hf : f ∈ tree.files) {b : Bytes}
    (hb : b ∈ fileBlobs cr f.2) : b ∈ treeBlobs cr tree :=
  mem_append_left _ (mem_flatMap.mpr ⟨f, hf, hb⟩)

/-- **A published directory is fetched exactly when no path in it has two dots
in a row.** -/
theorem fetchDir_published_iff (hOpen : d.Open) (hFree : CollisionFree cr (treeBlobs cr tree))
    (hPublish : publishDir cr putter (d, puts) rootPath tree =
      ((d', puts'), .ok (rootKey, dir)))
    (gets : Stream' GetEnv) (hVacant : Vacant fs dest) :
    (∃ s' fs', fetchDir (getter cr) (d', gets) fs rootKey dest = ((s', fs'), .ok dir) ∧
      ∀ names data, names ≠ [] →
        (fs' ((location dest).under names) = some (.file data) ↔ (names, data) ∈ tree.files)) ↔
    ∀ f ∈ tree.files, ¬ ['.', '.'] <:+: slashPath f.1 := by
  obtain ⟨hHolds, hSizes, rfl, rfl⟩ := publishDir_holds hOpen hFree hPublish
  obtain ⟨content, hContent⟩ := hHolds.exists_content
  have hRootBlob : (directoryOf cr tree).marshal ∈ treeBlobs cr tree :=
    mem_append_right _ (mem_singleton_self _)
  obtain ⟨hHolds₁, hGet⟩ :=
    HoldsAll.answers content hContent (d', gets) _ hHolds ⟨_, hRootBlob, rfl⟩
  rw [hContent _ hRootBlob] at hGet
  have hRead : unmarshalDirectory (directoryOf cr tree).marshal = some (directoryOf cr tree) := by
    refine unmarshalDirectory_marshal fun e he => ?_
    obtain ⟨f, hf, rfl⟩ := mem_directoryOf.mp he
    exact isInt64_manifestOf (hSizes _ (mem_treeBlobs hf (manifest_mem_fileBlobs cr f.2)))
  have hSafe : ∀ f ∈ tree.files,
      (unsafeDirPath (slashPath f.1) = false ↔ ¬ ['.', '.'] <:+: slashPath f.1) :=
    fun f hf => unsafeDirPath_slashPath (tree.named f hf).2
  constructor
  · rintro ⟨s', fs', hFetch, -⟩ f hf
    exact (hSafe f hf).mp (fetchDir_safe hFetch _ (mem_directoryOf.mpr ⟨f, hf, rfl⟩))
  · intro hPaths
    obtain ⟨fs₁, hMkdir, hMade⟩ := FileSystem.mkdirAll_spec hVacant.passable
    have hSorted : ∀ f ∈ tree.sorted, f ∈ tree.files := fun f hf => FileTree.mem_sorted.mp hf
    obtain ⟨s', fs', hEntries, hHold⟩ := fetchEntries_holding hVacant.nonempty
      (fun f hf => tree.named f (hSorted f hf))
      (fun f hf => (hSafe f (hSorted f hf)).mpr (hPaths f (hSorted f hf)))
      (fun f hf s hs => fetchBytes_held (fun b hb => mem_treeBlobs (hSorted f hf) hb)
        (hSizes _ (mem_treeBlobs (hSorted f hf) (manifest_mem_fileBlobs cr f.2))) hs)
      (by rw [append_nil]; exact FileTree.apart_sorted)
      (Holding.nil hVacant.passable hVacant.empty hMade) hHolds₁
    rw [← directoryOf_entries] at hEntries
    refine ⟨s', fs', fetchDir_ok hVacant.nonempty hMkdir (Prod.ext rfl hGet) hRead hEntries, ?_⟩
    intro names data hNe
    rw [hHold.file_iff hNe, append_nil, mem_reverse, FileTree.mem_sorted]

end Directory

/-! ## A directory of one file -/

/-- A file with two bytes, under this name in a subdirectory. -/
def oneFile (name : GoString) (hName : LegalName name) : FileTree where
  files := [(["d".toList, name], [1, 2])]
  named f hf := by
    rw [mem_singleton.mp hf]
    refine ⟨cons_ne_nil _ _, fun n hn => ?_⟩
    have hDir : LegalName "d".toList := ⟨⟨by decide, by decide, by decide, by decide⟩, by decide⟩
    rcases mem_cons.mp hn with rfl | hn
    · exact hDir
    · rw [mem_singleton.mp hn]
      exact hName
  apart := pairwise_singleton _ _

def plainTree : FileTree :=
  oneFile "a.b".toList ⟨⟨by decide, by decide, by decide, by decide⟩, by decide⟩

def dottedTree : FileTree :=
  oneFile "a..b".toList ⟨⟨by decide, by decide, by decide, by decide⟩, by decide⟩

/-- An empty disk. -/
def noFiles : FileSystem := fun _ => none

theorem noFiles_vacant {dest : GoString} (hDest : dest ≠ []) : Vacant noFiles dest :=
  ⟨hDest, fun _ _ _ _ h => (by cases h), fun _ _ => rfl⟩

def publishSample (tree : FileTree) :
    (DHT × Stream' PutEnv) × Except DirError (NodeID × Directory) :=
  publishDir byLength putter (openNode, Stream'.const ⟨[], 0⟩) "/site".toList tree

def fetchSample (tree : FileTree) (rootKey : NodeID) :
    ((DHT × Stream' GetEnv) × FileSystem) × Except DirError Directory :=
  fetchDir (getter byLength) ((publishSample tree).1.1,
    Stream'.const ⟨steadyNet fun _ => .failed, [], 0, 0, 0⟩) noFiles rootKey "out".toList

theorem publishSample_ok {tree : FileTree} {p : NodeID × Directory → Bool}
    (h : (publishSample tree).2.toOption.any p = true) :
    ∃ rootKey dir, publishSample tree =
      (((publishSample tree).1.1, (publishSample tree).1.2), .ok (rootKey, dir)) ∧
      p (rootKey, dir) = true := by
  generalize publishSample tree = r at h ⊢
  obtain ⟨s, _ | ⟨rootKey, dir⟩⟩ := r
  · cases h
  · exact ⟨rootKey, dir, rfl, h⟩

/-- The theorem on a directory whose file has one dot in its name. -/
theorem plainTree_fetched : ∃ rootKey dir s fs, (publishSample plainTree).2 = .ok (rootKey, dir) ∧
    fetchSample plainTree rootKey = ((s, fs), .ok dir) ∧
    fs ((location "out".toList).under ["d".toList, "a.b".toList]) = some (.file [1, 2]) := by
  have hOk : (publishSample plainTree).2.toOption.any (fun _ => true) = true := by decide +kernel
  obtain ⟨rootKey, dir, hPublish, -⟩ := publishSample_ok hOk
  obtain ⟨s, fs, hFetch, hFiles⟩ := (fetchDir_published_iff openNode_open (by decide +kernel)
    hPublish (Stream'.const ⟨steadyNet fun _ => .failed, [], 0, 0, 0⟩)
    (noFiles_vacant (cons_ne_nil 'o' ['u', 't']))).mpr (by decide +kernel)
  exact ⟨rootKey, dir, s, fs, congrArg Prod.snd hPublish, hFetch,
    (hFiles _ _ (cons_ne_nil _ _)).mpr (mem_singleton_self _)⟩

/-- **`a..b` is refused**, though it leads nowhere else. -/
theorem dottedTree_refused : ∃ rootKey dir, (publishSample dottedTree).2 = .ok (rootKey, dir) ∧
    CollisionFree byLength (treeBlobs byLength dottedTree) ∧ openNode.Open ∧
    Vacant noFiles "out".toList ∧
    (fetchSample dottedTree rootKey).2 = .error (.unsafePath "d/a..b".toList) := by
  have hOk : (publishSample dottedTree).2.toOption.any
      (fun out => (fetchSample dottedTree out.1).2 = .error (.unsafePath "d/a..b".toList)) =
        true := by
    decide +kernel
  obtain ⟨rootKey, dir, hPublish, hRefused⟩ := publishSample_ok hOk
  exact ⟨rootKey, dir, congrArg Prod.snd hPublish, by decide +kernel, openNode_open,
    noFiles_vacant (by decide), of_decide_eq_true hRefused⟩

end AltNet
