import AltNet.Files.RoundTrip

/-!
# AltNet — how much can be published (`apps/files/chunk.go`, `apps/files/dir.go`)

`StoreLocal` refuses a value of more than `MaxValueSize` bytes and nothing else.
A chunk always fits. The manifest has 67 bytes for each chunk and the directory
record over a hundred for each file, and both are one value. Whether they fit is
found out only when they are stored, after all the chunks.

A file of up to 977 chunks can be published, which is 61 MiB and not the
four gigabytes that `ChunkReader` is there for.

Main results:

* `length_marshal_manifest`, `length_marshal_directory` — the two sizes, byte by byte;
* `publishBytes_ok_iff`, `publishDir_ok_iff` — publishing succeeds exactly when every
  value fits;
* `publishing_fits_iff` — what that says about the files.
-/

namespace AltNet

open List DHT

/-! ## The size of the records -/

/-- A key in quotes. -/
theorem cost_key (id : NodeID) : cost Char.utf8Size (Json.str id.hex).render = 66 := by
  rw [length_quote, NodeID.hex, (plain_hexEncode _).textCost, ← NodeID.hex, NodeID.length_hex]

theorem cost_keysJson {keys : List GoString} (hKeys : ∀ k ∈ keys, ∃ id : NodeID, k = id.hex) :
    cost Char.utf8Size (textsJson keys).render = 1 + max 1 (67 * keys.length) := by
  have hItems : ((keys.map Json.str).map fun j => cost Char.utf8Size j.render + 1).sum =
      67 * keys.length := by
    induction keys with
    | nil => rfl
    | cons k rest ih =>
      obtain ⟨⟨id, rfl⟩, hRest⟩ := forall_mem_cons.mp hKeys
      rw [map_cons, map_cons, sum_cons, ih hRest, cost_key, length_cons]
      omega
  rw [textsJson, cost_arr structural_utf8Size, hItems]
  cases keys with
  | nil => rfl
  | cons k rest =>
    rw [if_neg (by simp), length_cons]
    omega

/-- **The size of a manifest.** -/
theorem length_marshal_manifest (cr : Crypto) (data : Bytes) :
    (manifestOf cr data).marshal.length =
      20 + (formatInt data.length).length + max 1 (67 * (dataChunks data).length) := by
  have hKeys : ∀ k ∈ (manifestOf cr data).chunks, ∃ id : NodeID, k = id.hex := by
    intro k hk
    obtain ⟨c, -, rfl⟩ := mem_map.mp hk
    exact ⟨_, rfl⟩
  have hCount : (manifestOf cr data).chunks.length = (dataChunks data).length := length_map _
  have hSizeName : cost Char.utf8Size (quote "size".toList) = 6 := by decide
  have hChunksName : cost Char.utf8Size (quote "chunks".toList) = 8 := by decide
  rw [FileManifest.marshal, length_marshal, FileManifest.toJson,
    cost_obj structural_utf8Size (by simp), fieldsCost_cons, fieldsCost_cons, fieldsCost_nil,
    length_num, cost_keysJson hKeys, hCount, hSizeName, hChunksName]
  show 6 + (formatInt data.length).length + 2 + _ + 1 = _
  omega

/-- What a file adds to the directory record: its path as JSON, its size in digits,
and 102 bytes more. -/
def entrySize (f : List GoString × Bytes) : Nat :=
  102 + textCost (slashPath f.1) + (formatInt f.2.length).length

/-- The size of the directory record; without a file it has `null` for its entries. -/
def directorySize (tree : FileTree) : Nat := 13 + max 3 (tree.files.map entrySize).sum

theorem cost_entryOf (cr : Crypto) (f : List GoString × Bytes) :
    cost Char.utf8Size (entryOf cr f).toJson.render + 1 = entrySize f := by
  have hPathName : cost Char.utf8Size (quote "path".toList) = 6 := by decide
  have hSizeName : cost Char.utf8Size (quote "size".toList) = 6 := by decide
  have hKeyName : cost Char.utf8Size (quote "manifest_key".toList) = 14 := by decide
  rw [DirEntry.toJson, cost_obj structural_utf8Size (by simp), fieldsCost_cons, fieldsCost_cons,
    fieldsCost_cons, fieldsCost_nil, length_num, length_quote, entryOf, cost_key, hPathName,
    hSizeName, hKeyName, entrySize]
  dsimp only
  omega

/-- **The size of a directory record.** -/
theorem length_marshal_directory (cr : Crypto) (tree : FileTree) :
    (directoryOf cr tree).marshal.length = directorySize tree := by
  have hName : cost Char.utf8Size (quote "entries".toList) = 9 := by decide
  have hSum : (((directoryOf cr tree).entries.map DirEntry.toJson).map fun j =>
      cost Char.utf8Size j.render + 1).sum = (tree.files.map entrySize).sum := by
    have hPerm : (directoryOf cr tree).entries.Perm (tree.files.map (entryOf cr)) :=
      perm_insertionSort _ _
    rw [((hPerm.map _).map _).sum_eq, map_map, map_map]
    exact congrArg List.sum (map_congr_left fun f _ => cost_entryOf cr f)
  have hNil : (directoryOf cr tree).entries = [] ↔ tree.files = [] := by
    rw [directoryOf_entries, map_eq_nil_iff, FileTree.sorted, ← length_eq_zero_iff,
      length_insertionSort, length_eq_zero_iff]
  rw [Directory.marshal, length_marshal, Directory.toJson, cost_obj structural_utf8Size (by simp),
    fieldsCost_cons, fieldsCost_nil, hName, directorySize]
  by_cases hEmpty : tree.files = []
  · rw [if_pos (hNil.mpr hEmpty), hEmpty]
    rfl
  have hPos : 3 ≤ (tree.files.map entrySize).sum := by
    obtain ⟨f, rest, hCons⟩ := exists_cons_of_ne_nil hEmpty
    rw [hCons, map_cons, sum_cons, entrySize]
    omega
  rw [if_neg fun h => hEmpty (hNil.mp h), cost_arr structural_utf8Size, hSum,
    if_neg fun h => hEmpty (hNil.mp (map_eq_nil_iff.mp h))]
  omega

/-! ## Which files fit -/

section Node

variable {cr : Crypto} {s : DHT × Stream' PutEnv} {rootPath : GoString}

/-- A manifest fits for up to 977 chunks. -/
def maxFileSize : Nat := 977 * chunkSize

/-- **Which manifests fit.** -/
theorem manifest_fits_iff (cr : Crypto) (data : Bytes) :
    (manifestOf cr data).marshal.length ≤ maxValueSize ↔ data.length ≤ maxFileSize := by
  have hCount := length_dataChunks data
  rw [length_marshal_manifest]
  constructor
  · intro h
    unfold maxFileSize chunkSize maxValueSize at *
    omega
  · intro h
    have hDigits : (formatInt data.length).length ≤ 20 := by
      refine length_formatInt_le ⟨by omega, ?_⟩
      unfold maxFileSize chunkSize at h
      omega
    unfold maxFileSize chunkSize maxValueSize at *
    omega

theorem publishBytes_ok_iff (cr : Crypto) (s : DHT × Stream' PutEnv) (data : Bytes) :
    (∃ s' m key, publishBytes cr putter s data = (s', .ok (m, key))) ↔
      data.length ≤ maxFileSize := by
  obtain ⟨s', hPublish⟩ := publishBytes_of_manifest cr s data
  rw [← manifest_fits_iff cr, hPublish]
  by_cases hFits : (manifestOf cr data).marshal.length ≤ maxValueSize
  · rw [if_pos hFits]
    exact ⟨fun _ => hFits, fun _ => ⟨_, _, _, rfl⟩⟩
  · rw [if_neg hFits]
    exact ⟨fun ⟨_, _, _, h⟩ => (nomatch (Prod.mk.inj h).2), fun h => absurd h hFits⟩

/-- A file of the walk fails when `PublishBytes` does. -/
theorem publishFile_ok_iff (hRoot : rootPath ≠ []) {f : List GoString × Bytes} (hNe : f.1 ≠ [])
    (hNames : ∀ name ∈ f.1, LegalName name) :
    (∃ s' entry, publishFile cr putter rootPath f s = (s', .ok entry)) ↔
      f.2.length ≤ maxFileSize := by
  have hRel := relPath_walkPath hRoot hNe fun name hMem => (hNames name hMem).1
  rw [← publishBytes_ok_iff cr s, publishFile, hRel]
  generalize publishBytes cr putter s f.2 = r
  obtain ⟨s₁, e | ⟨m, key⟩⟩ := r
  · simp
  · simp

/-- The walk fails at the first file that is too large, and at no other. -/
theorem publishFiles_ok_iff (hRoot : rootPath ≠ []) {files : List (List GoString × Bytes)}
    (hNamed : ∀ f ∈ files, f.1 ≠ [] ∧ ∀ name ∈ f.1, LegalName name) :
    (∃ s' entries, publishFiles cr putter rootPath files s = (s', .ok entries)) ↔
      ∀ f ∈ files, f.2.length ≤ maxFileSize := by
  induction files generalizing s with
  | nil => exact ⟨fun _ => by simp, fun _ => ⟨s, [], rfl⟩⟩
  | cons f rest ih =>
    obtain ⟨⟨hNe, hNames⟩, hRest⟩ := forall_mem_cons.mp hNamed
    rw [forall_mem_cons, ← @publishFile_ok_iff cr s rootPath hRoot f hNe hNames, publishFiles]
    generalize publishFile cr putter rootPath f s = r
    obtain ⟨s₁, e | entry⟩ := r
    · simp
    · rw [← @ih s₁ hRest]
      dsimp only
      generalize publishFiles cr putter rootPath rest s₁ = r'
      obtain ⟨s₂, e | entries⟩ := r'
      · simp
      · simp

/-- **`PublishDir` on any node**: it fails on a file that is too large, and on too many
files. -/
theorem publishDir_ok_iff (hRoot : rootPath ≠ []) (tree : FileTree) :
    (∃ s' rootKey dir, publishDir cr putter s rootPath tree = (s', .ok (rootKey, dir))) ↔
      (∀ f ∈ tree.files, f.2.length ≤ maxFileSize) ∧ directorySize tree ≤ maxValueSize := by
  rw [← @publishFiles_ok_iff cr s rootPath hRoot tree.files tree.named,
    ← length_marshal_directory cr tree, publishDir, if_neg hRoot]
  cases hFiles : publishFiles cr putter rootPath tree.files s with
  | mk s₁ published =>
    cases published with
    | error e => simp
    | ok entries =>
      obtain ⟨-, rfl⟩ := publishFiles_ok hRoot tree.named hFiles
      have hWalked : ∃ s' entries',
          (s₁, (.ok (tree.files.map (entryOf cr)) : Except DirError (List DirEntry))) =
            (s', .ok entries') := ⟨_, _, rfl⟩
      rw [and_iff_right hWalked]
      by_cases hFits : (directoryOf cr tree).marshal.length ≤ maxValueSize
      · obtain ⟨s₂, hPut⟩ := @DHT.putter_small s₁ _ hFits
          (cr.contentAddress (directoryOf cr tree).marshal)
        simp only [directoryOf] at hPut hFits ⊢
        simp [hPut, hFits]
      · have hPut := @DHT.putter_large s₁ _ (Nat.lt_of_not_le hFits)
          (cr.contentAddress (directoryOf cr tree).marshal)
        simp only [directoryOf] at hPut hFits ⊢
        simp [hPut, hFits]

/-- **When publishing succeeds**, on any node. A file must not have more than 977
chunks, and the record of a directory must fit into one value. -/
theorem publishing_fits_iff (cr : Crypto) (s : DHT × Stream' PutEnv) :
    (∀ data, (∀ c ∈ dataChunks data, c.length ≤ maxValueSize) ∧
      (((manifestOf cr data).marshal.length ≤ maxValueSize ∧
        ∃ s' m key, publishBytes cr putter s data = (s', .ok (m, key))) ↔
          data.length ≤ 977 * chunkSize)) ∧
    ∀ rootPath tree, rootPath ≠ [] →
      (((directoryOf cr tree).marshal.length ≤ maxValueSize ∧
        ∃ s' rootKey dir, publishDir cr putter s rootPath tree = (s', .ok (rootKey, dir))) ↔
          (∀ f ∈ tree.files, f.2.length ≤ 977 * chunkSize) ∧
            13 + max 3 (tree.files.map fun f =>
              102 + textCost (slashPath f.1) + (formatInt f.2.length).length).sum ≤
              maxValueSize) := by
  refine ⟨fun data => ⟨fun c hc => dataChunks_small hc, ?_⟩, fun rootPath tree hRoot => ?_⟩
  · rw [manifest_fits_iff, publishBytes_ok_iff, and_self]
    rfl
  · rw [publishDir_ok_iff hRoot, length_marshal_directory]
    exact ⟨fun h => h.2, fun h => ⟨h.2, h⟩⟩

/-- The theorem on a file of two bytes, alone and in a directory. -/
theorem publishing_fits_iff_two :
    (∃ s' m key, publishBytes byLength putter (openNode, Stream'.const ⟨[], 0⟩) [1, 2] =
      (s', .ok (m, key))) ∧
    ∃ s' rootKey dir, publishDir byLength putter (openNode, Stream'.const ⟨[], 0⟩)
      "/site".toList plainTree = (s', .ok (rootKey, dir)) := by
  obtain ⟨hFiles, hDirs⟩ := publishing_fits_iff byLength (openNode, Stream'.const ⟨[], 0⟩)
  exact ⟨((hFiles [1, 2]).2.mpr (by decide)).2,
    ((hDirs "/site".toList plainTree (by decide)).mpr (by decide +kernel)).2⟩

/-- A file of 977 chunks and one byte: its chunks are stored, its manifest is not. -/
theorem large_file_refused :
    (publishBytes byLength putter (openNode, Stream'.const ⟨[], 0⟩)
      (List.replicate (977 * chunkSize + 1) 0)).2 =
        .error (.storeManifest (.tooLarge 65554)) := by
  obtain ⟨data, hData⟩ : ∃ data : Bytes, List.replicate (977 * chunkSize + 1) 0 = data := ⟨_, rfl⟩
  have hLength : data.length = 977 * chunkSize + 1 := by rw [← hData, length_replicate]
  obtain ⟨s', hPublish⟩ :=
    publishBytes_of_manifest byLength (openNode, Stream'.const ⟨[], 0⟩) data
  have hManifest : (manifestOf byLength data).marshal.length = 65554 := by
    rw [length_marshal_manifest, length_dataChunks, hLength]
    decide
  rw [hData, hPublish, hManifest, if_neg (by decide)]

end Node

end AltNet
