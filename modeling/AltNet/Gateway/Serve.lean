import AltNet.Files.Dir
import AltNet.Files.Stream

/-!
# AltNet — serving a file of a site (`apps/gateway/gateway.go`)

`serveFromRoot` fetches the directory under a root key, looks up the path and
hands a reader of the file to `http.ServeContent`, which seeks and reads in it
as the request asks for.
-/

namespace AltNet

variable {σ : Type}

/-- `mime.TypeByExtension` and `http.DetectContentType`. -/
structure Mime where
  typeByExtension : GoString → GoString
  detectContentType : Bytes → GoString

/-- What `serveFromRoot` answers with an error for. -/
inductive ServeError where
  | fetchDirectory (e : DhtError)
  | malformedDirectory
  | notFound
  | badManifestKey
  | fetchFile (e : FileError)
  deriving DecidableEq

/-- What goes to `http.ServeContent`, after it has made its calls. -/
structure FileResponse where
  contentType : GoString
  etag : GoString
  reader : ChunkReader

/-- The path that is looked up: `index.html` for a directory. -/
def servedPath (subPath : GoString) : GoString :=
  if subPath = [] ∨ ['/'] <:+ subPath then joinPath [subPath, "index.html".toList] else subPath

/-- The content type: by the extension, or else by the first 512 bytes, after
which the reader is at the start again. -/
def sniff (mime : Mime) (get : Getter σ) (s : σ) (path : GoString) (reader : ChunkReader) :
    σ × ChunkReader × GoString :=
  if mime.typeByExtension (pathExt path) ≠ [] then
    (s, reader, mime.typeByExtension (pathExt path))
  else
    let (s, reader, result) := reader.read get s 512
    let head := match result with
      | .data bs => bs
      | .eof | .error _ => []
    (s, (reader.seek 0 .start).1, mime.detectContentType head)

/-- `serveFromRoot`; `ops` are the calls that `http.ServeContent` makes. -/
def serveFromRoot (mime : Mime) (get : Getter σ) (s : σ) (rootKey : NodeID) (subPath : GoString)
    (ops : List ReaderOp) : σ × Except ServeError FileResponse :=
  match get s rootKey with
  | (s, .error e) => (s, .error (.fetchDirectory e))
  | (s, .ok blob) =>
    match unmarshalDirectory blob with
    | none => (s, .error .malformedDirectory)
    | some dir =>
      match dir.entries.find? (·.path = servedPath subPath) with
      | none => (s, .error .notFound)
      | some entry =>
        match idFromHex entry.manifestKey with
        | none => (s, .error .badManifestKey)
        | some manifestKey =>
          match newChunkReader get s manifestKey with
          | (s, .error e) => (s, .error (.fetchFile e))
          | (s, .ok reader) =>
            let (s, reader, contentType) := sniff mime get s (servedPath subPath) reader
            let (s, reader) := reader.applyAll get ops s
            (s, .ok ⟨contentType, '"' :: entry.manifestKey ++ ['"'], reader⟩)

/-! ## What is asked for -/

/-- The keys that a site consists of: its root, the manifests that its
directory lists, and the chunks that these list. -/
inductive SiteKey (content : NodeID → Except DhtError Bytes) (root : NodeID) : NodeID → Prop
  | root : SiteKey content root root
  | manifest {blob : Bytes} {dir : Directory} {e : DirEntry} {key : NodeID} :
      content root = .ok blob → unmarshalDirectory blob = some dir → e ∈ dir.entries →
      idFromHex e.manifestKey = some key → SiteKey content root key
  | chunk {blob blob' : Bytes} {dir : Directory} {e : DirEntry} {manifestKey key : NodeID}
      {m : FileManifest} {c : GoString} :
      content root = .ok blob → unmarshalDirectory blob = some dir → e ∈ dir.entries →
      idFromHex e.manifestKey = some manifestKey → content manifestKey = .ok blob' →
      unmarshalFileManifest blob' = some m → c ∈ m.chunks → idFromHex c = some key →
      SiteKey content root key

section Asked

variable {get : Getter σ} {I : σ → Prop} {P : NodeID → Prop}
  {content : NodeID → Except DhtError Bytes} {s : σ}

theorem ChunkReader.applyAll_keeps (h : Answers get I P content) (ops : List ReaderOp)
    {reader : ChunkReader} (hWithin : reader.manifest.Within P) (hs : I s) :
    I (reader.applyAll get ops s).1 := by
  induction ops generalizing reader s with
  | nil => exact hs
  | cons op ops ih =>
    have hStep : I (reader.apply get s op).1 ∧
        (reader.apply get s op).2.manifest = reader.manifest := by
      cases op with
      | read n => exact ⟨(read_answers h hWithin hs n).1, read_manifest get reader s n⟩
      | seek offset whence => exact ⟨hs, seek_manifest reader offset whence⟩
    exact ih (by rw [hStep.2]; exact hWithin) hStep.1

theorem newChunkReader_keeps (h : Answers get I P content) {manifestKey : NodeID}
    (hKey : P manifestKey) (hs : I s) :
    I (newChunkReader get s manifestKey).1 ∧
      ∀ reader, (newChunkReader get s manifestKey).2 = .ok reader →
        ∃ blob, content manifestKey = .ok blob ∧
          unmarshalFileManifest blob = some reader.manifest := by
  obtain ⟨hs', hAnswer⟩ := h s manifestKey hs hKey
  unfold newChunkReader
  rw [← hAnswer]
  generalize get s manifestKey = r at hs'
  obtain ⟨s', _ | blob⟩ := r
  · exact ⟨hs', fun _ hErr => by cases hErr⟩
  · dsimp only
    cases hManifest : unmarshalFileManifest blob with
    | none => exact ⟨hs', fun _ hErr => by cases hErr⟩
    | some m =>
      refine ⟨hs', fun reader hReader => ⟨blob, rfl, ?_⟩⟩
      cases hReader
      exact hManifest

theorem sniff_keeps (h : Answers get I P content) (mime : Mime) (path : GoString)
    {reader : ChunkReader} (hWithin : reader.manifest.Within P) (hs : I s) :
    I (sniff mime get s path reader).1 ∧
      (sniff mime get s path reader).2.1.manifest = reader.manifest := by
  unfold sniff
  split
  · exact ⟨hs, rfl⟩
  · exact ⟨(ChunkReader.read_answers h hWithin hs 512).1,
      (ChunkReader.seek_manifest _ 0 .start).trans (ChunkReader.read_manifest get reader s 512)⟩

/-- **The gateway asks for keys of the site only.** -/
theorem serveFromRoot_keeps {root : NodeID} (h : Answers get I (SiteKey content root) content)
    (mime : Mime) (subPath : GoString) (ops : List ReaderOp) (hs : I s) :
    I (serveFromRoot mime get s root subPath ops).1 := by
  obtain ⟨hs', hAnswer⟩ := h s root hs .root
  unfold serveFromRoot
  generalize get s root = r at hs' hAnswer
  obtain ⟨s', _ | blob⟩ := r
  · exact hs'
  · dsimp only at hAnswer hs' ⊢
    split
    · exact hs'
    rename_i dir hDir
    split
    · exact hs'
    rename_i e hFind
    have hEntry : e ∈ dir.entries := List.mem_of_find?_eq_some hFind
    split
    · exact hs'
    rename_i manifestKey hKey
    obtain ⟨hNew, hManifest⟩ :=
      newChunkReader_keeps h (.manifest hAnswer.symm hDir hEntry hKey) hs'
    generalize newChunkReader get s' manifestKey = r at hNew hManifest
    obtain ⟨s'', _ | reader⟩ := r
    · exact hNew
    · obtain ⟨blob', hBlob, hRead⟩ := hManifest reader rfl
      have hWithin : reader.manifest.Within (SiteKey content root) := fun c hc key hChunk =>
        .chunk hAnswer.symm hDir hEntry hKey hBlob hRead hc hChunk
      obtain ⟨hSniff, hSame⟩ := sniff_keeps h mime (servedPath subPath) hWithin hNew
      exact ChunkReader.applyAll_keeps h ops (by rw [hSame]; exact hWithin) hSniff

end Asked

end AltNet
