import AltNet.Files.Chunk

/-!
# AltNet — reading a file chunk by chunk (`apps/files/stream.go`)

`ChunkReader` serves a file without holding it: it keeps a position, fetches
the chunk that the position is in, and remembers the last chunk it has
fetched. Where the position is follows from `ChunkSize` alone, so the reader
never learns how long the chunks before it are.

A position is an `int64`. What `Read` adds to it is what it has copied out of a
chunk in memory, and is added exactly; the sums of `Seek` wrap around.
-/

namespace AltNet

variable {σ : Type}

/-- The errors of `ChunkReader`. -/
inductive ReaderError where
  | shortChunk (idx : Int) (offset len : Nat)
  | indexRange (idx : Int) (have_ : Nat)
  | badChunkKey (idx : Int)
  | fetchChunk (idx : Int) (hexKey : GoString) (e : DhtError)
  | badWhence
  | negativePosition
  deriving DecidableEq

/-- `ChunkReader`; a missing chunk is Go's `nil`. -/
structure ChunkReader where
  manifest : FileManifest
  manifestKey : NodeID
  pos : Int
  cachedIdx : Int
  cachedChunk : Option Bytes

/-- What `Read` returns: `io.EOF`, an error, or the bytes that it has copied. -/
inductive ReadResult where
  | eof
  | error (e : ReaderError)
  | data (bs : Bytes)
  deriving DecidableEq

/-- The third argument of `Seek`. -/
inductive Whence where
  | start
  | current
  | fromEnd
  | other
  deriving DecidableEq

/-- One call on a reader. -/
inductive ReaderOp where
  | read (n : Nat)
  | seek (offset : Int) (whence : Whence)
  deriving DecidableEq

/-- What a call returns. -/
inductive ReaderOut where
  | read (r : ReadResult)
  | seek (r : Except ReaderError Int)

/-- The reader that `NewChunkReader` makes of a manifest. -/
def FileManifest.reader (m : FileManifest) (manifestKey : NodeID) : ChunkReader where
  manifest := m
  manifestKey := manifestKey
  pos := 0
  cachedIdx := -1
  cachedChunk := none

/-- `NewChunkReader`. -/
def newChunkReader (get : Getter σ) (s : σ) (manifestKey : NodeID) :
    σ × Except FileError ChunkReader :=
  match get s manifestKey with
  | (s, .error e) => (s, .error (.fetchManifest e))
  | (s, .ok blob) =>
    match unmarshalFileManifest blob with
    | none => (s, .error .malformedManifest)
    | some m => (s, .ok (m.reader manifestKey))

namespace ChunkReader

/-- `fetchChunk` when the chunk is not in the cache. -/
def fetchMissing (get : Getter σ) (cr : ChunkReader) (s : σ) (idx : Int) :
    σ × ChunkReader × Except ReaderError Bytes :=
  if idx < 0 then (s, cr, .error (.indexRange idx cr.manifest.chunks.length))
  else
    match cr.manifest.chunks[idx.toNat]? with
    | none => (s, cr, .error (.indexRange idx cr.manifest.chunks.length))
    | some hexKey =>
      match idFromHex hexKey with
      | none => (s, cr, .error (.badChunkKey idx))
      | some key =>
        match get s key with
        | (s, .error e) => (s, cr, .error (.fetchChunk idx hexKey e))
        | (s, .ok data) => (s, { cr with cachedIdx := idx, cachedChunk := some data }, .ok data)

/-- `fetchChunk`. -/
def fetchChunk (get : Getter σ) (cr : ChunkReader) (s : σ) (idx : Int) :
    σ × ChunkReader × Except ReaderError Bytes :=
  match cr.cachedChunk with
  | some data => if idx = cr.cachedIdx then (s, cr, .ok data) else cr.fetchMissing get s idx
  | none => cr.fetchMissing get s idx

/-- `Read` into a buffer of `n` bytes. Go's `/` and `%` are those of a position
that is not negative. -/
def read (get : Getter σ) (cr : ChunkReader) (s : σ) (n : Nat) : σ × ChunkReader × ReadResult :=
  if cr.manifest.size ≤ cr.pos then (s, cr, .eof)
  else if n = 0 then (s, cr, .data [])
  else
    let chunkIdx := cr.pos / chunkSize
    let chunkOffset := (cr.pos % chunkSize).toNat
    match cr.fetchChunk get s chunkIdx with
    | (s, cr, .error e) => (s, cr, .error e)
    | (s, cr, .ok chunk) =>
      if chunk.length ≤ chunkOffset then
        (s, cr, .error (.shortChunk chunkIdx chunkOffset chunk.length))
      else
        let copied := (chunk.drop chunkOffset).take n
        (s, { cr with pos := cr.pos + copied.length }, .data copied)

/-- `Seek`. -/
def seek (cr : ChunkReader) (offset : Int) (whence : Whence) :
    ChunkReader × Except ReaderError Int :=
  let newPos : Option Int :=
    match whence with
    | .start => some offset
    | .current => some (addInt64 cr.pos offset)
    | .fromEnd => some (addInt64 cr.manifest.size offset)
    | .other => none
  match newPos with
  | none => (cr, .error .badWhence)
  | some p => if p < 0 then (cr, .error .negativePosition) else ({ cr with pos := p }, .ok p)

/-- One such call. -/
def apply (get : Getter σ) (cr : ChunkReader) (s : σ) : ReaderOp → σ × ChunkReader
  | .read n => ((cr.read get s n).1, (cr.read get s n).2.1)
  | .seek offset whence => (s, (cr.seek offset whence).1)

/-- Calls one after the other. -/
def applyAll (get : Getter σ) : List ReaderOp → ChunkReader → σ → σ × ChunkReader
  | [], cr, s => (s, cr)
  | op :: ops, cr, s => applyAll get ops (cr.apply get s op).2 (cr.apply get s op).1

/-- What a call returns in a state. -/
def returns (get : Getter σ) (cr : ChunkReader) (s : σ) : ReaderOp → ReaderOut
  | .read n => .read (cr.read get s n).2.2
  | .seek offset whence => .seek (cr.seek offset whence).2

/-- The calls with what they return. -/
def transcript (get : Getter σ) : List ReaderOp → ChunkReader → σ → List (ReaderOp × ReaderOut)
  | [], _, _ => []
  | op :: ops, cr, s =>
    (op, cr.returns get s op) ::
      transcript get ops (cr.apply get s op).2 (cr.apply get s op).1

/-! ## What a reader asks for -/

variable {get : Getter σ} {I : σ → Prop} {P : NodeID → Prop}
  {content : NodeID → Except DhtError Bytes} {cr : ChunkReader} {s : σ}

theorem fetchMissing_manifest (get : Getter σ) (cr : ChunkReader) (s : σ) (idx : Int) :
    (cr.fetchMissing get s idx).2.1.manifest = cr.manifest := by
  unfold fetchMissing
  repeat' split
  all_goals rfl

theorem fetchChunk_manifest (get : Getter σ) (cr : ChunkReader) (s : σ) (idx : Int) :
    (cr.fetchChunk get s idx).2.1.manifest = cr.manifest := by
  unfold fetchChunk
  split
  · split
    · rfl
    · exact fetchMissing_manifest get cr s idx
  · exact fetchMissing_manifest get cr s idx

theorem read_manifest (get : Getter σ) (cr : ChunkReader) (s : σ) (n : Nat) :
    (cr.read get s n).2.1.manifest = cr.manifest := by
  unfold read
  split
  · rfl
  split
  · rfl
  have hFetch := fetchChunk_manifest get cr s (cr.pos / chunkSize)
  dsimp only
  generalize cr.fetchChunk get s (cr.pos / chunkSize) = r at hFetch
  obtain ⟨s', cr', _ | chunk⟩ := r
  · exact hFetch
  · dsimp only at hFetch ⊢
    split
    · exact hFetch
    · exact hFetch

theorem fetchMissing_answers (h : Answers get I P content) (hWithin : cr.manifest.Within P)
    (hs : I s) (idx : Int) :
    I (cr.fetchMissing get s idx).1 ∧
      (cr.fetchMissing get s idx).2 = (cr.fetchMissing (fixedGetter content) () idx).2 := by
  unfold fetchMissing
  split
  · exact ⟨hs, rfl⟩
  cases hChunk : cr.manifest.chunks[idx.toNat]? with
  | none => exact ⟨hs, rfl⟩
  | some hexKey =>
    cases hKey : idFromHex hexKey with
    | none =>
      simpa only [hKey, and_true] using hs
    | some key =>
      obtain ⟨hs', hSame⟩ :=
        h s key hs (hWithin hexKey (List.mem_of_getElem? hChunk) key hKey)
      simp only [hKey, fixedGetter, ← hSame]
      generalize get s key = r at hs'
      obtain ⟨s', _ | data⟩ := r
      · exact ⟨hs', rfl⟩
      · exact ⟨hs', rfl⟩

theorem fetchChunk_answers (h : Answers get I P content) (hWithin : cr.manifest.Within P)
    (hs : I s) (idx : Int) :
    I (cr.fetchChunk get s idx).1 ∧
      (cr.fetchChunk get s idx).2 = (cr.fetchChunk (fixedGetter content) () idx).2 := by
  unfold fetchChunk
  split
  · split
    · exact ⟨hs, rfl⟩
    · exact fetchMissing_answers h hWithin hs idx
  · exact fetchMissing_answers h hWithin hs idx

/-- **A reader asks for chunks of its manifest only**, and learns nothing else from
the state that answers. -/
theorem read_answers (h : Answers get I P content) (hWithin : cr.manifest.Within P) (hs : I s)
    (n : Nat) :
    I (cr.read get s n).1 ∧ (cr.read get s n).2 = (cr.read (fixedGetter content) () n).2 := by
  unfold read
  split
  · exact ⟨hs, rfl⟩
  split
  · exact ⟨hs, rfl⟩
  obtain ⟨hs', hSame⟩ := fetchChunk_answers h hWithin hs (cr.pos / chunkSize)
  dsimp only
  generalize cr.fetchChunk get s (cr.pos / chunkSize) = r at hs' hSame
  generalize cr.fetchChunk (fixedGetter content) () (cr.pos / chunkSize) = r' at hSame
  obtain ⟨s', r⟩ := r
  obtain ⟨_, r'⟩ := r'
  obtain rfl : r = r' := hSame
  obtain ⟨cr', _ | chunk⟩ := r
  · exact ⟨hs', rfl⟩
  · dsimp only
    split
    · exact ⟨hs', rfl⟩
    · exact ⟨hs', rfl⟩

theorem seek_manifest (cr : ChunkReader) (offset : Int) (whence : Whence) :
    (cr.seek offset whence).1.manifest = cr.manifest := by
  unfold seek
  dsimp only
  split
  · rfl
  · split
    · rfl
    · rfl

end ChunkReader

end AltNet
