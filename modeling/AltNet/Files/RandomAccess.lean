import AltNet.Files.PublishLimits
import AltNet.Files.StreamAgree

/-!
# AltNet — a reader at any position (`apps/files/stream.go`)

`http.ServeContent` seeks in a file and reads from there. `ByteStep` is a reader
over a byte string: a position, and for each call what it may return and where
it leaves the position. A `ChunkReader` of a published file, over any DHT that
serves what was published, is such a reader.

The chunk in the cache is the one of its index whatever the position is, so no
seek makes it a wrong one (`ReaderAt`).

Main results:

* `seek_spec` — what `Seek` does, by the position that it is to lead to;
* `apply_simulates` — one call is a step of the reader over the bytes;
* `chunk_reader_random_access` — so is every sequence of calls, and from where it
  ends the rest of the file can be read.
-/

namespace AltNet

open ChunkReader

variable {σ : Type}

/-! ## A reader over bytes -/

/-- The position that a seek asks for. -/
def Whence.target (size pos offset : Int) : Whence → Option Int
  | .start   => some offset
  | .current => some (pos + offset)
  | .fromEnd => some (size + offset)
  | .other   => none

/-- A reader over a byte string, at a position: a call, what it returns, and the
position after it. How many bytes one `Read` copies is left open. -/
inductive ByteStep (data : Bytes) : Nat → ReaderOp × ReaderOut → Nat → Prop
  | eof {p n : Nat} (hEnd : data.length ≤ p) : ByteStep data p (.read n, .read .eof) p
  | empty {p : Nat} (hInside : p < data.length) :
      ByteStep data p (.read 0, .read (.data [])) p
  | bytes {p n k : Nat} (hSome : 1 ≤ k) (hRoom : k ≤ n) (hEnd : p + k ≤ data.length) :
      ByteStep data p (.read n, .read (.data ((data.drop p).take k))) (p + k)
  | moved {p q : Nat} {offset : Int} {whence : Whence}
      (hTarget : whence.target data.length p offset = some q) :
      ByteStep data p (.seek offset whence, .seek (.ok q)) q
  | negative {p : Nat} {t offset : Int} {whence : Whence}
      (hTarget : whence.target data.length p offset = some t) (hNeg : t < 0) :
      ByteStep data p (.seek offset whence, .seek (.error .negativePosition)) p
  | badWhence {p : Nat} {offset : Int} {whence : Whence}
      (hTarget : whence.target data.length p offset = none) :
      ByteStep data p (.seek offset whence, .seek (.error .badWhence)) p

namespace ChunkReader

/-- The position that this call asks for fits into an `int64`. -/
def Fits (cr : ChunkReader) (op : ReaderOp) : Prop :=
  ∀ offset whence t, op = .seek offset whence →
    whence.target cr.manifest.size cr.pos offset = some t → IsInt64 t

theorem fits_read {cr : ChunkReader} {n : Nat} : cr.Fits (.read n) := by
  rintro _ _ _ ⟨⟩

theorem fits_start {cr : ChunkReader} {offset : Int} (h : IsInt64 offset) :
    cr.Fits (.seek offset .start) := by
  rintro _ _ _ ⟨⟩ ⟨⟩
  exact h

/-- So do the positions that these calls ask for, each where it is made. -/
def FitsAll (get : Getter σ) : List ReaderOp → ChunkReader → σ → Prop
  | [], _, _ => True
  | op :: ops, cr, s =>
    cr.Fits op ∧ FitsAll get ops (cr.apply get s op).2 (cr.apply get s op).1

end ChunkReader

/-! ## One call -/

section Call

variable {content : NodeID → Except DhtError Bytes} {m : FileManifest} {cr : ChunkReader}
  {p : Nat}

/-- Where nothing wraps around, `Seek` computes the position that was asked for. -/
theorem seek_eq {offset : Int} {whence : Whence} (hFits : cr.Fits (.seek offset whence)) :
    cr.seek offset whence =
      (whence.target cr.manifest.size cr.pos offset).elim (cr, .error .badWhence) fun t =>
        if t < 0 then (cr, .error .negativePosition) else ({ cr with pos := t }, .ok t) := by
  cases whence with
  | start => rfl
  | current =>
    have hSum := addInt64_of_fits (hFits offset .current _ rfl rfl)
    simp only [seek, Whence.target, hSum, Option.elim_some]
  | fromEnd =>
    have hSum := addInt64_of_fits (hFits offset .fromEnd _ rfl rfl)
    simp only [seek, Whence.target, hSum, Option.elim_some]
  | other => rfl

/-- **What `Seek` does**, by the position that was asked for: a seek that is
refused leaves the reader as it is. -/
theorem seek_spec (h : ReaderAt content m p cr) {offset : Int} {whence : Whence}
    (hFits : cr.Fits (.seek offset whence)) :
    (∃ q : Nat, whence.target m.size p offset = some (q : Int) ∧
      (cr.seek offset whence).2 = .ok (q : Int) ∧
      ReaderAt content m q (cr.seek offset whence).1) ∨
    (∃ t, whence.target m.size p offset = some t ∧ t < 0 ∧
      cr.seek offset whence = (cr, .error .negativePosition)) ∨
    (whence.target m.size p offset = none ∧
      cr.seek offset whence = (cr, .error .badWhence)) := by
  rw [seek_eq hFits, h.manifest, h.pos]
  cases hTarget : whence.target m.size p offset with
  | none => exact Or.inr (Or.inr ⟨rfl, rfl⟩)
  | some t =>
    rw [Option.elim_some]
    by_cases hNeg : t < 0
    · rw [if_pos hNeg]
      exact Or.inr (Or.inl ⟨t, rfl, hNeg, rfl⟩)
    · rw [if_neg hNeg]
      obtain ⟨q, rfl⟩ := Int.eq_ofNat_of_zero_le (Int.not_lt.mp hNeg)
      exact Or.inl ⟨q, rfl, rfl, rfl, rfl, h.cached⟩

end Call

/-! ## The chunks of a published file -/

section Published

variable {cr : Crypto} {content : NodeID → Except DhtError Bytes} {data : Bytes}

theorem chunkAt_manifestOf
    (hContent : ∀ b ∈ fileBlobs cr data, content (cr.contentAddress b) = .ok b) (i : Nat) :
    (manifestOf cr data).chunkAt content i = (dataChunks data)[i]? :=
  chunkAt_eq (chunkOf_manifestOf hContent) i

theorem aligned_manifestOf
    (hContent : ∀ b ∈ fileBlobs cr data, content (cr.contentAddress b) = .ok b) :
    (manifestOf cr data).Aligned content := by
  intro i hi
  have hSize : (manifestOf cr data).size = data.length := rfl
  have hInside : i * chunkSize < data.length := by
    rw [hSize] at hi
    exact_mod_cast hi
  have hIdx : i < (data.length + chunkSize - 1) / chunkSize := by
    have hPos := chunkSize_pos
    rw [Nat.lt_div_iff_mul_lt hPos]
    omega
  refine ⟨(data.drop (i * chunkSize)).take chunkSize, ?_, ?_⟩
  · rw [chunkAt_manifestOf hContent, dataChunks, List.getElem?_map, List.getElem?_range hIdx]
    rfl
  · rw [hSize, List.length_take, List.length_drop]
    omega

variable {p : Nat} {reader : ChunkReader}

variable (hContent : ∀ b ∈ fileBlobs cr data, content (cr.contentAddress b) = .ok b)

include hContent

/-- A chunk at a position is what comes next in the file. -/
theorem published_chunk_prefix {c : Bytes} (hInside : (p : Int) < (manifestOf cr data).size)
    (hChunk : (manifestOf cr data).chunkAt content (p / chunkSize) = some c)
    (hLong : p % chunkSize < c.length) : c.drop (p % chunkSize) <+: data.drop p := by
  have hLengths : ∀ i c, (manifestOf cr data).chunkAt content i = some c →
      c.length ≤ chunkSize := by
    intro i c hc
    rw [chunkAt_manifestOf hContent] at hc
    exact (dataChunks_full hc).2.2
  have hNext := drop_chunk_prefix (aligned_manifestOf hContent) hLengths
    (chunkOf_manifestOf hContent) hInside hChunk hLong
  rwa [flatten_dataChunks] at hNext

/-- **One call is a step of the reader over the bytes.** -/
theorem apply_simulates (h : ReaderAt content (manifestOf cr data) p reader) {op : ReaderOp}
    (hFits : reader.Fits op) :
    ∃ q, ByteStep data p (op, reader.returns (fixedGetter content) () op) q ∧
      ReaderAt content (manifestOf cr data) q (reader.apply (fixedGetter content) () op).2 := by
  have hSize : (manifestOf cr data).size = data.length := rfl
  cases op with
  | read n =>
    rw [returns, apply]
    rcases read_spec h n with ⟨hEnd, hRead⟩ | ⟨hInside, rfl, hRead⟩ |
      ⟨hInside, hPos, c, reader', hChunk, hLong, hReader, hRead⟩ | ⟨hInside, -, hShort, -⟩
    · rw [hRead]
      exact ⟨p, .eof (by omega), h⟩
    · rw [hRead]
      exact ⟨p, .empty (by omega), h⟩
    · rw [hRead]
      -- What was copied is a prefix of the rest of the file, so its length says all.
      have hPrefix : copied c p n <+: data.drop p :=
        (List.take_prefix n _).trans ( published_chunk_prefix hContent hInside hChunk hLong)
      have hLength := @length_copied c p n
      have hMost := hPrefix.length_le
      rw [List.length_drop] at hMost
      refine ⟨p + (copied c p n).length, ?_, hReader⟩
      have hBytes : copied c p n = (data.drop p).take (copied c p n).length :=
        List.prefix_iff_eq_take.mp hPrefix
      have hStep : ByteStep data p
          (.read n, .read (.data ((data.drop p).take (copied c p n).length)))
          (p + (copied c p n).length) := .bytes (by omega) (by omega) (by omega)
      rwa [← hBytes] at hStep
    · obtain ⟨c, hChunk, hLong⟩ := (aligned_manifestOf hContent).chunk hInside
      exact absurd (hShort c hChunk) (Nat.not_le_of_lt hLong)
  | seek offset whence =>
    rw [returns, apply]
    rcases seek_spec h hFits with ⟨q, hTarget, hOut, hReader⟩ | ⟨t, hTarget, hNeg, hSeek⟩ |
      ⟨hTarget, hSeek⟩
    · rw [hOut]
      exact ⟨q, .moved hTarget, hReader⟩
    · rw [hSeek]
      exact ⟨p, .negative hTarget hNeg, h⟩
    · rw [hSeek]
      exact ⟨p, .badWhence hTarget, h⟩

/-- From any position the rest of the file is read. -/
theorem reads_rest (h : ReaderAt content (manifestOf cr data) p reader) {sizes : Stream' Nat}
    (hFair : Fair sizes) : reader.Reads content sizes (data.drop p) := by
  obtain ⟨fuel, b, hReads⟩ := exists_reads (aligned_manifestOf hContent) hFair h
  have hBytes : b = data.drop p := (pump_of_readAll h hReads).bytes
    (fun _ _ hInside hChunk hLong => published_chunk_prefix hContent hInside hChunk hLong) le_rfl
  rw [hBytes] at hReads
  exact ⟨fuel, hReads⟩

end Published

/-! ## Any sequence of calls, at any DHT -/

/-- In every state with `I`, `Get` returns these blobs for their hashes. -/
def Serves (cr : Crypto) (get : Getter σ) (I : σ → Prop) (blobs : List Bytes) : Prop :=
  ∀ s, I s → ∀ b ∈ blobs,
    I (get s (cr.contentAddress b)).1 ∧ (get s (cr.contentAddress b)).2 = .ok b

section Served

variable {cr : Crypto} {get : Getter σ} {I : σ → Prop} {s : σ} {blobs : List Bytes}
  {data : Bytes} {content : NodeID → Except DhtError Bytes} {reader : ChunkReader}

/-- What is served is answered from one content. -/
theorem Serves.exists_answers (h : Serves cr get I blobs) (hs : I s) :
    ∃ content : NodeID → Except DhtError Bytes,
      (∀ b ∈ blobs, content (cr.contentAddress b) = .ok b) ∧
      Answers get I (fun key => ∃ b ∈ blobs, key = cr.contentAddress b) content := by
  refine ⟨fun key => (get s key).2, fun b hb => (h s hs b hb).2, ?_⟩
  rintro s' _ hs' ⟨b, hb, rfl⟩
  obtain ⟨hKeeps, hAnswer⟩ := h s' hs' b hb
  exact ⟨hKeeps, hAnswer.trans (h s hs b hb).2.symm⟩

/-- **A node that holds the blobs serves them.** -/
theorem HoldsAll.serves (cr : Crypto) (blobs : List Bytes) :
    Serves cr (DHT.getter cr) (fun s => HoldsAll cr blobs s.1) blobs := by
  intro s hs b hb
  obtain ⟨content, hContent⟩ := hs.exists_content
  obtain ⟨hKeeps, hAnswer⟩ := HoldsAll.answers content hContent s _ hs ⟨b, hb, rfl⟩
  exact ⟨hKeeps, hAnswer.trans (hContent b hb)⟩

variable {P : NodeID → Prop}

/-- A call does and returns what it does and returns over the content. -/
theorem apply_answers (h : Answers get I P content) (hWithin : reader.manifest.Within P)
    (hs : I s) (op : ReaderOp) :
    I (reader.apply get s op).1 ∧
      (reader.apply get s op).2 = (reader.apply (fixedGetter content) () op).2 ∧
      reader.returns get s op = reader.returns (fixedGetter content) () op := by
  cases op with
  | read n =>
    obtain ⟨hs', hSame⟩ := read_answers h hWithin hs n
    refine ⟨hs', congrArg Prod.fst hSame, ?_⟩
    rw [returns, returns, hSame]
  | seek offset whence => exact ⟨hs, rfl, rfl⟩

theorem readAll_answers (h : Answers get I P content) (hWithin : reader.manifest.Within P)
    (hs : I s) (fuel : Nat) (sizes : Stream' Nat) :
    reader.readAll get fuel s sizes = reader.readAll (fixedGetter content) fuel () sizes := by
  induction fuel generalizing reader s sizes with
  | zero => rfl
  | succ fuel ih =>
    obtain ⟨hs', hSame⟩ := read_answers h hWithin hs sizes.head
    have hKeeps := read_manifest get reader s sizes.head
    rw [readAll, readAll]
    generalize reader.read get s sizes.head = r at hs' hSame hKeeps
    generalize reader.read (fixedGetter content) () sizes.head = r' at hSame
    obtain ⟨s', r⟩ := r
    obtain ⟨_, r'⟩ := r'
    obtain rfl : r = r' := hSame
    obtain ⟨reader', _ | e | bs⟩ := r
    · rfl
    · rfl
    · have hRest := ih (show reader'.manifest.Within P by rw [hKeeps]; exact hWithin) hs' sizes.tail
      dsimp only
      rw [hRest]

/-- **Every sequence of calls is a run of the reader over the bytes**, and leaves
the reader where the run ends. -/
theorem transcript_simulates
    (hContent : ∀ b ∈ fileBlobs cr data, content (cr.contentAddress b) = .ok b)
    (hAnswers : Answers get I (fun key => ∃ b ∈ fileBlobs cr data, key = cr.contentAddress b)
      content) {p : Nat} (h : ReaderAt content (manifestOf cr data) p reader) (hs : I s)
    {ops : List ReaderOp} (hFits : reader.FitsAll get ops s) :
    ∃ q, Exec (ByteStep data) p (reader.transcript get ops s) q ∧
      ReaderAt content (manifestOf cr data) q (reader.applyAll get ops s).2 ∧
      I (reader.applyAll get ops s).1 := by
  induction ops generalizing p reader s with
  | nil => exact ⟨p, .nil p, h, hs⟩
  | cons op ops ih =>
    obtain ⟨hHere, hLater⟩ := hFits
    have hWithin : reader.manifest.Within fun key =>
        ∃ b ∈ fileBlobs cr data, key = cr.contentAddress b := by
      rw [h.manifest]
      exact within_manifestOf (List.Subset.refl _)
    obtain ⟨hs', hReader, hOut⟩ := apply_answers hAnswers hWithin hs op
    obtain ⟨q, hStep, hNext⟩ := apply_simulates hContent h hHere
    rw [← hReader] at hNext
    rw [← hOut] at hStep
    obtain ⟨q', hRun, hEnd, hLast⟩ := ih hNext hs' hLater
    exact ⟨q', .cons hStep hRun, hEnd, hLast⟩

/-- **`ChunkReader` is a random-access view of a published file**: `NewChunkReader`
succeeds, every sequence of calls is a run of the reader over the bytes from
position 0, and from the position where it ends every way of reading on yields
exactly the rest of the file. -/
theorem chunk_reader_random_access {node node' : DHT × Stream' PutEnv} {m : FileManifest}
    {key : NodeID} (hPublish : publishBytes cr DHT.putter node data = (node', .ok (m, key)))
    (hServes : Serves cr get I (fileBlobs cr data)) (hs : I s) :
    ∃ s₁ reader, newChunkReader get s key = (s₁, .ok reader) ∧
      ∀ ops, ChunkReader.FitsAll get ops reader s₁ →
        ∃ p, Exec (ByteStep data) 0 (reader.transcript get ops s₁) p ∧
          (reader.applyAll get ops s₁).2.pos = p ∧
          ∀ sizes, Fair sizes → ∃ fuel,
            (reader.applyAll get ops s₁).2.readAll get fuel (reader.applyAll get ops s₁).1 sizes =
              some (.ok (data.drop p)) := by
  have hSmall : (manifestOf cr data).marshal.length ≤ maxValueSize :=
    (manifest_fits_iff cr data).mpr ((publishBytes_ok_iff cr node data).mp ⟨_, _, _, hPublish⟩)
  obtain ⟨-, rfl, rfl⟩ := publishBytes_ok hPublish
  -- The manifest comes first, and it is read back as it was stored.
  obtain ⟨hs₁, hManifest⟩ := hServes s hs _ (manifest_mem_fileBlobs cr data)
  have hRead := unmarshalFileManifest_marshal (isInt64_manifestOf hSmall)
  refine ⟨(get s (cr.contentAddress (manifestOf cr data).marshal)).1,
    (manifestOf cr data).reader (cr.contentAddress (manifestOf cr data).marshal), ?_, ?_⟩
  · unfold newChunkReader
    generalize get s (cr.contentAddress (manifestOf cr data).marshal) = r at hManifest
    obtain ⟨s₁, blob⟩ := r
    obtain rfl : blob = .ok (manifestOf cr data).marshal := hManifest
    simp only [hRead]
  · intro ops hFits
    obtain ⟨content, hContent, hAnswers⟩ := hServes.exists_answers hs₁
    obtain ⟨p, hRun, hEnd, hLast⟩ :=
      transcript_simulates hContent hAnswers (readerAt_reader _ _) hs₁ hFits
    refine ⟨p, hRun, hEnd.pos, fun sizes hFair => ?_⟩
    obtain ⟨fuel, hReads⟩ := reads_rest hContent hEnd hFair
    refine ⟨fuel, ?_⟩
    rw [readAll_answers hAnswers _ hLast, hReads]
    rw [hEnd.manifest]
    exact within_manifestOf (List.Subset.refl _)

end Served

/-- A seek to the last byte of the first chunk, two reads, and a seek that is
refused. -/
def boundaryReads : List ReaderOp :=
  [.seek 65535 .start, .read 5, .read 5, .seek (-1) .start]

/-- The theorem on a file of two chunks, at the node that has published it. -/
theorem chunk_reader_random_access_long : ∃ s' m key,
    publishBytes byLength DHT.putter (openNode, Stream'.const ⟨[], 0⟩) longFile =
      (s', .ok (m, key)) ∧
    ∃ s₁ reader, newChunkReader (DHT.getter byLength)
        (s'.1, Stream'.const ⟨steadyNet fun _ => .failed, [], 0, 0, 0⟩) key = (s₁, .ok reader) ∧
      ∃ p, Exec (ByteStep longFile) 0
          (reader.transcript (DHT.getter byLength) boundaryReads s₁) p ∧
        (reader.applyAll (DHT.getter byLength) boundaryReads s₁).2.pos = p := by
  obtain ⟨hFree, s', m, key, hPublish⟩ := exists_published_long
  obtain ⟨hHolds, -⟩ := publishBytes_holds openNode_open hFree hPublish
  obtain ⟨s₁, reader, hNew, hCalls⟩ := @chunk_reader_random_access _ _ _ _
    (s'.1, Stream'.const ⟨steadyNet fun _ => .failed, [], 0, 0, 0⟩) _ _ _ _ _ hPublish
    (HoldsAll.serves _ _) hHolds
  obtain ⟨p, hRun, hPos, -⟩ := hCalls boundaryReads
    ⟨fits_start (by decide), fits_read, fits_read,
      fits_start (by decide), trivial⟩
  exact ⟨s', m, key, hPublish, s₁, reader, hNew, p, hRun, hPos⟩

end AltNet
