import AltNet.Lib.Trace
import AltNet.Secure.Conn

/-!
# AltNet — delivery on a faithful network (`core/secure/secure.go`)

One direction of a connection over a raw stream that changes nothing: what is
written arrives in order, in pieces and with delays of any kind, and the end of
the stream arrives last.

Two things keep the payloads from arriving even so. A `Write` that is refused
as too large has already taken a number, so that from then on the two counters
disagree and nothing opens any more. And a frame with an empty payload is taken
off the stream and opened as it should be, but then the empty buffer reports
the end of the stream.

Main results:

* `delivery_iff` — for every sequence of `Write` calls: what was accepted
  arrives, in every run, if and only if no accepted payload is empty and the
  number of refusals before each accepted `Write` is a multiple of 2^64;
* `delivery_fails` — the two ways it does not.
-/

namespace AltNet

open List SecureConn

/-- The writer and the reader, the bytes on their way and the bytes that have
arrived; the payloads of the `Write` calls and of those that returned nil, and
what the `Read` calls returned. -/
structure Pipe where
  writer : SecureConn
  reader : SecureConn
  inFlight : Bytes
  stream : Stream
  closed : Bool
  writes : List Bytes
  accepted : List Bytes
  reads : List (Except ReadError Bytes)

inductive PipeAction where
  | write (p : Bytes)
  | close
  | deliver (k : Nat)
  | deliverEnd
  | read (n : Nat)

namespace Pipe

def init (key : Bytes) : Pipe where
  writer := .new key [] []
  reader := .new [] key []
  inFlight := []
  stream := ⟨[], false⟩
  closed := false
  writes := []
  accepted := []
  reads := []

/-- The next state; `none` when the step cannot be taken. All buffers that are
read into have room for something. -/
def next (A : AEAD) (s : Pipe) : PipeAction → Option Pipe
  | .write p =>
    if s.closed then none
    else
      match s.writer.write A p with
      | (writer, .ok frame) =>
        some { s with
          writer
          inFlight := s.inFlight ++ frame
          writes := s.writes ++ [p]
          accepted := s.accepted ++ [p] }
      | (writer, .error _) => some { s with writer, writes := s.writes ++ [p] }
  | .close => some { s with closed := true }
  | .deliver k =>
    some { s with stream := s.stream.append (s.inFlight.take k), inFlight := s.inFlight.drop k }
  | .deliverEnd =>
    if s.closed ∧ s.inFlight = [] then some { s with stream := { s.stream with ended := true } }
    else none
  | .read n =>
    if n = 0 then none
    else
      (s.reader.read A s.stream n).map fun (reader, stream, result) =>
        { s with reader, stream, reads := s.reads ++ [result] }

/-- What was accepted arrives: what the `Read` calls have returned is a prefix
of it; none of them has failed before the stream was at its end and everything
had been returned; and if something is missing although nothing is on its way,
then the next `Read` returns some of it. -/
def Delivers (A : AEAD) (s : Pipe) : Prop :=
  beforeError s.reads <+: s.accepted.flatten ∧
  (∀ e, .error e ∈ s.reads → s.stream.ended = true ∧ beforeError s.reads = s.accepted.flatten) ∧
  (s.inFlight = [] → beforeError s.reads ≠ s.accepted.flatten → ∀ n, 0 < n →
    ∃ reader stream bytes, s.reader.read A s.stream n = some (reader, stream, .ok bytes) ∧
      bytes ≠ [])

end Pipe

/-- What was sealed under one counter does not open under another. -/
def AEAD.NonceBound (A : AEAD) : Prop :=
  ∀ key (counter counter' : UInt64) p, counter ≠ counter' →
    A.openBox key (nonceFor counter') (A.sealBox key (nonceFor counter) p) = none

theorem marking_nonceBound : marking.NonceBound := by
  intro key counter counter' p hne
  show (if _ then _ else _) = none
  rw [if_neg]
  show ¬ (p ++ marker key (nonceFor counter)).drop (length (p ++ _) - 16) = _
  rw [length_append, length_marker, Nat.add_sub_cancel, drop_left]
  intro hSame
  have hNonce := congrArg (take 12) hSame
  unfold marker at hNonce
  rw [take_take, take_take, Nat.min_eq_left (by decide), append_assoc,
    append_assoc, take_left' (length_nonceFor _),
    take_left' (length_nonceFor _)] at hNonce
  exact hne (nonceFor_injective hNonce)

/-- The number of refused `Write` calls among these. -/
def refusals (ws : List Bytes) : Nat := (ws.filter fun p => decide (¬ Fits p)).length

/-- Every `Write` that is accepted has something to send, and the number of
refusals before it does not show in the counter. -/
def Clean (ws : List Bytes) : Prop :=
  ∀ before p after, ws = before ++ p :: after → Fits p → p ≠ [] ∧ refusals before % 2 ^ 64 = 0

theorem Clean.of_append {ws more : List Bytes} (h : Clean (ws ++ more)) : Clean ws := by
  intro before p after hSplit
  exact h before p (after ++ more) (by rw [hSplit, append_assoc, cons_append])

theorem clean_append_singleton {ws : List Bytes} {p : Bytes} :
    Clean (ws ++ [p]) ↔ Clean ws ∧ (Fits p → p ≠ [] ∧ refusals ws % 2 ^ 64 = 0) := by
  constructor
  · intro h
    exact ⟨h.of_append, h ws p [] rfl⟩
  · rintro ⟨hClean, hLast⟩ before q after hSplit
    rcases eq_nil_or_concat after with rfl | ⟨after', r, rfl⟩
    · obtain ⟨rfl, hEq⟩ := append_inj' hSplit rfl
      cases hEq
      exact hLast
    · rw [concat_eq_append, ← cons_append, ← append_assoc] at hSplit
      obtain ⟨rfl, -⟩ := append_inj' hSplit rfl
      exact hClean before q after' rfl

/-- The first `Write` that goes wrong. -/
theorem exists_first_bad {ws : List Bytes} (h : ¬ Clean ws) :
    ∃ before p after, ws = before ++ p :: after ∧ Clean before ∧ Fits p ∧
      (p = [] ∨ refusals before % 2 ^ 64 ≠ 0) := by
  induction ws using reverseRecOn with
  | nil => exact absurd (fun before p after hSplit => by simp at hSplit) h
  | append_singleton ws p ih =>
    by_cases hClean : Clean ws
    · rw [clean_append_singleton] at h
      have hBad : ¬ (Fits p → p ≠ [] ∧ refusals ws % 2 ^ 64 = 0) := fun hGood => h ⟨hClean, hGood⟩
      obtain ⟨hFits, hBad⟩ := Classical.not_imp.mp hBad
      refine ⟨ws, p, [], rfl, hClean, hFits, ?_⟩
      by_cases hEmpty : p = []
      · exact Or.inl hEmpty
      · exact Or.inr fun hZero => hBad ⟨hEmpty, hZero⟩
    · obtain ⟨before, q, after, rfl, hRest⟩ := ih hClean
      exact ⟨before, q, after ++ [p], by simp, hRest⟩

/-- No call is refused, and each has something to send. -/
theorem clean_of_fits {ws : List Bytes} (h : ∀ p ∈ ws, p ≠ [] ∧ Fits p) : Clean ws := by
  rintro before p after rfl -
  have hNone : refusals before = 0 := by
    unfold refusals
    rw [length_eq_zero_iff, filter_eq_nil_iff]
    intro q hq
    simpa using (h q (mem_append_left _ hq)).2
  exact ⟨(h p (mem_append_right _ mem_cons_self)).1, by rw [hNone, Nat.zero_mod]⟩

theorem length_eq_accepted_add_refusals (ws : List Bytes) :
    ws.length = (ws.filter fun p => decide (Fits p)).length + refusals ws := by
  unfold refusals
  rw [length_eq_length_filter_add fun p => decide (Fits p)]
  congr 2
  apply filter_congr
  intro p _
  simp

/-- The frames of these payloads, numbered from `i` on. -/
def framesFrom (A : AEAD) (key : Bytes) : Nat → List Bytes → Bytes
  | _, [] => []
  | i, p :: rest => A.frame key (UInt64.ofNat i) p ++ framesFrom A key (i + 1) rest

theorem framesFrom_append_singleton (A : AEAD) (key : Bytes) (i : Nat) (ps : List Bytes)
    (p : Bytes) : framesFrom A key i (ps ++ [p]) =
      framesFrom A key i ps ++ A.frame key (UInt64.ofNat (i + ps.length)) p := by
  induction ps generalizing i with
  | nil => simp [framesFrom]
  | cons q rest ih =>
    rw [cons_append, framesFrom, framesFrom, ih, append_assoc, length_cons,
      Nat.add_assoc i 1, Nat.add_comm 1]

/-! ## One step -/

namespace Pipe

variable {A : AEAD} {s s' : Pipe}

theorem next_write_fits {p : Bytes} (hOpen : s.closed = false) (hFits : Fits p) :
    s.next A (.write p) = some { s with
      writer := { s.writer with sendCount := s.writer.sendCount + 1 }
      inFlight := s.inFlight ++ A.frame s.writer.sendKey s.writer.sendCount p
      writes := s.writes ++ [p]
      accepted := s.accepted ++ [p] } := by
  unfold next
  dsimp only
  rw [hOpen, if_neg Bool.false_ne_true, write_fits A _ hFits]

theorem next_write_tooLarge {p : Bytes} (hOpen : s.closed = false) (hFits : ¬ Fits p) :
    s.next A (.write p) = some { s with
      writer := { s.writer with sendCount := s.writer.sendCount + 1 }
      writes := s.writes ++ [p] } := by
  unfold next
  dsimp only
  rw [hOpen, if_neg Bool.false_ne_true, write_tooLarge A _ hFits]

theorem next_write_open {p : Bytes} (hStep : s.next A (.write p) = some s') :
    s.closed = false := by
  obtain ⟨hOpen, hStep⟩ := Option.ite_none_left_eq_some.mp hStep
  exact Bool.eq_false_iff.mpr hOpen

theorem next_write_writes {p : Bytes} (hStep : s.next A (.write p) = some s') :
    s'.writes = s.writes ++ [p] := by
  have hOpen := next_write_open hStep
  by_cases hFits : Fits p
  · rw [next_write_fits hOpen hFits] at hStep
    cases hStep
    rfl
  · rw [next_write_tooLarge hOpen hFits] at hStep
    cases hStep
    rfl

theorem next_deliverEnd (hStep : s.next A .deliverEnd = some s') :
    (s.closed = true ∧ s.inFlight = []) ∧
      s' = { s with stream := { s.stream with ended := true } } := by
  obtain ⟨hEnd, hStep⟩ := Option.ite_none_right_eq_some.mp hStep
  exact ⟨hEnd, (Option.some.inj hStep).symm⟩

theorem next_read {n : Nat} (hStep : s.next A (.read n) = some s') :
    ∃ reader stream result, s.reader.read A s.stream n = some (reader, stream, result) ∧
      s' = { s with reader, stream, reads := s.reads ++ [result] } := by
  obtain ⟨-, hStep⟩ := Option.ite_none_left_eq_some.mp hStep
  obtain ⟨⟨reader, stream, result⟩, hRead, rfl⟩ := Option.map_eq_some_iff.mp hStep
  exact ⟨reader, stream, result, hRead, rfl⟩

/-- The `Write` calls are only ever added to. -/
theorem next_writes {a : PipeAction} (hStep : s.next A a = some s') : s.writes <+: s'.writes := by
  cases a with
  | write p =>
    rw [next_write_writes hStep]
    exact prefix_append _ _
  | close =>
    cases hStep
    exact prefix_rfl
  | deliver k =>
    cases hStep
    exact prefix_rfl
  | deliverEnd =>
    obtain ⟨-, rfl⟩ := next_deliverEnd hStep
    exact prefix_rfl
  | read n =>
    obtain ⟨_, _, _, -, rfl⟩ := next_read hStep
    exact prefix_rfl

end Pipe

/-! ## Clean runs -/

/-- What holds in a run whose `Write` calls so far are clean. -/
structure Pipe.Steady (A : AEAD) (key : Bytes) (s : Pipe) : Prop where
  sendKey : s.writer.sendKey = key
  recvKey : s.reader.recvKey = key
  sendCount : s.writer.sendCount = UInt64.ofNat s.writes.length
  accepted : s.accepted = s.writes.filter fun p => decide (Fits p)
  nonempty : ∀ p ∈ s.accepted, p ≠ []
  ended : s.stream.ended = true → s.closed = true ∧ s.inFlight = []
  /-- The reader has opened the first `j` frames, and the rest is there or on
  its way. -/
  opened : ∃ j ≤ s.accepted.length, s.reader.recvCount = UInt64.ofNat j ∧
    s.stream.pending ++ s.inFlight = framesFrom A key j (s.accepted.drop j) ∧
    beforeError s.reads ++ s.reader.readBuf = (s.accepted.take j).flatten
  errors : ¬ NoError s.reads → s.stream.ended = true ∧ s.stream.pending = [] ∧
    s.reader.readBuf = [] ∧ beforeError s.reads = s.accepted.flatten

namespace Pipe

variable {A : AEAD} {key : Bytes} {s s' : Pipe}

theorem Steady.init (A : AEAD) (key : Bytes) : (init key).Steady A key where
  sendKey := rfl
  recvKey := rfl
  sendCount := rfl
  accepted := rfl
  nonempty := nofun
  ended := nofun
  opened := ⟨0, Nat.le_refl _, rfl, rfl, rfl⟩
  errors := fun h => absurd nofun h

variable {n : Nat} {p : Bytes} {reader : SecureConn} {rest ws : List Bytes}
  {result : Except ReadError Bytes} {stream : Stream}

variable (h : s.Steady A key)

include h

/-- A payload that is still to be read. -/
theorem Steady.front {j : Nat} (hRest : s.accepted.drop j = p :: rest) : Fits p ∧ p ≠ [] := by
  have hMem : p ∈ s.accepted := mem_of_mem_drop (hRest ▸ mem_cons_self)
  refine ⟨?_, h.nonempty p hMem⟩
  rw [h.accepted] at hMem
  exact of_decide_eq_true (mem_filter.mp hMem).2

/-- A steady state delivers. -/
theorem Steady.delivers : s.Delivers A := by
  refine ⟨?_, ?_, ?_⟩
  · obtain ⟨j, -, -, -, hSum⟩ := h.opened
    have hAll : s.accepted.flatten =
        (s.accepted.take j).flatten ++ (s.accepted.drop j).flatten := by
      rw [← flatten_append, take_append_drop]
    rw [hAll, ← hSum, append_assoc]
    exact prefix_append _ _
  · intro e he
    obtain ⟨hEnded, -, -, hAll⟩ := h.errors fun hOk => hOk e he
    exact ⟨hEnded, hAll⟩
  · intro hArrived hMissing n hn
    by_cases hBuf : s.reader.readBuf = []
    · obtain ⟨j, -, hCount, hBytes, hSum⟩ := h.opened
      rw [hBuf, append_nil] at hSum
      obtain ⟨p, rest, hRest⟩ : ∃ p rest, s.accepted.drop j = p :: rest := by
        apply exists_cons_of_ne_nil
        intro hNil
        apply hMissing
        rw [hSum, take_of_length_le (drop_eq_nil_iff.mp hNil)]
      obtain ⟨hFits, hp⟩ := h.front hRest
      rw [hArrived, append_nil, hRest, framesFrom, ← h.recvKey, ← hCount] at hBytes
      have hRead := read_frame A s.reader
        (framesFrom A s.reader.recvKey (j + 1) rest) s.stream.ended n hBuf hFits
      rw [← hBytes, if_neg fun hBoth => hp hBoth.1] at hRead
      refine ⟨_, _, _, hRead, ?_⟩
      rw [Ne, take_eq_nil_iff]
      rintro (hZero | hNil)
      · omega
      · exact hp hNil
    · refine ⟨_, _, _, read_buffered hBuf, ?_⟩
      rw [Ne, take_eq_nil_iff]
      rintro (hZero | hNil)
      · omega
      · exact hBuf hNil

/-- The counter goes up with every `Write`. -/
theorem Steady.sendCount_succ (p : Bytes) :
    s.writer.sendCount + 1 = UInt64.ofNat (s.writes ++ [p]).length := by
  rw [h.sendCount, length_append, length_singleton, ofNat_succ]

/-- A `Write` whose payload is sent. -/
theorem Steady.write_fits (hOpen : s.closed = false) (hFits : Fits p) (hp : p ≠ [])
    (hRefusals : refusals s.writes % 2 ^ 64 = 0) :
    Steady A key { s with
      writer := { s.writer with sendCount := s.writer.sendCount + 1 }
      inFlight := s.inFlight ++ A.frame s.writer.sendKey s.writer.sendCount p
      writes := s.writes ++ [p]
      accepted := s.accepted ++ [p] } := by
  -- its number is that of the frame, as the refusals do not show
  have hNumber : s.writer.sendCount = UInt64.ofNat s.accepted.length := by
    rw [h.sendCount, length_eq_accepted_add_refusals, ← h.accepted]
    exact (ofNat_add_eq_iff _ _).mpr hRefusals
  have hNoEnd : ¬ s.stream.ended = true := fun hEnded =>
    Bool.false_ne_true (hOpen.symm.trans (h.ended hEnded).1)
  constructor
  case sendKey => exact h.sendKey
  case recvKey => exact h.recvKey
  case sendCount => exact h.sendCount_succ p
  case accepted =>
    show s.accepted ++ [p] = _
    rw [filter_append, ← h.accepted]
    simp [hFits]
  case nonempty =>
    intro q hq
    rcases mem_append.mp hq with hq | hq
    · exact h.nonempty q hq
    · rw [mem_singleton.mp hq]
      exact hp
  case ended => exact fun hEnded => absurd hEnded hNoEnd
  case opened =>
    obtain ⟨j, hj, hIndex, hBytes, hSum⟩ := h.opened
    refine ⟨j, ?_, hIndex, ?_, ?_⟩
    · show j ≤ (s.accepted ++ [p]).length
      rw [length_append]
      omega
    · show s.stream.pending ++ (s.inFlight ++ A.frame s.writer.sendKey s.writer.sendCount p) =
        framesFrom A key j ((s.accepted ++ [p]).drop j)
      have hLast : j + (s.accepted.drop j).length = s.accepted.length := by
        rw [length_drop]
        omega
      rw [← append_assoc, hBytes, drop_append_of_le_length hj,
        framesFrom_append_singleton, hLast, h.sendKey, hNumber]
    · show _ = ((s.accepted ++ [p]).take j).flatten
      rw [take_append_of_le_length hj]
      exact hSum
  case errors => exact fun hError => absurd (h.errors hError).1 hNoEnd

/-- A `Write` that is refused. -/
theorem Steady.write_tooLarge (hFits : ¬ Fits p) :
    Steady A key { s with
      writer := { s.writer with sendCount := s.writer.sendCount + 1 }
      writes := s.writes ++ [p] } where
  __ := h
  sendCount := h.sendCount_succ p
  accepted := by
    show s.accepted = _
    rw [filter_append, ← h.accepted]
    simp [hFits]

/-- A `Write` that keeps the sequence clean. -/
theorem Steady.write (hClean : Clean (s.writes ++ [p])) (hStep : s.next A (.write p) = some s') :
    s'.Steady A key := by
  have hOpen := next_write_open hStep
  by_cases hFits : Fits p
  · obtain ⟨hp, hRefusals⟩ := (clean_append_singleton.mp hClean).2 hFits
    rw [next_write_fits hOpen hFits] at hStep
    cases hStep
    exact h.write_fits hOpen hFits hp hRefusals
  · rw [next_write_tooLarge hOpen hFits] at hStep
    cases hStep
    exact h.write_tooLarge hFits

/-- What a completed `Read` returned it also returns of the whole stream. -/
theorem Steady.read_whole (hRead : s.reader.read A s.stream n = some (reader, stream, result)) :
    s.reader.read A (s.stream.append s.inFlight) n =
      some (reader, stream.append s.inFlight, result) := by
  cases hEnded : s.stream.ended with
  | false => exact read_append hEnded hRead s.inFlight
  | true =>
    have hSame : ∀ t : Stream, t.append [] = t := fun t => by simp [Stream.append]
    rw [(h.ended hEnded).2, hSame, hSame]
    exact hRead

/-- `Read` opens the next frame and hands out the beginning of its payload. -/
theorem Steady.read_front {j : Nat} (hCount : s.reader.recvCount = UInt64.ofNat j)
    (hBytes : s.stream.pending ++ s.inFlight = framesFrom A key j (s.accepted.drop j))
    (hRest : s.accepted.drop j = p :: rest) (hBuf : s.reader.readBuf = [])
    (hRead : s.reader.read A s.stream n = some (reader, stream, result)) :
    reader = { s.reader with recvCount := UInt64.ofNat (j + 1), readBuf := p.drop n } ∧
      stream.pending ++ s.inFlight = framesFrom A key (j + 1) rest ∧
      stream.ended = s.stream.ended ∧ result = .ok (p.take n) := by
  obtain ⟨hFits, hp⟩ := h.front hRest
  have hFrame := read_frame A s.reader (framesFrom A key (j + 1) rest)
    s.stream.ended n hBuf hFits
  have hWhole := h.read_whole hRead
  have hStream : s.stream.append s.inFlight =
      ⟨A.frame s.reader.recvKey s.reader.recvCount p ++ framesFrom A key (j + 1) rest,
        s.stream.ended⟩ := by
    unfold Stream.append
    rw [hBytes, hRest, framesFrom, h.recvKey, hCount]
  rw [hStream, hFrame, if_neg fun hBoth => hp hBoth.1] at hWhole
  obtain ⟨hReader, hPair⟩ := Prod.mk.inj (Option.some.inj hWhole)
  obtain ⟨hLeft, hResult⟩ := Prod.mk.inj hPair
  obtain ⟨hPending, hEnded⟩ := Stream.mk.inj hLeft
  refine ⟨?_, hPending.symm, hEnded.symm, hResult.symm⟩
  rw [← hReader, hCount, ofNat_succ]

/-- What remains to be shown of a `Read`. -/
theorem Steady.of_read (hKey : reader.recvKey = s.reader.recvKey)
    (hEnded : stream.ended = s.stream.ended)
    (hOpened : ∃ j ≤ s.accepted.length, reader.recvCount = UInt64.ofNat j ∧
      stream.pending ++ s.inFlight = framesFrom A key j (s.accepted.drop j) ∧
      beforeError (s.reads ++ [result]) ++ reader.readBuf = (s.accepted.take j).flatten)
    (hErrors : ¬ NoError (s.reads ++ [result]) →
      stream.ended = true ∧ stream.pending = [] ∧ reader.readBuf = [] ∧
      beforeError (s.reads ++ [result]) = s.accepted.flatten) :
    Steady A key { s with reader, stream, reads := s.reads ++ [result] } where
  __ := h
  recvKey := hKey.trans h.recvKey
  ended := fun hEnd => h.ended (hEnded.symm.trans hEnd)
  opened := hOpened
  errors := hErrors

/-- Everything has been returned: the stream is at its end, or `Read` waits. -/
theorem Steady.read_last {j : Nat} (hj : j ≤ s.accepted.length)
    (hCount : s.reader.recvCount = UInt64.ofNat j)
    (hBytes : s.stream.pending ++ s.inFlight = framesFrom A key j (s.accepted.drop j))
    (hSum : beforeError s.reads ++ s.reader.readBuf = (s.accepted.take j).flatten)
    (hRest : s.accepted.drop j = []) (hBuf : s.reader.readBuf = [])
    (hRead : s.reader.read A s.stream n = some (reader, stream, result)) :
    Steady A key { s with reader, stream, reads := s.reads ++ [result] } := by
  rw [hRest] at hBytes
  obtain ⟨hPending, hInFlight⟩ := append_eq_nil_iff.mp hBytes
  have hAll : beforeError s.reads = s.accepted.flatten := by
    rw [hBuf, append_nil] at hSum
    rw [hSum, take_of_length_le (drop_eq_nil_iff.mp hRest)]
  have hStream : s.stream = ⟨[], s.stream.ended⟩ := by rw [← hPending]
  cases hEnded : s.stream.ended with
  | false =>
    rw [hStream, hEnded, read_waits hBuf] at hRead
    cases hRead
  | true =>
    rw [hStream, hEnded, read_end hBuf] at hRead
    cases hRead
    refine h.of_read rfl hEnded.symm ⟨j, hj, hCount, ?_, ?_⟩ fun _ => ⟨rfl, rfl, hBuf, ?_⟩
    · rw [hRest, hInFlight]
      rfl
    · rw [beforeError_append_error]
      exact hSum
    · rw [beforeError_append_error]
      exact hAll

/-- The next frame is opened. -/
theorem Steady.read_next {j : Nat} (hCount : s.reader.recvCount = UInt64.ofNat j)
    (hBytes : s.stream.pending ++ s.inFlight = framesFrom A key j (s.accepted.drop j))
    (hSum : beforeError s.reads ++ s.reader.readBuf = (s.accepted.take j).flatten)
    (hRest : s.accepted.drop j = p :: rest) (hBuf : s.reader.readBuf = [])
    (hRead : s.reader.read A s.stream n = some (reader, stream, result)) :
    Steady A key { s with reader, stream, reads := s.reads ++ [result] } := by
  obtain ⟨rfl, hLeft, hEnded, rfl⟩ := h.read_front hCount hBytes hRest hBuf hRead
  have hLt : j < s.accepted.length := by
    by_contra hGe
    rw [drop_eq_nil_iff.mpr (Nat.le_of_not_lt hGe)] at hRest
    cases hRest
  -- nothing has failed yet, as something is still missing
  have hOk : NoError s.reads := by
    by_contra hError
    obtain ⟨hEnd, hNone, -, -⟩ := h.errors hError
    rw [hNone, (h.ended hEnd).2, hRest, framesFrom] at hBytes
    have hNil := (append_eq_nil_iff.mp hBytes.symm).1
    simp [AEAD.frame, framed, bigEndian] at hNil
  have hTake : s.accepted.take (j + 1) = s.accepted.take j ++ [p] := by
    have hNext : s.accepted[j]? = some p := by
      rw [← head?_drop, hRest]
      rfl
    rw [take_add_one, hNext]
    rfl
  have hDrop : s.accepted.drop (j + 1) = rest := by
    rw [← drop_drop, hRest]
    rfl
  refine h.of_read rfl hEnded ⟨j + 1, hLt, rfl, ?_, ?_⟩ fun hError =>
    absurd (hOk.append_ok _) hError
  · rw [hLeft, hDrop]
  · show beforeError (s.reads ++ [_]) ++ p.drop n = _
    rw [hBuf, append_nil] at hSum
    rw [beforeError_append_ok hOk, append_assoc, take_append_drop, hTake,
      flatten_append, flatten_singleton, hSum]

/-- Out of the buffer. -/
theorem Steady.read_rest (hBuf : s.reader.readBuf ≠ [])
    (hRead : s.reader.read A s.stream n = some (reader, stream, result)) :
    Steady A key { s with reader, stream, reads := s.reads ++ [result] } := by
  rw [read_buffered hBuf] at hRead
  cases hRead
  have hOk : NoError s.reads := by
    by_contra hError
    exact hBuf (h.errors hError).2.2.1
  obtain ⟨j, hj, hCount, hBytes, hSum⟩ := h.opened
  refine h.of_read rfl rfl ⟨j, hj, hCount, hBytes, ?_⟩ fun hError =>
    absurd (hOk.append_ok _) hError
  show beforeError (s.reads ++ [_]) ++ s.reader.readBuf.drop n = _
  rw [beforeError_append_ok hOk, append_assoc, take_append_drop]
  exact hSum

/-- A `Read`. -/
theorem Steady.read (hStep : s.next A (.read n) = some s') : s'.Steady A key := by
  obtain ⟨reader, stream, result, hRead, rfl⟩ := next_read hStep
  by_cases hBuf : s.reader.readBuf = []
  · obtain ⟨j, hj, hCount, hBytes, hSum⟩ := h.opened
    cases hRest : s.accepted.drop j with
    | nil => exact h.read_last hj hCount hBytes hSum hRest hBuf hRead
    | cons p rest => exact h.read_next hCount hBytes hSum hRest hBuf hRead
  · exact h.read_rest hBuf hRead

/-- Bytes that arrive. -/
theorem Steady.deliver (k : Nat) :
    Steady A key { s with
      stream := s.stream.append (s.inFlight.take k), inFlight := s.inFlight.drop k } := by
  refine { h with ended := ?ended, opened := ?opened, errors := ?errors }
  case ended =>
    intro hEnded
    obtain ⟨hClosed, hInFlight⟩ := h.ended hEnded
    refine ⟨hClosed, ?_⟩
    show s.inFlight.drop k = []
    rw [hInFlight, drop_nil]
  case opened =>
    obtain ⟨j, hj, hCount, hBytes, hSum⟩ := h.opened
    refine ⟨j, hj, hCount, ?_, hSum⟩
    show s.stream.pending ++ s.inFlight.take k ++ s.inFlight.drop k = _
    rw [append_assoc, take_append_drop, hBytes]
  case errors =>
    intro hError
    obtain ⟨hEnded, hPending, hBuf, hAll⟩ := h.errors hError
    refine ⟨hEnded, ?_, hBuf, hAll⟩
    show s.stream.pending ++ s.inFlight.take k = []
    rw [hPending, (h.ended hEnded).2, take_nil, append_nil]

/-- The end of the stream. -/
theorem Steady.deliverEnd (hStep : s.next A .deliverEnd = some s') : s'.Steady A key := by
  obtain ⟨hEnd, rfl⟩ := next_deliverEnd hStep
  exact { h with
    ended := fun _ => hEnd
    errors := fun hError => ⟨rfl, (h.errors hError).2⟩ }

/-- **One step** of a run whose `Write` calls stay clean. -/
theorem Steady.step {a : PipeAction} (hStep : s.next A a = some s') (hClean : Clean s'.writes) :
    s'.Steady A key := by
  cases a with
  | write p => exact h.write (next_write_writes hStep ▸ hClean) hStep
  | close =>
    cases hStep
    exact { h with ended := fun hEnded => ⟨rfl, (h.ended hEnded).2⟩ }
  | deliver k =>
    cases hStep
    exact h.deliver k
  | deliverEnd => exact h.deliverEnd hStep
  | read n => exact h.read hStep

omit h

/-- **Every run** with clean `Write` calls is steady. -/
theorem Steady.run {as : List PipeAction} (hRun : Exec (stepOf (next A)) (Pipe.init key) as s)
    (hClean : Clean s.writes) : s.Steady A key := by
  have hInv : Clean s.writes → s.Steady A key := by
    apply hRun.invariant (I := fun s => Clean s.writes → s.Steady A key)
    · exact fun _ => Steady.init A key
    · intro t a u ih hStep hClean
      obtain ⟨more, hMore⟩ := next_writes hStep
      have hBefore : Clean t.writes := Clean.of_append (hMore ▸ hClean)
      exact (ih hBefore).step hStep hClean
  exact hInv hClean

/-! ## Where it goes wrong -/

/-- Everything that was sent has been read, and the two counters are where the
`Write` calls have brought them. -/
structure Idle (key : Bytes) (ws : List Bytes) (s : Pipe) : Prop where
  sendKey : s.writer.sendKey = key
  recvKey : s.reader.recvKey = key
  sendCount : s.writer.sendCount = UInt64.ofNat ws.length
  recvCount : s.reader.recvCount = UInt64.ofNat (ws.filter fun p => decide (Fits p)).length
  writes : s.writes = ws
  isOpen : s.closed = false
  inFlight : s.inFlight = []
  stream : s.stream = ⟨[], false⟩
  readBuf : s.reader.readBuf = []

/-- The state of an idle connection after one more payload has been written and
has arrived. -/
def sent (A : AEAD) (s : Pipe) (p : Bytes) : Pipe :=
  { s with
    writer := { s.writer with sendCount := s.writer.sendCount + 1 }
    stream := ⟨A.frame s.writer.sendKey s.writer.sendCount p, false⟩
    writes := s.writes ++ [p]
    accepted := s.accepted ++ [p] }

theorem Idle.exec_sent (h : s.Idle key ws) (hFits : Fits p) :
    ∃ as, Exec (stepOf (next A)) s as (s.sent A p) := by
  refine ⟨_, Exec.cons (next_write_fits h.isOpen hFits) (Exec.single (a := .deliver
    (A.frame s.writer.sendKey s.writer.sendCount p).length) ?_)⟩
  unfold stepOf next sent
  dsimp only
  rw [h.inFlight, h.stream, nil_append, take_length, drop_length]
  rfl

theorem sent_read (hn : n ≠ 0)
    (hRead : s.reader.read A ⟨A.frame s.writer.sendKey s.writer.sendCount p,
      false⟩ n = some (reader, stream, result)) :
    (s.sent A p).next A (.read n) =
      some { s.sent A p with reader, stream, reads := s.reads ++ [result] } := by
  unfold next sent
  dsimp only
  rw [if_neg hn, hRead]
  rfl

/-- A clean sequence of `Write` calls can be read to its end. -/
theorem exists_idle (A : AEAD) (key : Bytes) (hClean : Clean ws) :
    ∃ as s, Exec (stepOf (next A)) (Pipe.init key) as s ∧ s.Idle key ws := by
  induction ws using reverseRecOn with
  | nil =>
    exact ⟨[], _, Exec.nil _, rfl, rfl, rfl, rfl, rfl, rfl, rfl, rfl, rfl⟩
  | append_singleton ws p ih =>
    obtain ⟨hBefore, hGood⟩ := clean_append_singleton.mp hClean
    obtain ⟨as, s, hRun, h⟩ := ih hBefore
    have hSend : s.writer.sendCount + 1 = UInt64.ofNat (ws ++ [p]).length := by
      rw [h.sendCount, length_append, length_singleton, ofNat_succ]
    by_cases hFits : Fits p
    · obtain ⟨hp, hRefusals⟩ := hGood hFits
      have hSame : s.writer.sendCount = s.reader.recvCount := by
        rw [h.sendCount, h.recvCount, length_eq_accepted_add_refusals]
        exact (ofNat_add_eq_iff _ _).mpr hRefusals
      obtain ⟨bs, hSent⟩ := h.exec_sent (A := A) hFits
      have hLength : p.length ≠ 0 := fun hZero => hp (length_eq_zero_iff.mp hZero)
      have hBytes : A.frame s.writer.sendKey s.writer.sendCount p =
          A.frame s.reader.recvKey s.reader.recvCount p := by
        rw [h.sendKey, h.recvKey, hSame]
      -- a `Read` that takes the whole payload
      have hFrame := read_frame A s.reader [] false p.length h.readBuf hFits
      rw [append_nil, if_neg fun hBoth => hp hBoth.1, take_length, drop_length,
        ← hBytes] at hFrame
      have hRead := sent_read hLength hFrame
      refine ⟨_, _, (hRun.trans hSent).snoc hRead, { h with
        sendCount := hSend
        recvCount := ?_
        writes := congrArg (· ++ [p]) h.writes
        stream := rfl
        readBuf := rfl }⟩
      show s.reader.recvCount + 1 = _
      rw [h.recvCount, filter_append, filter_singleton, decide_eq_true hFits,
        length_append, ofNat_succ]
      rfl
    · refine ⟨_, _, hRun.snoc (next_write_tooLarge h.isOpen hFits), { h with
        sendCount := hSend
        recvCount := ?_
        writes := congrArg (· ++ [p]) h.writes }⟩
      show s.reader.recvCount = _
      rw [h.recvCount, filter_append, filter_singleton, decide_eq_false hFits]
      simp

/-- While the writer is open, it can write whatever it likes. -/
theorem exec_writes (A : AEAD) (ws : List Bytes) (s : Pipe) (hOpen : s.closed = false) :
    ∃ as s', Exec (stepOf (next A)) s as s' ∧ s'.writes = s.writes ++ ws ∧ s'.reads = s.reads ∧
      s'.stream = s.stream := by
  induction ws generalizing s with
  | nil => exact ⟨[], s, Exec.nil s, (append_nil _).symm, rfl, rfl⟩
  | cons p rest ih =>
    obtain ⟨t, hStep, hClosed, hWrites, hReads, hStream⟩ : ∃ t, s.next A (.write p) = some t ∧
        t.closed = false ∧ t.writes = s.writes ++ [p] ∧ t.reads = s.reads ∧
        t.stream = s.stream := by
      unfold next
      dsimp only
      rw [hOpen, if_neg Bool.false_ne_true]
      split
      · exact ⟨_, rfl, rfl, rfl, rfl, rfl⟩
      · exact ⟨_, rfl, rfl, rfl, rfl, rfl⟩
    obtain ⟨as, s', hRun, hWrites', hReads', hStream'⟩ := ih t hClosed
    refine ⟨_, s', Exec.cons hStep hRun, ?_, hReads'.trans hReads, hStream'.trans hStream⟩
    rw [hWrites', hWrites, append_assoc]
    rfl

/-- The first bad `Write` is read as an error, with the stream still open. -/
theorem exists_failing (hBound : A.NonceBound) (key : Bytes) (hBad : ¬ Clean ws) :
    ∃ as s, Exec (stepOf (next A)) (Pipe.init key) as s ∧ s.writes = ws ∧
      s.stream.ended = false ∧ ∃ e, .error e ∈ s.reads := by
  obtain ⟨before, p, after, rfl, hClean, hFits, hWhy⟩ := exists_first_bad hBad
  obtain ⟨as, s, hRun, h⟩ := exists_idle A key hClean
  obtain ⟨bs, hSent⟩ := h.exec_sent (A := A) hFits
  obtain ⟨reader, e, hRead⟩ : ∃ reader e, s.reader.read A
      ⟨A.frame s.writer.sendKey s.writer.sendCount p, false⟩ 1 =
        some (reader, ⟨[], false⟩, .error e) := by
    by_cases hSame : s.writer.sendCount = s.reader.recvCount
    · -- the counters agree, so the payload is empty
      have hRefusals : refusals before % 2 ^ 64 = 0 := by
        rw [h.sendCount, h.recvCount, length_eq_accepted_add_refusals] at hSame
        exact (ofNat_add_eq_iff _ _).mp hSame
      have hEmpty : p = [] := hWhy.resolve_right fun hNot => hNot hRefusals
      have hFrame := read_frame A s.reader [] false 1 h.readBuf hFits
      rw [append_nil, if_pos ⟨hEmpty, one_ne_zero⟩] at hFrame
      rw [h.sendKey, ← h.recvKey, hSame]
      exact ⟨_, _, hFrame⟩
    · have hFrame := read_frame_bad A s.reader [] false 1 h.readBuf hFits
        (hBound _ _ _ p hSame)
      rw [append_nil] at hFrame
      rw [h.sendKey, ← h.recvKey]
      exact ⟨_, _, hFrame⟩
  -- then the rest of the `Write` calls
  have hFailed := (hRun.trans hSent).snoc (sent_read one_ne_zero hRead)
  obtain ⟨cs, s', hAfter, hWrites, hReads, hStream⟩ := exec_writes A after
    { s.sent A p with reader, stream := ⟨[], false⟩, reads := s.reads ++ [.error e] } h.isOpen
  refine ⟨_, s', hFailed.trans hAfter, ?_, ?_, e, ?_⟩
  · rw [hWrites]
    show s.writes ++ [p] ++ after = _
    rw [h.writes, append_assoc]
    rfl
  · rw [hStream]
  · rw [hReads]
    exact mem_append_right _ (mem_singleton_self _)

end Pipe

/-- **Delivery on a faithful network.** The payloads of the `Write` calls that
were accepted arrive in every run with these calls, however the bytes travel
and whatever buffers they are read into, if and only if no accepted payload is
empty and, before each accepted call, the number of refused ones is a multiple
of 2^64. -/
theorem delivery_iff (A : AEAD) (hBound : A.NonceBound) (key : Bytes) (ws : List Bytes) :
    (∀ as s, Exec (stepOf (Pipe.next A)) (Pipe.init key) as s → s.writes = ws → s.Delivers A) ↔
      Clean ws := by
  constructor
  · intro hAll
    by_contra hBad
    obtain ⟨as, s, hRun, hWrites, hOpen, e, he⟩ := Pipe.exists_failing hBound key hBad
    obtain ⟨-, hErrors, -⟩ := hAll as s hRun hWrites
    rw [(hErrors e he).1] at hOpen
    cases hOpen
  · rintro hClean as s hRun rfl
    exact (Pipe.Steady.run hRun hClean).delivers

/-- Two calls that arrive under the marking cipher. -/
theorem delivery_iff_twoWrites : marking.NonceBound ∧ Clean [[7], [8, 9]] ∧
    ∀ as s, Exec (stepOf (Pipe.next marking)) (Pipe.init [1]) as s → s.writes = [[7], [8, 9]] →
      s.Delivers marking :=
  have hClean : Clean [[7], [8, 9]] := clean_of_fits (by decide)
  ⟨marking_nonceBound, hClean, (delivery_iff marking marking_nonceBound [1] _).mpr hClean⟩

/-- One byte more than fits. -/
def tooLarge : Bytes := replicate (2 ^ 20 + 49) 0

theorem not_fits_tooLarge : ¬ Fits tooLarge := by
  have hLength : tooLarge.length = 2 ^ 20 + 49 := length_replicate
  rw [Fits, hLength, maxFrameSize]
  omega

namespace Pipe

/-- The state after one `Write` that is refused. -/
def afterRefusal (big : Bytes) : Pipe :=
  { init [1] with writer := ⟨[1], [], 1, 0, [], []⟩, writes := [big] }

theorem idle_afterRefusal {big : Bytes} (hBig : ¬ Fits big) :
    (afterRefusal big).Idle [1] [big] := by
  have hNone : [big].filter (fun p => decide (Fits p)) = [] := by
    simp [hBig]
  refine ⟨rfl, rfl, rfl, ?_, rfl, rfl, rfl, rfl, rfl⟩
  rw [hNone]
  rfl

/-- A `Write` that is refused, and one that is accepted and not understood. -/
theorem exec_refusal {big : Bytes} (hBig : ¬ Fits big) :
    ∃ as s, Exec (stepOf (next marking)) (Pipe.init [1]) as s ∧
      s.writes = [big, [1]] ∧ s.accepted = [[1]] ∧ s.inFlight = [] ∧
      s.stream.ended = false ∧ s.reads = [.error .decryptFailed] := by
  have hFits : Fits [1] := by decide
  have hCount : (1 : UInt64) ≠ 0 := by decide
  have hRefused : Exec (stepOf (next marking)) (Pipe.init [1]) [.write big] (afterRefusal big) :=
    Exec.single (next_write_tooLarge rfl hBig)
  obtain ⟨as, hSent⟩ := (idle_afterRefusal hBig).exec_sent (A := marking) hFits
  have hRead := read_frame_bad marking (afterRefusal big).reader [] false 1 rfl hFits
    (marking_nonceBound [1] _ _ [1] hCount)
  rw [append_nil] at hRead
  exact ⟨_, _, (hRefused.trans hSent).snoc (sent_read one_ne_zero hRead),
    rfl, rfl, rfl, rfl, rfl⟩

end Pipe

/-- **The two ways in which it fails.** A `Write` of nothing succeeds, and the
reader is told that the stream has ended. And after a `Write` that was refused
the next one succeeds and cannot be decrypted. In both runs the network has
brought everything and the stream goes on. -/
theorem delivery_fails :
    (∃ as s, Exec (stepOf (Pipe.next marking)) (Pipe.init [1]) as s ∧
      s.writes = [[], [1]] ∧ s.accepted = [[], [1]] ∧ s.inFlight = [] ∧
      s.stream.ended = false ∧ s.reads = [.error .eof] ∧ ¬ s.Delivers marking) ∧
    (∃ as s, Exec (stepOf (Pipe.next marking)) (Pipe.init [1]) as s ∧
      s.writes = [tooLarge, [1]] ∧ s.accepted = [[1]] ∧ s.inFlight = [] ∧
      s.stream.ended = false ∧ s.reads = [.error .decryptFailed] ∧ ¬ s.Delivers marking) := by
  have hFails : ∀ (s : Pipe) e, s.stream.ended = false → s.reads = [.error e] →
      ¬ s.Delivers marking := by
    rintro s e hOpen hReads ⟨-, hErrors, -⟩
    have hMem : .error e ∈ s.reads := by
      rw [hReads]
      exact mem_singleton_self _
    rw [(hErrors e hMem).1] at hOpen
    cases hOpen
  constructor
  · have hRun : (runFrom (Pipe.next marking) (Pipe.init [1])
        [.write [], .write [1], .deliver 100, .read 1]).map
        (fun s => ((s.writes, s.accepted), (s.inFlight, s.stream.ended), s.reads)) =
        some (([[], [1]], [[], [1]]), ([], false), [.error .eof]) := by decide +kernel
    obtain ⟨s, hs, hEq⟩ := Option.map_eq_some_iff.mp hRun
    simp only [Prod.mk.injEq] at hEq
    obtain ⟨⟨hWrites, hAccepted⟩, ⟨hInFlight, hOpen⟩, hReads⟩ := hEq
    exact ⟨_, s, Exec.of_runFrom hs, hWrites, hAccepted, hInFlight, hOpen, hReads,
      hFails s _ hOpen hReads⟩
  · obtain ⟨as, s, hRun, hWrites, hAccepted, hInFlight, hOpen, hReads⟩ :=
      Pipe.exec_refusal not_fits_tooLarge
    exact ⟨as, s, hRun, hWrites, hAccepted, hInFlight, hOpen, hReads, hFails s _ hOpen hReads⟩

end AltNet
