import AltNet.Relay.Pipe

/-!
# AltNet — control lines (`core/relay/protocol.go`)

`MaxLineSize` bounds a control line, and the two functions that move lines apply
it to different things. `writeLine` measures the line, `readLine` the line with
its line feed; so a line of exactly `MaxLineSize` bytes is sent and not read. And
where the stream ends before a line feed comes, `readLine` takes what there is
for the line and does not measure it.

Main results:

* `readLine_feed`, `readLine_end` — what `readLine` makes of a stream with and
  without a line feed;
* `End.readResponse_eq`, `End.readCommand_eq` — both ends of a tunnel read their
  first line so;
* `control_lines_iff` — which lines come back, and which streams yield no line
  that is too long;
* `control_lines_unbounded` — a line that is lost, and one that is too long.
-/

namespace AltNet.Relay

open List

/-- An error of a connection: the end of the stream, or any other. -/
inductive ReadFailure where
  | eof
  | other (text : GoString)
  deriving DecidableEq

inductive LineError where
  | read (e : ReadFailure)
  | tooLong
  deriving DecidableEq

/-- A `bufio.Reader`: the bytes that it has or gets from the connection, and the
error that comes after them; without one it waits for more. -/
structure LineReader where
  pending : Bytes
  failure : Option ReadFailure
  deriving DecidableEq

namespace LineReader

/-- `ReadString('\n')`: what was read, the error if there is one, and the reader
afterwards. -/
def readString (r : LineReader) : Option (Bytes × Option ReadFailure × LineReader) :=
  match splitLine r.pending with
  | some (line, rest) => some (line, none, { r with pending := rest })
  | none => r.failure.map fun e => (r.pending, some e, { r with pending := [] })

/-- `readLine`. -/
def readLine (r : LineReader) : Option (Except LineError Bytes × LineReader) :=
  r.readString.map fun
    | (line, some e, r) =>
      (if e = .eof ∧ line ≠ [] then .ok (trimLine line) else .error (.read e), r)
    | (line, none, r) =>
      (if maxLineSize < line.length then .error .tooLong else .ok (trimLine line), r)

end LineReader

open LineReader

/-- `writeLine`: the bytes that it hands to the writer. -/
def writeLine (line : Bytes) : Except LineError Bytes :=
  if maxLineSize < line.length then .error .tooLong else .ok (line ++ [lineFeed])

/-! ## One line -/

theorem readLine_feed {body : Bytes} (rest : Bytes) (failure : Option ReadFailure)
    (hBody : lineFeed ∉ body) :
    (mk (body ++ lineFeed :: rest) failure).readLine =
      some (if maxLineSize ≤ body.length then .error .tooLong
        else .ok (trimLine (body ++ [lineFeed])), ⟨rest, failure⟩) := by
  simp only [readLine, readString, splitLine_line rest hBody,
    Option.map_some, length_append, length_singleton, Nat.lt_succ_iff]

theorem readLine_end {r : LineReader} (hNone : lineFeed ∉ r.pending) :
    r.readLine = r.failure.map fun e =>
      (if e = .eof ∧ r.pending ≠ [] then .ok (trimLine r.pending) else .error (.read e),
        { r with pending := [] }) := by
  rw [readLine, readString, splitLine_eq_none_iff.mpr hNone, Option.map_map]
  rfl

/-- A line that was written comes back, unless it has the greatest length that is
accepted. -/
theorem readLine_written_iff {line : Bytes} (rest : Bytes) (failure : Option ReadFailure)
    (hReturn : carriageReturn ∉ line) (hFeed : lineFeed ∉ line) :
    (∀ bytes, writeLine line = .ok bytes →
      (mk (bytes ++ rest) failure).readLine = some (.ok line, ⟨rest, failure⟩)) ↔
      line.length ≠ maxLineSize := by
  have hRead := readLine_feed rest failure hFeed
  rw [trimLine_line hReturn hFeed] at hRead
  constructor
  · intro hAll hLength
    have hWritten : writeLine line = .ok (line ++ [lineFeed]) := if_neg (by omega)
    have hBack := hAll _ hWritten
    rw [append_assoc, singleton_append, hRead, if_pos hLength.ge] at hBack
    cases hBack
  · intro hLength bytes hWritten
    unfold writeLine at hWritten
    split at hWritten
    · cases hWritten
    · cases hWritten
      rw [append_assoc, singleton_append, hRead, if_neg (by omega)]

/-- The lines that `readLine` returns are within the bound, unless the stream ends
without a line feed and has something to keep after the bound. -/
theorem readLine_bounded_iff (r : LineReader) :
    (∀ line r', r.readLine = some (.ok line, r') → line.length ≤ maxLineSize) ↔
      lineFeed ∈ r.pending ∨ r.failure ≠ some .eof ∨
        ∀ b ∈ r.pending.drop maxLineSize, b = carriageReturn := by
  obtain ⟨pending, failure⟩ := r
  by_cases hFeed : lineFeed ∈ pending
  · refine iff_of_true ?_ (.inl hFeed)
    intro line r' hLine
    obtain ⟨⟨_, rest⟩, hSplit⟩ :=
      Option.ne_none_iff_exists'.mp fun hNone => splitLine_eq_none_iff.mp hNone hFeed
    obtain ⟨body, hBody, -, rfl⟩ := splitLine_some hSplit
    rw [readLine_feed rest failure hBody] at hLine
    split at hLine
    · cases hLine
    cases hLine
    have hTrim : trimLine (body ++ [lineFeed]) <+: body ++ [lineFeed] :=
      rdropWhile_prefix _ _
    have hLength := hTrim.length_le
    rw [length_append, length_singleton] at hLength
    omega
  · rw [or_iff_right hFeed, readLine_end hFeed]
    cases failure with
    | none => exact iff_of_true nofun (.inl nofun)
    | some e =>
      by_cases hEnd : e = .eof ∧ pending ≠ []
      · rw [Option.map_some, if_pos hEnd, hEnd.1, or_iff_right (not_not.mpr rfl)]
        have hReturns : (∀ b ∈ pending.drop maxLineSize, b = carriageReturn ∨ b = lineFeed) ↔
            ∀ b ∈ pending.drop maxLineSize, b = carriageReturn := by
          refine forall₂_congr fun b hb => or_iff_left ?_
          rintro rfl
          exact hFeed (mem_of_mem_drop hb)
        rw [← hReturns, ← length_trimLine_le_iff]
        refine ⟨fun h => h _ _ rfl, ?_⟩
        intro hShort line r' hLine
        cases hLine
        exact hShort
      · rw [Option.map_some, if_neg hEnd]
        refine iff_of_true nofun ?_
        rcases not_and_or.mp hEnd with hOther | hNil
        · exact .inl fun hEq => hOther (Option.some.inj hEq)
        · rw [not_not.mp hNil]
          exact .inr nofun

/-! ## The first lines of a tunnel -/

theorem End.readResponse_eq (e : End) (seen : Bytes) :
    e.readResponse seen =
      (LineReader.mk seen none).readLine.elim { e with client := .awaiting seen } fun p =>
        p.1.toOption.elim { e with client := .closed } fun line => e.respond line p.2.pending := by
  unfold End.readResponse LineReader.readLine LineReader.readString
  cases splitLine seen with
  | none => rfl
  | some p =>
    dsimp only [Option.map_some, Option.elim_some]
    split <;> rfl

theorem End.readCommand_eq (e : End) (seen : Bytes) :
    e.readCommand seen =
      (LineReader.mk seen none).readLine.elim { e with leg := .reading seen } fun p =>
        p.1.toOption.elim { e with leg := .closed } e.dispatch := by
  unfold End.readCommand LineReader.readLine LineReader.readString
  cases splitLine seen with
  | none => rfl
  | some p =>
    dsimp only [Option.map_some, Option.elim_some]
    split <;> rfl

/-! ## Both functions together -/

/-- **Control lines and their bound.** A line without carriage return and line
feed that `writeLine` accepts is what `readLine` returns for the bytes that were
written, whatever follows them, if and only if it is not of exactly `MaxLineSize`
bytes. And no line that `readLine` returns for a stream is longer than
`MaxLineSize`, if and only if the stream has a line feed, or does not come to its
end, or has nothing but carriage returns after the first `MaxLineSize` bytes. -/
theorem control_lines_iff (line rest : Bytes) (failure : Option ReadFailure) (r : LineReader)
    (hReturn : carriageReturn ∉ line) (hFeed : lineFeed ∉ line) :
    ((∀ bytes, writeLine line = .ok bytes →
        (mk (bytes ++ rest) failure).readLine = some (.ok line, ⟨rest, failure⟩)) ↔
      line.length ≠ maxLineSize) ∧
    ((∀ line r', r.readLine = some (.ok line, r') → line.length ≤ maxLineSize) ↔
      lineFeed ∈ r.pending ∨ r.failure ≠ some .eof ∨
        ∀ b ∈ r.pending.drop maxLineSize, b = carriageReturn) :=
  ⟨readLine_written_iff rest failure hReturn hFeed, readLine_bounded_iff r⟩

/-- The theorem on the response `OK`, with a byte of the tunnel after it, and on
the same response without its line feed. -/
theorem control_lines_ok :
    (mk (okBytes ++ [7]) none).readLine = some (.ok (textBytes respOK), ⟨[7], none⟩) ∧
    ∀ line r', (mk (textBytes respOK) (some .eof)).readLine = some (.ok line, r') →
      line.length ≤ maxLineSize := by
  obtain ⟨hBack, hBounded⟩ := control_lines_iff (textBytes respOK) [7] none
    ⟨textBytes respOK, some .eof⟩ (by decide) (by decide)
  exact ⟨hBack.mpr (by decide) _ rfl, hBounded.mpr (Or.inr (Or.inr (by decide +kernel)))⟩

/-- **The bound at its edge.** `writeLine` sends a line of 256 bytes, and `readLine`
rejects it. Of 257 bytes at the end of a stream it makes a line of 257 bytes. -/
theorem control_lines_unbounded :
    (∃ bytes, writeLine (replicate 256 97) = .ok bytes ∧
      (mk bytes none).readLine = some (.error .tooLong, ⟨[], none⟩)) ∧
    (mk (replicate 257 97) (some .eof)).readLine =
      some (.ok (replicate 257 97), ⟨[], some .eof⟩) ∧
    maxLineSize < (replicate 257 (97 : UInt8)).length := by
  refine ⟨⟨replicate 256 97 ++ [lineFeed], ?_, ?_⟩, ?_, ?_⟩
  · decide +kernel
  · decide +kernel
  · decide +kernel
  · decide +kernel

end AltNet.Relay
