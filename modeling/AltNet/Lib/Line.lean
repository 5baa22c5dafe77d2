import AltNet.Lib.Hex

/-!
# Lines of a byte stream

Go's `bufio.Reader.ReadString` with a line feed as its delimiter: it reads from
the stream, in pieces of any size, until it has seen a line feed. What has come
with the last piece after the line feed stays in the buffer of the reader.
`splitLine` says what it makes of the bytes seen so far.

Main results:

* `splitLine_line` — the line ends at the first line feed, whatever follows;
* `splitLine_some`, `splitLine_eq_none_iff` — what was found, and when nothing is;
* `line_unique` — bytes begin with one line only;
* `trimLine_line`, `length_trimLine_le_iff` — what is left of a line.
-/

namespace AltNet

open List

def lineFeed : UInt8 := 10

def carriageReturn : UInt8 := 13

/-- The first line, with its line feed, and what follows. -/
def splitLine : Bytes → Option (Bytes × Bytes)
  | [] => none
  | b :: bs =>
    if b = lineFeed then some ([b], bs) else (splitLine bs).map fun p => (b :: p.1, p.2)

/-- `strings.TrimRight(line, "\r\n")`. -/
def trimLine (line : Bytes) : Bytes :=
  line.rdropWhile fun b => b = carriageReturn ∨ b = lineFeed

theorem splitLine_line {body : Bytes} (rest : Bytes) (hBody : lineFeed ∉ body) :
    splitLine (body ++ lineFeed :: rest) = some (body ++ [lineFeed], rest) := by
  induction body with
  | nil => rfl
  | cons b body ih =>
    rw [mem_cons, not_or] at hBody
    rw [cons_append, splitLine, if_neg fun h => hBody.1 h.symm, ih hBody.2]
    rfl

theorem splitLine_some {bs line rest : Bytes} (h : splitLine bs = some (line, rest)) :
    ∃ body, lineFeed ∉ body ∧ line = body ++ [lineFeed] ∧ bs = body ++ lineFeed :: rest := by
  induction bs generalizing line with
  | nil => cases h
  | cons b bs ih =>
    rw [splitLine] at h
    split at h
    case isTrue hFeed =>
      obtain ⟨rfl, rfl⟩ := Prod.mk.inj (Option.some.inj h)
      exact ⟨[], not_mem_nil, by rw [hFeed]; rfl, by rw [hFeed]; rfl⟩
    case isFalse hOther =>
      obtain ⟨⟨line', rest'⟩, hSplit, hEq⟩ := Option.map_eq_some_iff.mp h
      obtain ⟨rfl, rfl⟩ := Prod.mk.inj hEq
      obtain ⟨body, hBody, rfl, rfl⟩ := ih hSplit
      refine ⟨b :: body, ?_, rfl, rfl⟩
      rw [mem_cons, not_or]
      exact ⟨fun h => hOther h.symm, hBody⟩

theorem splitLine_eq_none_iff {bs : Bytes} : splitLine bs = none ↔ lineFeed ∉ bs := by
  induction bs with
  | nil => exact iff_of_true rfl not_mem_nil
  | cons b bs ih =>
    rw [splitLine, mem_cons, not_or]
    split
    case isTrue hFeed => exact iff_of_false nofun fun h => h.1 hFeed.symm
    case isFalse hOther =>
      rw [Option.map_eq_none_iff, ih]
      exact (and_iff_right fun hFeed => hOther hFeed.symm).symm

theorem line_unique {body body' rest rest' : Bytes} (hBody : lineFeed ∉ body)
    (hBody' : lineFeed ∉ body')
    (h : body ++ lineFeed :: rest = body' ++ lineFeed :: rest') : body = body' ∧ rest = rest' := by
  have hSplit := splitLine_line rest hBody
  rw [h, splitLine_line rest' hBody'] at hSplit
  obtain ⟨hLine, hRest⟩ := Prod.mk.inj (Option.some.inj hSplit)
  exact ⟨(append_cancel_right hLine).symm, hRest.symm⟩

theorem trimLine_line {body : Bytes} (hReturn : carriageReturn ∉ body) (hFeed : lineFeed ∉ body) :
    trimLine (body ++ [lineFeed]) = body := by
  rw [trimLine, rdropWhile_concat_pos _ _ _ (by decide), rdropWhile_eq_self_iff]
  intro hNe hLast
  have hMem := getLast_mem hNe
  rcases of_decide_eq_true hLast with hEq | hEq
  · exact hReturn (hEq ▸ hMem)
  · exact hFeed (hEq ▸ hMem)

/-- A line keeps at most `n` bytes if those after the first `n` are all trimmed. -/
theorem length_trimLine_le_iff {bs : Bytes} {n : Nat} :
    (trimLine bs).length ≤ n ↔ ∀ b ∈ bs.drop n, b = carriageReturn ∨ b = lineFeed := by
  induction bs using List.reverseRecOn with
  | nil => simp [trimLine]
  | append_singleton bs x ih =>
    by_cases hx : x = carriageReturn ∨ x = lineFeed
    · rw [trimLine, rdropWhile_concat_pos _ _ _ (by simpa using hx), ← trimLine, ih,
        drop_append]
      refine ⟨fun h b hb => ?_, fun h b hb => h b (mem_append_left _ hb)⟩
      rcases mem_append.mp hb with hOld | hNew
      · exact h b hOld
      · rwa [mem_singleton.mp (mem_of_mem_drop hNew)]
    · rw [trimLine, rdropWhile_concat_neg _ _ _ (by simpa using hx), length_append,
        length_singleton]
      constructor
      · intro hShort b hb
        rw [drop_eq_nil_of_le (by simpa using hShort)] at hb
        cases hb
      · intro hAll
        by_contra hLong
        refine hx (hAll x ?_)
        rw [drop_append_of_le_length (by omega)]
        exact mem_append_right _ (mem_singleton_self x)

end AltNet
