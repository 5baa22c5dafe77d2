import AltNet.Lib.Unicode

/-!
# Text as Go handles it

A Go string that comes out of a JSON decoder is valid UTF-8, so it is the
same thing as a list of code points; `[]byte(s)` is injective on such
strings and orders them as their code points do. The functions below are
the parts of `strings`, `sort` and `fmt` that text normalisation uses,
under their Go names.

Main results:

* `trimSpace_space_cons` — leading white space does not survive trimming;
* `trimSpace_eq_self` — text without white space is left alone;
* `split_join` — a join of parts without the separator can be taken apart
  again.
-/

namespace AltNet

open List

/-- A Go string (valid UTF-8), as the list of its code points. -/
abbrev GoString := List Char

instance (s : GoString) (l : List GoString) : Decidable (s ∈ l) :=
  List.instDecidableMemOfLawfulBEq s l

/-- `strings.ToLower`. -/
def toLower (s : GoString) : GoString := s.map toLowerRune

/-- `strings.TrimSpace`. -/
def trimSpace (s : GoString) : GoString :=
  (s.dropWhile isSpaceRune).rdropWhile isSpaceRune

/-- `strings.ToLower(strings.TrimSpace(s))`, the normal form used for names,
hashes and keys. -/
def normalise (s : GoString) : GoString := toLower (trimSpace s)

/-- `strings.Join`. -/
def join (parts : List GoString) (sep : GoString) : GoString := sep.intercalate parts

/-- `strings.Split` by a separator of one character. -/
def split (s : GoString) (sep : Char) : List GoString := s.splitOn sep

/-- `strings.Fields`: what stands between white space. -/
def fields (s : GoString) : List GoString := (s.splitOnP isSpaceRune).filter (· ≠ [])

/-- `sort.Strings`. -/
def sortStrings (l : List GoString) : List GoString := l.insertionSort (· ≤ ·)

/-- A set of strings, in order. -/
def sortedStrings (s : Finset GoString) : List GoString := s.sort (· ≤ ·)

/-- `fmt.Sprintf("%d", n)`. -/
def formatInt : Int → GoString
  | .ofNat n => Nat.toDigits 10 n
  | .negSucc n => '-' :: Nat.toDigits 10 (n + 1)

/-! ## Trimming -/

theorem trimSpace_space_cons {c : Char} (hc : isSpaceRune c = true) (s : GoString) :
    trimSpace (c :: s) = trimSpace s := by
  rw [trimSpace, trimSpace, dropWhile_cons_of_pos hc]

theorem normalise_space_cons {c : Char} (hc : isSpaceRune c = true) (s : GoString) :
    normalise (c :: s) = normalise s := by
  rw [normalise, normalise, trimSpace_space_cons hc]

variable {l parts : List GoString} {s : GoString} {sep : Char}

/-- Text that neither starts nor ends with white space is left alone. -/
theorem trimSpace_of_ends (hHead : ∀ c ∈ s.head?, isSpaceRune c = false)
    (hLast : ∀ c ∈ s.getLast?, isSpaceRune c = false) : trimSpace s = s := by
  have hFront : s.dropWhile isSpaceRune = s := by
    cases s with
    | nil => rfl
    | cons c rest => simp [hHead c (by simp)]
  have hBack : s.rdropWhile isSpaceRune = s := by
    apply rdropWhile_eq_self_iff.mpr
    intro hne
    simp [hLast _ (getLast?_eq_getLast_of_ne_nil hne)]
  rw [trimSpace, hFront, hBack]

/-- Text without white space is left alone. -/
theorem trimSpace_eq_self (h : ∀ c ∈ s, isSpaceRune c = false) : trimSpace s = s :=
  trimSpace_of_ends (fun c hc => h c (mem_of_mem_head? hc))
    (fun c hc => h c (mem_of_mem_getLast? hc))

/-- Trimmed text does not start with white space. -/
theorem head_trimSpace (s : GoString) : ∀ c ∈ (trimSpace s).head?, isSpaceRune c = false := by
  intro c hc
  have hPre : trimSpace s <+: s.dropWhile isSpaceRune := rdropWhile_prefix _ _
  obtain ⟨rest, hRest⟩ := hPre
  have hHead : (s.dropWhile isSpaceRune).head? = some c := by
    rw [← hRest]
    cases hs : trimSpace s with
    | nil => rw [hs] at hc; cases hc
    | cons x xs => rw [hs] at hc; exact hc
  cases hDrop : s.dropWhile isSpaceRune with
  | nil => rw [hDrop] at hHead; cases hHead
  | cons x xs =>
    rw [hDrop] at hHead
    obtain rfl : x = c := by simpa using hHead
    have hNot := head_dropWhile_not isSpaceRune (l := s) (by rw [hDrop]; simp)
    simpa [hDrop] using hNot

/-- Nor does it end with white space. -/
theorem last_trimSpace (s : GoString) : ∀ c ∈ (trimSpace s).getLast?, isSpaceRune c = false := by
  intro c hc
  have hne : trimSpace s ≠ [] := by
    intro hNil
    rw [hNil] at hc
    cases hc
  rw [getLast?_eq_getLast_of_ne_nil hne] at hc
  have hLast := rdropWhile_last_not isSpaceRune (s.dropWhile isSpaceRune) hne
  obtain rfl : (trimSpace s).getLast hne = c := Option.some.inj hc
  exact Bool.eq_false_iff.mpr hLast

/-- What trimming takes away is white space. -/
theorem trimSpace_split (s : GoString) : ∃ w₁ w₂, s = w₁ ++ trimSpace s ++ w₂ ∧
    (∀ c ∈ w₁, isSpaceRune c = true) ∧ ∀ c ∈ w₂, isSpaceRune c = true := by
  refine ⟨s.takeWhile isSpaceRune, (s.dropWhile isSpaceRune).rtakeWhile isSpaceRune, ?_,
    fun c hc => mem_takeWhile_imp hc, fun c hc => mem_rtakeWhile_imp hc⟩
  rw [trimSpace, append_assoc, rdropWhile_append_rtakeWhile,
    takeWhile_append_dropWhile]

theorem rdropWhile_map {α β : Type} (f : α → β) (p : β → Bool) (l : List α) :
    (l.map f).rdropWhile p = (l.rdropWhile (p ∘ f)).map f := by
  simp only [List.rdropWhile, ← map_reverse, dropWhile_map]

/-- It does not matter whether text is lowered or trimmed first. -/
theorem trimSpace_toLower (s : GoString) : trimSpace (toLower s) = toLower (trimSpace s) := by
  have hSpace : isSpaceRune ∘ toLowerRune = isSpaceRune := funext toLowerRune_isSpace
  rw [trimSpace, toLower, dropWhile_map, rdropWhile_map, hSpace]
  rfl

@[simp] theorem toLower_idem (s : GoString) : toLower (toLower s) = toLower s := by
  simp [toLower, toLowerRune_idem]

/-- Lowering does not change which ends are white space. -/
theorem head_toLower (h : ∀ c ∈ s.head?, isSpaceRune c = false) :
    ∀ c ∈ (toLower s).head?, isSpaceRune c = false := by
  intro c hc
  rw [toLower, head?_map, Option.mem_map] at hc
  obtain ⟨d, hd, rfl⟩ := hc
  rw [toLowerRune_isSpace, h d hd]

theorem last_toLower (h : ∀ c ∈ s.getLast?, isSpaceRune c = false) :
    ∀ c ∈ (toLower s).getLast?, isSpaceRune c = false := by
  intro c hc
  rw [toLower, getLast?_map, Option.mem_map] at hc
  obtain ⟨d, hd, rfl⟩ := hc
  rw [toLowerRune_isSpace, h d hd]

/-- A normal form has no white space around it. -/
@[simp] theorem trimSpace_normalise (s : GoString) : trimSpace (normalise s) = normalise s :=
  trimSpace_of_ends (head_toLower (head_trimSpace s)) (last_toLower (last_trimSpace s))

/-- A normal form is its own normal form. -/
@[simp] theorem normalise_idem (s : GoString) : normalise (normalise s) = normalise s := by
  have hTrim := trimSpace_normalise s
  unfold normalise at hTrim ⊢
  rw [hTrim, toLower_idem]

/-! ## Sorting -/

/-- The sorted list does not depend on the order. -/
theorem sortStrings_perm {l' : List GoString} (h : l.Perm l') : sortStrings l = sortStrings l' := by
  apply List.Perm.eq_of_sortedLE sortedLE_insertionSort sortedLE_insertionSort
  exact (perm_insertionSort _ l).trans (h.trans (perm_insertionSort _ l').symm)

theorem perm_sortStrings (l : List GoString) : (sortStrings l).Perm l :=
  perm_insertionSort _ l

theorem mem_sortStrings : s ∈ sortStrings l ↔ s ∈ l :=
  (perm_insertionSort _ l).mem_iff

theorem mem_sortedStrings {s : Finset GoString} {k : GoString} : k ∈ sortedStrings s ↔ k ∈ s :=
  Finset.mem_sort _

theorem nodup_sortedStrings (s : Finset GoString) : (sortedStrings s).Nodup :=
  Finset.sort_nodup _ _

theorem sortStrings_eq_nil : sortStrings l = [] ↔ l = [] := by
  rw [← length_eq_zero_iff, ← length_eq_zero_iff, sortStrings,
    length_insertionSort]

/-! ## Numbers -/

theorem notMem_toDigits {c : Char} (hc : c.isDigit = false) (m : Nat) :
    c ∉ Nat.toDigits 10 m := fun hMem => by
  rw [Nat.isDigit_of_mem_toDigits (by omega) (by omega) hMem] at hc
  cases hc

/-- A printed number is one line. -/
theorem formatInt_no_newline (n : Int) : '\n' ∉ formatInt n := by
  cases n with
  | ofNat m => exact notMem_toDigits rfl m
  | negSucc m =>
    intro hmem
    rcases mem_cons.mp hmem with h | h
    · revert h
      decide
    · exact notMem_toDigits rfl _ h

/-! ## Splitting and joining -/

/-- No part of a text that is split has the separator. -/
theorem not_mem_of_mem_split {part : GoString} (h : part ∈ split s sep) : sep ∉ part := by
  induction s generalizing part with
  | nil =>
    rw [split, splitOn_nil, mem_singleton] at h
    simp [h]
  | cons c cs ih =>
    rw [split, splitOn_cons_eq_if_modifyHead] at h
    split at h
    · rcases mem_cons.mp h with rfl | hRest
      · simp
      · exact ih hRest
    rename_i hOther
    have hNe : sep ≠ c := fun hEq => hOther (beq_iff_eq.mpr hEq.symm)
    cases hSplit : cs.splitOn sep with
    | nil => exact absurd hSplit (splitOn_ne_nil _ _)
    | cons first rest =>
      have hParts : ∀ part ∈ first :: rest, sep ∉ part :=
        fun part hMem => ih (by rw [split, hSplit]; exact hMem)
      rw [hSplit, modifyHead_cons] at h
      rcases mem_cons.mp h with rfl | hRest
      · exact not_mem_cons_of_ne_of_not_mem hNe (hParts first mem_cons_self)
      · exact hParts part (mem_cons_of_mem _ hRest)

/-- Joining undoes splitting. -/
theorem join_split (s : GoString) (sep : Char) : join (split s sep) [sep] = s :=
  intercalate_splitOn sep

/-- Splitting undoes joining when no part has the separator; the empty list is
the one exception, as it reads back as one empty part. -/
theorem split_join (hNe : parts ≠ []) (h : ∀ part ∈ parts, sep ∉ part) :
    split (join parts [sep]) sep = parts :=
  splitOn_intercalate sep h hNe

/-- A text with a separator after its first part is the join of that part and
the rest. -/
theorem join_cons_cons (sep : Char) (a b : GoString) (rest : List GoString) :
    join (a :: b :: rest) [sep] = a ++ sep :: join (b :: rest) [sep] := by
  simp [join, List.intercalate]

/-- A text that is empty, or begins or ends with the separator, has an empty
part. -/
theorem nil_mem_split (h : s = [] ∨ s.head? = some sep ∨ s.getLast? = some sep) :
    [] ∈ split s sep := by
  rcases h with rfl | hHead | hLast
  · exact mem_singleton_self _
  · obtain ⟨rest, rfl⟩ := head?_eq_some_iff.mp hHead
    rw [split, ← nil_append (sep :: rest), splitOn_append_cons_self]
    exact mem_append_left _ (mem_singleton_self _)
  · obtain ⟨front, rfl⟩ := getLast?_eq_some_iff.mp hLast
    rw [split, splitOn_append_cons_self]
    exact mem_append_right _ (mem_singleton_self _)

theorem mem_join {x : Char} (h : x ∈ join parts [sep]) : x = sep ∨ ∃ part ∈ parts, x ∈ part := by
  induction parts with
  | nil => cases h
  | cons part rest ih =>
    cases rest with
    | nil => exact .inr ⟨part, mem_cons_self, by simpa [join] using h⟩
    | cons part' rest =>
      rw [join_cons_cons, mem_append, mem_cons] at h
      rcases h with hHere | hSep | hRest
      · exact .inr ⟨part, mem_cons_self, hHere⟩
      · exact .inl hSep
      · obtain hSep | ⟨part, hMem, hx⟩ := ih hRest
        · exact .inl hSep
        · exact .inr ⟨part, mem_cons_of_mem _ hMem, hx⟩

theorem mem_join_of_mem {part : GoString} {x : Char} (hPart : part ∈ parts) (hx : x ∈ part) :
    x ∈ join parts [sep] := by
  induction parts with
  | nil => cases hPart
  | cons first rest ih =>
    cases rest with
    | nil =>
      rw [mem_singleton.mp hPart] at hx
      simpa [join] using hx
    | cons second rest =>
      rw [join_cons_cons, mem_append, mem_cons]
      rcases mem_cons.mp hPart with rfl | hRest
      · exact .inl hx
      · exact .inr (.inr (ih hRest))

end AltNet
