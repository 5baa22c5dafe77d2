import AltNet.Lib.Utf8

/-!
# Byte strings as text

A Go string may hold any bytes. The functions of `strings` read it code point
by code point, and take a byte that begins no valid encoding for one
`utf8.RuneError`. `strings.TrimSpace` leaves such bytes as they are;
`strings.ToLower` writes the code points again, so after it the string is
valid UTF-8.

Main results:

* `decodeUtf8_trimSpaceBytes`, `toLowerBytes` — trimming and lowering bytes is
  trimming and lowering the code points;
* `splitOn_utf8` — splitting at an ASCII character too.
-/

namespace AltNet

open List

/-- The code points of a byte string with their bytes, after its first `skip`
bytes. -/
def runesFrom : Nat → Bytes → List (Char × Bytes)
  | _, [] => []
  | skip + 1, _ :: bs => runesFrom skip bs
  | 0, b :: bs =>
    match decodeRune (b :: bs) with
    | some c => (c, String.utf8EncodeChar c) :: runesFrom (c.utf8Size - 1) bs
    | none => (runeError, [b]) :: runesFrom 0 bs

def runes (bs : Bytes) : List (Char × Bytes) := runesFrom 0 bs

/-- The bytes of code points. -/
def runeBytes (rs : List (Char × Bytes)) : Bytes := rs.flatMap Prod.snd

/-- `strings.TrimSpace`. -/
def trimSpaceBytes (bs : Bytes) : Bytes :=
  runeBytes (((runes bs).dropWhile fun r => isSpaceRune r.1).rdropWhile fun r => isSpaceRune r.1)

/-- `strings.ToLower`. -/
def toLowerBytes (bs : Bytes) : Bytes := utf8 (toLower (decodeUtf8 bs))

/-! ## Code points with their bytes -/

/-- Code points as they are read from their bytes. -/
inductive Decoded : List (Char × Bytes) → Prop
  | nil : Decoded []
  | valid {rs : List (Char × Bytes)} (c : Char) (h : Decoded rs) :
      Decoded ((c, String.utf8EncodeChar c) :: rs)
  | bad {rs : List (Char × Bytes)} (b : UInt8) (hBad : decodeRune (b :: runeBytes rs) = none)
      (h : Decoded rs) : Decoded ((runeError, [b]) :: rs)

theorem runesFrom_fst (skip : Nat) (bs : Bytes) :
    (runesFrom skip bs).map Prod.fst = decodeFrom skip bs := by
  induction bs generalizing skip with
  | nil => cases skip <;> rfl
  | cons b bs ih =>
    cases skip with
    | succ skip => exact ih skip
    | zero =>
      rw [runesFrom, decodeFrom]
      cases decodeRune (b :: bs) with
      | none => exact congrArg (runeError :: ·) (ih 0)
      | some c => exact congrArg (c :: ·) (ih (c.utf8Size - 1))

theorem runes_fst (bs : Bytes) : (runes bs).map Prod.fst = decodeUtf8 bs := runesFrom_fst 0 bs

variable {a c : Char}

/-- A code point that is read is there with all its bytes. -/
theorem eq_of_decodeRune {bs : Bytes} (h : decodeRune bs = some c) :
    ∃ rest, bs = String.utf8EncodeChar c ++ rest := by
  obtain ⟨l, hl⟩ := ByteArray.exists_of_utf8DecodeChar?_eq_some h
  refine ⟨l.data.toList, ?_⟩
  have hData := congrArg (fun a => a.data.toList) hl
  simpa using hData

theorem decodeRune_append {bs : Bytes} (h : decodeRune bs = some c) (rest : Bytes) :
    decodeRune (bs ++ rest) = some c := by
  rw [decodeRune, toByteArray_append]
  exact ByteArray.utf8DecodeChar?_append_eq_some h _

theorem runesFrom_skip (bs rest : Bytes) : runesFrom bs.length (bs ++ rest) = runes rest := by
  induction bs with
  | nil => rfl
  | cons b bs ih => exact ih

theorem utf8EncodeChar_ne_nil (c : Char) : String.utf8EncodeChar c ≠ [] := by
  intro hNil
  have hLength := String.length_utf8EncodeChar c
  rw [hNil] at hLength
  exact absurd hLength (Char.utf8Size_pos c).ne

theorem runes_utf8EncodeChar (c : Char) (bs : Bytes) :
    runes (String.utf8EncodeChar c ++ bs) = (c, String.utf8EncodeChar c) :: runes bs := by
  have hRune := decodeRune_utf8EncodeChar c bs
  have hLength := String.length_utf8EncodeChar c
  cases hBytes : String.utf8EncodeChar c with
  | nil => exact absurd hBytes (utf8EncodeChar_ne_nil c)
  | cons b more =>
    rw [hBytes, cons_append] at hRune
    rw [hBytes, length_cons] at hLength
    have hMore : c.utf8Size - 1 = more.length := by omega
    rw [cons_append, runes, runesFrom, hRune]
    dsimp only
    rw [hMore, runesFrom_skip, hBytes]

/-- The bytes of a string are those of its code points. -/
theorem runes_spec (bs : Bytes) : runeBytes (runes bs) = bs ∧ Decoded (runes bs) := by
  induction hLength : bs.length using Nat.strong_induction_on generalizing bs with
  | _ n ih =>
    cases bs with
    | nil => exact ⟨rfl, .nil⟩
    | cons b bs =>
      cases hRune : decodeRune (b :: bs) with
      | none =>
        obtain ⟨hBytes, hDecoded⟩ := ih bs.length (by rw [← hLength]; simp) bs rfl
        have hRunes : runes (b :: bs) = (runeError, [b]) :: runes bs := by
          rw [runes, runesFrom, hRune]
          rfl
        rw [hRunes]
        refine ⟨?_, .bad b (by rw [hBytes, hRune]) hDecoded⟩
        rw [runeBytes, flatMap_cons]
        exact congrArg (b :: ·) hBytes
      | some c =>
        obtain ⟨rest, hRest⟩ := eq_of_decodeRune hRune
        have hShort : rest.length < n := by
          rw [← hLength, hRest, length_append, String.length_utf8EncodeChar]
          have := Char.utf8Size_pos c
          omega
        obtain ⟨hBytes, hDecoded⟩ := ih rest.length hShort rest rfl
        rw [hRest, runes_utf8EncodeChar]
        refine ⟨?_, .valid c hDecoded⟩
        rw [runeBytes, flatMap_cons]
        exact congrArg (String.utf8EncodeChar c ++ ·) hBytes

namespace Decoded

theorem runes_eq {rs : List (Char × Bytes)} (h : Decoded rs) : runes (runeBytes rs) = rs := by
  induction h with
  | nil => rfl
  | valid c h ih =>
    rw [runeBytes, flatMap_cons, runes_utf8EncodeChar]
    exact congrArg _ ih
  | bad b hBad h ih =>
    rw [runeBytes, flatMap_cons]
    show runes (b :: runeBytes _) = _
    rw [runes, runesFrom, hBad]
    exact congrArg _ ih

theorem of_suffix {rs ts : List (Char × Bytes)} (h : Decoded (rs ++ ts)) : Decoded ts := by
  induction rs with
  | nil => exact h
  | cons r rs ih =>
    cases h with
    | valid c h => exact ih h
    | bad b hBad h => exact ih h

/-- Code points are read alike when what comes after them is cut off. -/
theorem of_prefix {rs ts : List (Char × Bytes)} (h : Decoded (rs ++ ts)) : Decoded rs := by
  induction rs with
  | nil => exact .nil
  | cons r rs ih =>
    cases h with
    | valid c h => exact .valid c (ih h)
    | bad b hBad h =>
      refine .bad b ?_ (ih h)
      by_contra hSome
      obtain ⟨c, hc⟩ := Option.ne_none_iff_exists'.mp hSome
      have hLonger := decodeRune_append hc (runeBytes ts)
      have hBytes : runeBytes (rs ++ ts) = runeBytes rs ++ runeBytes ts := flatMap_append
      have hNone : decodeRune (b :: runeBytes (rs ++ ts)) = none := hBad
      rw [hBytes] at hNone
      cases hLonger.symm.trans hNone

end Decoded

/-- **Trimming bytes trims the code points.** -/
theorem decodeUtf8_trimSpaceBytes (bs : Bytes) :
    decodeUtf8 (trimSpaceBytes bs) = trimSpace (decodeUtf8 bs) := by
  -- What is left of the code points are some in a row.
  have hLeft : Decoded ((runes bs).dropWhile fun r => isSpaceRune r.1) := by
    have hAll := (runes_spec bs).2
    obtain ⟨front, hFront⟩ := dropWhile_suffix (fun r : Char × Bytes => isSpaceRune r.1)
      (l := runes bs)
    rw [← hFront] at hAll
    exact hAll.of_suffix
  have hTrimmed : Decoded (((runes bs).dropWhile fun r => isSpaceRune r.1).rdropWhile
      fun r => isSpaceRune r.1) := by
    obtain ⟨rest, hRest⟩ := rdropWhile_prefix (fun r : Char × Bytes => isSpaceRune r.1)
      ((runes bs).dropWhile fun r => isSpaceRune r.1)
    rw [← hRest] at hLeft
    exact hLeft.of_prefix
  rw [trimSpaceBytes, ← runes_fst, hTrimmed.runes_eq, trimSpace, ← runes_fst, dropWhile_map,
    rdropWhile_map]
  rfl

/-! ## ASCII -/

/-- The bytes of a code point beyond ASCII are beyond ASCII too. -/
theorem utf8EncodeChar_ascii {b : UInt8} (hb : b ∈ String.utf8EncodeChar c)
    (hAscii : b.toNat < 0x80) : String.utf8EncodeChar c = [b] ∧ c.toNat = b.toNat := by
  have hHigh : ∀ n, 0x80 ≤ n → n < 0x100 → b ≠ UInt8.ofNat n := by
    rintro n hLow hTop rfl
    rw [UInt8.toNat_ofNat', Nat.mod_eq_of_lt hTop] at hAscii
    omega
  unfold String.utf8EncodeChar at hb ⊢
  dsimp only at hb ⊢
  split at hb
  · rename_i hSmall
    rw [if_pos hSmall, mem_singleton.mp hb]
    refine ⟨rfl, ?_⟩
    rw [UInt8.toNat_ofNat', Nat.mod_eq_of_lt (Nat.lt_of_le_of_lt hSmall (by decide))]
    rfl
  · exfalso
    split at hb
    · simp only [mem_cons, not_mem_nil, or_false] at hb
      rcases hb with hb | hb <;> exact hHigh _ (by omega) (by omega) hb
    split at hb
    · simp only [mem_cons, not_mem_nil, or_false] at hb
      rcases hb with hb | hb | hb <;> exact hHigh _ (by omega) (by omega) hb
    · simp only [mem_cons, not_mem_nil, or_false] at hb
      rcases hb with hb | hb | hb | hb <;> exact hHigh _ (by omega) (by omega) hb

/-- An ASCII character as a byte. -/
def asciiByte (c : Char) : UInt8 := UInt8.ofNat c.toNat

theorem utf8EncodeChar_of_ascii (h : c.toNat < 0x80) : String.utf8EncodeChar c = [asciiByte c] := by
  have hSmall : c.val.toNat ≤ 0x7f := Nat.le_of_lt_succ h
  unfold String.utf8EncodeChar
  dsimp only
  rw [if_pos hSmall]
  rfl

variable (ha : a.toNat < 0x80)

include ha

/-- **The byte of an ASCII character** stands for that character only. -/
theorem asciiByte_mem_utf8EncodeChar : asciiByte a ∈ String.utf8EncodeChar c ↔ c = a := by
  have hByte : (asciiByte a).toNat = a.toNat := by
    rw [asciiByte, UInt8.toNat_ofNat', Nat.mod_eq_of_lt (Nat.lt_trans ha (by decide))]
  constructor
  · intro hMem
    have hSame := (utf8EncodeChar_ascii hMem (by rw [hByte]; exact ha)).2
    exact Char.ext (UInt32.toNat_inj.mp (hSame.trans hByte))
  · rintro rfl
    rw [utf8EncodeChar_of_ascii ha]
    exact mem_singleton_self _

theorem utf8_join (parts : List GoString) :
    utf8 (join parts [a]) = [asciiByte a].intercalate (parts.map utf8) := by
  induction parts with
  | nil => rfl
  | cons part rest ih =>
    cases rest with
    | nil => simp [join]
    | cons part' rest =>
      rw [join_cons_cons, utf8_append, utf8_cons, ih, utf8EncodeChar_of_ascii ha]
      simp [intercalate_cons_cons]

/-- **Splitting bytes at an ASCII character** splits the text. -/
theorem splitOn_utf8 (s : GoString) : (utf8 s).splitOn (asciiByte a) = (split s a).map utf8 := by
  have hPieces : ∀ w ∈ (split s a).map utf8, asciiByte a ∉ w := by
    intro w hw hMem
    obtain ⟨part, hPart, rfl⟩ := mem_map.mp hw
    obtain ⟨c, hc, hByte⟩ := mem_flatMap.mp hMem
    rw [asciiByte_mem_utf8EncodeChar ha] at hByte
    subst hByte
    exact not_mem_of_mem_split hPart hc
  have hNe : (split s a).map utf8 ≠ [] := by
    simp [split, splitOn_ne_nil]
  calc (utf8 s).splitOn (asciiByte a)
      = ([asciiByte a].intercalate ((split s a).map utf8)).splitOn (asciiByte a) := by
        rw [← utf8_join ha, join_split]
    _ = (split s a).map utf8 := splitOn_intercalate _ hPieces hNe

/-- The last byte of a text is that of an ASCII character only if the text ends
with it. -/
theorem getLast_utf8 (s : GoString) :
    (utf8 s).getLast? = some (asciiByte a) ↔ s.getLast? = some a := by
  induction s using List.reverseRecOn with
  | nil => simp
  | append_singleton s c ih =>
    rw [utf8_append, utf8_cons, utf8_nil, append_nil,
      getLast?_append_of_ne_nil _ (utf8EncodeChar_ne_nil c),
      getLast?_concat, Option.some.injEq]
    constructor
    · intro hLast
      exact (asciiByte_mem_utf8EncodeChar ha).mp (mem_of_getLast? hLast)
    · rintro rfl
      rw [utf8EncodeChar_of_ascii ha]
      rfl

theorem head_utf8 (s : GoString) : (utf8 s).head? = some (asciiByte a) ↔ s.head? = some a := by
  cases s with
  | nil => simp
  | cons c s =>
    rw [utf8_cons, head?_append, head?_cons, Option.some.injEq]
    constructor
    · intro hFirst
      refine (asciiByte_mem_utf8EncodeChar ha).mp (mem_of_mem_head? ?_)
      cases hBytes : String.utf8EncodeChar c with
      | nil => exact absurd hBytes (utf8EncodeChar_ne_nil c)
      | cons b bs =>
        rw [hBytes] at hFirst
        exact hFirst
    · rintro rfl
      rw [utf8EncodeChar_of_ascii ha]
      rfl

end AltNet
