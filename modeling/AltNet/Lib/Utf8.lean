import AltNet.Lib.Hex

/-!
# UTF-8

A Go string is a byte string; one that holds text is the UTF-8 encoding of its
code points. Reading bytes as text never fails: a byte that does not begin a
valid encoding becomes the replacement character, and reading goes on with the
next byte.

Main results:

* `decodeUtf8_utf8` — reading undoes writing;
* `length_utf8` — how long the encoding is.
-/

namespace AltNet

open List

/-- `[]byte(s)`. -/
def utf8 (s : GoString) : Bytes := s.flatMap String.utf8EncodeChar

/-- `utf8.RuneError`. -/
def runeError : Char := '\uFFFD'

/-- `utf8.DecodeRune`; `none` where it returns `RuneError` with a width of
one. -/
def decodeRune (bs : Bytes) : Option Char := bs.toByteArray.utf8DecodeChar? 0

/-- The code points of `bs` after its first `skip` bytes, which belong to a
code point that has been read. -/
def decodeFrom : Nat → Bytes → GoString
  | _, [] => []
  | skip + 1, _ :: bs => decodeFrom skip bs
  | 0, b :: bs =>
    match decodeRune (b :: bs) with
    | some c => c :: decodeFrom (c.utf8Size - 1) bs
    | none => runeError :: decodeFrom 0 bs

/-- The code points of a byte string, as `range` or `json.Unmarshal` sees
them. -/
def decodeUtf8 (bs : Bytes) : GoString := decodeFrom 0 bs

@[simp] theorem utf8_nil : utf8 [] = [] := rfl

theorem utf8_cons (c : Char) (s : GoString) : utf8 (c :: s) = String.utf8EncodeChar c ++ utf8 s :=
  flatMap_cons

@[simp] theorem utf8_append (s t : GoString) : utf8 (s ++ t) = utf8 s ++ utf8 t :=
  flatMap_append

theorem length_utf8_cons (c : Char) (s : GoString) :
    (utf8 (c :: s)).length = c.utf8Size + (utf8 s).length := by
  rw [utf8_cons, length_append, String.length_utf8EncodeChar]

theorem length_utf8 (s : GoString) : (utf8 s).length = (s.map Char.utf8Size).sum := by
  induction s with
  | nil => rfl
  | cons c s ih => rw [length_utf8_cons, map_cons, sum_cons, ih]

/-- The encoding of a code point is read back, whatever follows. -/
theorem decodeRune_utf8EncodeChar (c : Char) (bs : Bytes) :
    decodeRune (String.utf8EncodeChar c ++ bs) = some c := by
  have hOne : (String.utf8EncodeChar c).toByteArray.utf8DecodeChar? 0 = some c := by
    have hSingle := utf8DecodeChar?_utf8Encode_singleton (c := c)
    rwa [utf8Encode_singleton] at hSingle
  rw [decodeRune, toByteArray_append]
  exact ByteArray.utf8DecodeChar?_append_eq_some hOne _

theorem decodeFrom_skip (bs rest : Bytes) :
    decodeFrom bs.length (bs ++ rest) = decodeUtf8 rest := by
  induction bs with
  | nil => rfl
  | cons b bs ih => exact ih

theorem decodeUtf8_utf8EncodeChar (c : Char) (bs : Bytes) :
    decodeUtf8 (String.utf8EncodeChar c ++ bs) = c :: decodeUtf8 bs := by
  have hRune := decodeRune_utf8EncodeChar c bs
  have hLength := String.length_utf8EncodeChar c
  cases hBytes : String.utf8EncodeChar c with
  | nil =>
    rw [hBytes, length_nil] at hLength
    exact absurd hLength (Char.utf8Size_pos c).ne
  | cons b more =>
    rw [hBytes, cons_append] at hRune
    rw [hBytes, length_cons] at hLength
    have hMore : c.utf8Size - 1 = more.length := by omega
    rw [cons_append, decodeUtf8, decodeFrom, hRune]
    dsimp only
    rw [hMore, decodeFrom_skip]

/-- **Reading undoes writing.** -/
theorem decodeUtf8_utf8 (s : GoString) : decodeUtf8 (utf8 s) = s := by
  induction s with
  | nil => rfl
  | cons c s ih => rw [utf8_cons, decodeUtf8_utf8EncodeChar, ih]

end AltNet
