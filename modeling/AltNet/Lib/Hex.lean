import AltNet.Lib.Text

/-!
# Hexadecimal text

Go's `encoding/hex`: the encoder writes lower case, the decoder takes both
cases, wants an even number of digits and nothing else. `hexDecode` returns
`none` where `hex.DecodeString` returns an error.

Main results:

* `hexDecode_hexEncode` — decoding undoes encoding;
* `hexEncode_injective` — so encodings tell byte strings apart;
* `hexDecode_toLower` — decoding does not see the case of the text;
* `hexDecode_trimmed` — text that decodes has no white space around it.
-/

namespace AltNet

/-- A byte string, Go's `[]byte`. -/
abbrev Bytes := List UInt8

/-- The lower-case digit of a value below 16. -/
def hexDigit (n : Nat) : Char := if n < 10 then Char.ofNat (48 + n) else Char.ofNat (87 + n)

/-- The value of a digit in either case. -/
def fromHexChar (c : Char) : Option Nat :=
  if 48 ≤ c.toNat ∧ c.toNat ≤ 57 then some (c.toNat - 48)
  else if 97 ≤ c.toNat ∧ c.toNat ≤ 102 then some (c.toNat - 87)
  else if 65 ≤ c.toNat ∧ c.toNat ≤ 70 then some (c.toNat - 55)
  else none

/-- `hex.EncodeToString`. -/
def hexEncode : Bytes → GoString
  | [] => []
  | b :: rest => hexDigit (b.toNat / 16) :: hexDigit (b.toNat % 16) :: hexEncode rest

/-- `hex.DecodeString`. -/
def hexDecode : GoString → Option Bytes
  | [] => some []
  | [_] => none
  | a :: b :: rest =>
    match fromHexChar a, fromHexChar b, hexDecode rest with
    | some x, some y, some bytes => some (UInt8.ofNat (16 * x + y) :: bytes)
    | _, _, _ => none

/-! ## Digits -/

theorem fromHexChar_hexDigit : ∀ n < 16, fromHexChar (hexDigit n) = some n := by
  decide

/-- No white space is a digit. -/
theorem fromHexChar_of_isSpace {c : Char} (h : isSpaceRune c = true) :
    fromHexChar c = none := by
  have hOut : ∀ w ∈ spaceRunes, ¬(48 ≤ w ∧ w ≤ 57) ∧ ¬(97 ≤ w ∧ w ≤ 102) ∧
      ¬(65 ≤ w ∧ w ≤ 70) := by decide
  obtain ⟨h1, h2, h3⟩ := hOut _ (isSpaceRune_iff.mp h)
  rw [fromHexChar, if_neg h1, if_neg h2, if_neg h3]

private theorem toLowerRune_capital : ∀ n, 65 ≤ n → n ≤ 70 →
    (toLowerRune (Char.ofNat n)).toNat = n + 32 := by
  decide +kernel

/-- Lowering a character does not change its value as a digit: capitals go
to the small letter of the same value, and nothing else becomes a digit. -/
theorem fromHexChar_toLowerRune (c : Char) :
    fromHexChar (toLowerRune c) = fromHexChar c := by
  rcases Nat.lt_or_ge 0x66 (toLowerRune c).toNat with hBig | hSmall
  · -- the lower case is beyond `f`, so neither is a digit
    have hc : ¬(65 ≤ c.toNat ∧ c.toNat ≤ 70) := by
      intro hcap
      have hEq := toLowerRune_capital c.toNat hcap.1 hcap.2
      rw [Char.ofNat_toNat] at hEq
      omega
    rcases toLowerRune_cases c with hEq | ⟨r, hr, hlo, hhi, -, -, -⟩
    · rw [hEq]
    have hOut : ∀ r ∈ lowerRanges, r.lo = 65 ∧ r.hi = 90 ∨ 102 < r.lo := by
      decide +kernel
    have := hOut r hr
    rw [fromHexChar, fromHexChar, if_neg (by omega), if_neg (by omega), if_neg (by omega),
      if_neg (by omega), if_neg (by omega), if_neg (by omega)]
  · rcases toLowerRune_le_f hSmall with hEq | ⟨hlo, hhi, hEq⟩
    · rw [hEq]
    · rw [fromHexChar, fromHexChar, hEq, if_neg (by omega), if_pos (by omega),
        if_neg (by omega), if_neg (by omega), if_pos (by omega)]
      congr 1

/-! ## Encoding and decoding -/

theorem hexDecode_hexEncode (bytes : Bytes) : hexDecode (hexEncode bytes) = some bytes := by
  induction bytes with
  | nil => rfl
  | cons b rest ih =>
    have hb : b.toNat < 256 := b.toNat_lt
    rw [hexEncode, hexDecode, fromHexChar_hexDigit _ (by omega),
      fromHexChar_hexDigit _ (by omega), ih]
    simp only [Option.some.injEq, List.cons.injEq, and_true]
    rw [show 16 * (b.toNat / 16) + b.toNat % 16 = b.toNat by omega]
    exact UInt8.ofNat_toNat

theorem hexEncode_injective : Function.Injective hexEncode := by
  intro a b h
  have hEq := congrArg hexDecode h
  rw [hexDecode_hexEncode, hexDecode_hexEncode] at hEq
  exact Option.some.inj hEq

theorem length_hexEncode (bytes : Bytes) : (hexEncode bytes).length = 2 * bytes.length := by
  induction bytes with
  | nil => rfl
  | cons b rest ih =>
    simp only [hexEncode, List.length_cons, ih]
    omega

/-- Decoding does not see the case of the text. -/
theorem hexDecode_toLower : ∀ s : GoString, hexDecode (toLower s) = hexDecode s
  | [] => rfl
  | [_] => rfl
  | a :: b :: rest => by
    have ih := hexDecode_toLower rest
    simp only [toLower, List.map_cons, hexDecode, fromHexChar_toLowerRune] at ih ⊢
    rw [ih]

/-- Every character of text that decodes is a digit. -/
theorem hexDecode_digits : ∀ {s : GoString} {bytes : Bytes}, hexDecode s = some bytes →
    ∀ c ∈ s, (fromHexChar c).isSome
  | [], _, _ => by simp
  | [_], _, h => by simp [hexDecode] at h
  | a :: b :: rest, bytes, h => by
    rw [hexDecode] at h
    split at h
    · rename_i x y tail hx hy hrest
      intro c hc
      rcases List.mem_cons.mp hc with rfl | hc
      · simp [hx]
      · rcases List.mem_cons.mp hc with rfl | hc
        · simp [hy]
        · exact hexDecode_digits hrest c hc
    · cases h

theorem hexDecode_no_space {s : GoString} {bytes : Bytes} (h : hexDecode s = some bytes) :
    ∀ c ∈ s, isSpaceRune c = false := by
  intro c hc
  rw [← Bool.not_eq_true]
  intro hSpace
  have hDigit := hexDecode_digits h c hc
  rw [fromHexChar_of_isSpace hSpace] at hDigit
  cases hDigit

/-- Text that decodes has no white space around it. -/
theorem hexDecode_trimmed {s : GoString} {bytes : Bytes} (h : hexDecode s = some bytes) :
    trimSpace s = s :=
  trimSpace_eq_self (hexDecode_no_space h)

end AltNet
