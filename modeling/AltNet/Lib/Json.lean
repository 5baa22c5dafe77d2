import AltNet.Lib.Utf8

/-!
# JSON

Text as `encoding/json` writes and reads it. The writer escapes what a string
literal cannot hold, and `<`, `>`, `&` and the two line separators U+2028 and
U+2029 besides; it puts no white space anywhere. The reader takes white space,
all escapes in either case, pairs of surrogates written as two escapes, and the
replacement character for half a pair.

The reader is a recursive descent over code points with fuel. A call hands on
one less than it has, and of two nested calls at least one has read a
character, so twice the length of the text is enough.

Main results:

* `parseString_quote` — a string literal is read back;
* `parseNumber_formatInt` — so is a decimal number;
* `parseJson_render` — so is every value.
-/

namespace AltNet

open List Option

/-- A JSON value. A number is kept as its text. -/
inductive Json where
  | null
  | bool (b : Bool)
  | num (text : GoString)
  | str (s : GoString)
  | arr (items : List Json)
  | obj (fields : List (GoString × Json))

/-! ## Writing -/

def quoteChar : Char := '\x22'

def backslash : Char := '\x5c'

def openBrace : Char := '\x7b'

def closeBrace : Char := '\x7d'

/-- The escape of a code point by its number. -/
def escapeCode (n : Nat) : GoString :=
  [backslash, 'u', hexDigit (n / 4096 % 16), hexDigit (n / 256 % 16), hexDigit (n / 16 % 16),
    hexDigit (n % 16)]

/-- The escapes of one letter. -/
def shortEscapes : List (Char × Char) :=
  [(quoteChar, quoteChar), (backslash, backslash), ('\x08', 'b'), ('\x0c', 'f'), ('\n', 'n'),
    ('\x0d', 'r'), ('\t', 't')]

/-- The code points that are written by their number: the other control
characters, the ones that matter in HTML, and the line separators. -/
def isCoded (c : Char) : Bool :=
  c.toNat < 0x20 || c = '<' || c = '>' || c = '&' || c = '\u2028' || c = '\u2029'

/-- A code point in a string literal. -/
def escape (c : Char) : GoString :=
  match shortEscapes.lookup c with
  | some e => [backslash, e]
  | none => if isCoded c then escapeCode c.toNat else [c]

/-- A string literal. -/
def quote (s : GoString) : GoString := quoteChar :: (s.flatMap escape ++ [quoteChar])

namespace Json

mutual

/-- `json.Marshal`. -/
def render : Json → GoString
  | .null => "null".toList
  | .bool true => "true".toList
  | .bool false => "false".toList
  | .num text => text
  | .str s => quote s
  | .arr [] => "[]".toList
  | .arr (j :: js) => '[' :: (j.render ++ renderItems js)
  | .obj [] => [openBrace, closeBrace]
  | .obj ((k, j) :: fs) => openBrace :: (quote k ++ ':' :: (j.render ++ renderFields fs))

/-- What follows the first item of an array. -/
def renderItems : List Json → GoString
  | [] => [']']
  | j :: js => ',' :: (j.render ++ renderItems js)

/-- What follows the first field of an object. -/
def renderFields : List (GoString × Json) → GoString
  | [] => [closeBrace]
  | (k, j) :: fs => ',' :: (quote k ++ ':' :: (j.render ++ renderFields fs))

end

mutual

/-- How deep arrays and objects are nested. -/
def depth : Json → Nat
  | .arr js => depthItems js + 1
  | .obj fs => depthFields fs + 1
  | _ => 0

def depthItems : List Json → Nat
  | [] => 0
  | j :: js => max j.depth (depthItems js)

def depthFields : List (GoString × Json) → Nat
  | [] => 0
  | (_, j) :: fs => max j.depth (depthFields fs)

end

end Json

/-! ## Reading -/

/-- The white space of JSON. -/
def isJsonSpace (c : Char) : Bool := c = ' ' || c = '\t' || c = '\n' || c = '\x0d'

def skipSpace (s : GoString) : GoString := s.dropWhile isJsonSpace

/-- What a string literal is made of: a code point, or a code unit that an
escape gives by its number. -/
inductive StrUnit where
  | char (c : Char)
  | code (u : Nat)
  deriving DecidableEq

/-- What the escape of one letter stands for. A slash may be escaped. -/
def unescape (e : Char) : Option Char :=
  if e = '/' then some '/' else (shortEscapes.find? fun p => p.2 = e).map (·.1)

/-- Where the reader stands in a string literal: between code points, after a
backslash, or in an escape by number before a digit with `left` more to come. -/
inductive LitState where
  | plain
  | escaped
  | coded (left acc : Nat)

/-- A string literal after its opening quote, up to the closing one. -/
def scanString : LitState → GoString → Option (List StrUnit × GoString)
  | _, [] => none
  | .plain, c :: s =>
    if c = quoteChar then some ([], s)
    else if c = backslash then scanString .escaped s
    else if c.toNat < 0x20 then none
    else (scanString .plain s).map fun p => (.char c :: p.1, p.2)
  | .escaped, e :: s =>
    if e = 'u' then scanString (.coded 3 0) s
    else (unescape e).bind fun c => (scanString .plain s).map fun p => (.char c :: p.1, p.2)
  | .coded left acc, d :: s =>
    (fromHexChar d).bind fun x =>
      if left = 0 then (scanString .plain s).map fun p => (.code (acc * 16 + x) :: p.1, p.2)
      else scanString (.coded (left - 1) (acc * 16 + x)) s

/-- `utf16.IsSurrogate`. -/
def isSurrogate (u : Nat) : Bool := decide (0xD800 ≤ u) && decide (u < 0xE000)

/-- `utf16.DecodeRune`; `none` stands for the replacement character. -/
def decodeSurrogates (u v : Nat) : Option Char :=
  if 0xD800 ≤ u ∧ u < 0xDC00 ∧ 0xDC00 ≤ v ∧ v < 0xE000 then
    some (Char.ofNat ((u - 0xD800) * 0x400 + (v - 0xDC00) + 0x10000))
  else none

/-- The text of a string literal. Two code units that are a pair of surrogates
are one code point, and a surrogate that is not in a pair is replaced. -/
def assemble : List StrUnit → GoString
  | [] => []
  | .char c :: us => c :: assemble us
  | .code u :: us =>
    if isSurrogate u then
      match us with
      | .code v :: us' =>
        match decodeSurrogates u v with
        | some c => c :: assemble us'
        | none => runeError :: assemble (.code v :: us')
      | us => runeError :: assemble us
    else Char.ofNat u :: assemble us

/-- A string literal after its opening quote. -/
def parseString (s : GoString) : Option (GoString × GoString) :=
  (scanString .plain s).map fun p => (assemble p.1, p.2)

/-- One digit or more. -/
def takeDigits (s : GoString) : Option (GoString × GoString) :=
  if s.takeWhile Char.isDigit = [] then none
  else some (s.takeWhile Char.isDigit, s.dropWhile Char.isDigit)

/-- The digits before the point: a zero stands alone. -/
def takeWhole (s : GoString) : Option (GoString × GoString) :=
  (takeDigits s).filter fun p => p.1.head? ≠ some '0' || p.1.length = 1

/-- The fraction of a number, if there is one. -/
def takeFraction : GoString → Option (GoString × GoString)
  | '.' :: s => (takeDigits s).map fun p => ('.' :: p.1, p.2)
  | s => some ([], s)

/-- The sign of an exponent, if there is one. -/
def takeSign : GoString → GoString × GoString
  | '+' :: s => (['+'], s)
  | '-' :: s => (['-'], s)
  | s => ([], s)

/-- The exponent of a number, if there is one. -/
def takeExponent : GoString → Option (GoString × GoString)
  | [] => some ([], [])
  | c :: s =>
    if c = 'e' ∨ c = 'E' then
      let sign := takeSign s
      (takeDigits sign.2).map fun p => (c :: (sign.1 ++ p.1), p.2)
    else some ([], c :: s)

/-- A number after its sign. -/
def takeUnsigned (s : GoString) : Option (GoString × GoString) :=
  (takeWhole s).bind fun whole => (takeFraction whole.2).bind fun fraction =>
    (takeExponent fraction.2).map fun exponent =>
      (whole.1 ++ fraction.1 ++ exponent.1, exponent.2)

/-- A number, as its text. -/
def parseNumber : GoString → Option (GoString × GoString)
  | '-' :: s => (takeUnsigned s).map fun p => ('-' :: p.1, p.2)
  | s => takeUnsigned s

/-- One of the three words. -/
def parseWord (word : GoString) (j : Json) (s : GoString) : Option (Json × GoString) :=
  if word <+: s then some (j, s.drop word.length) else none

mutual

/-- A value. -/
def parseValue : Nat → GoString → Option (Json × GoString)
  | 0, _ => none
  | fuel + 1, s =>
    match skipSpace s with
    | [] => none
    | c :: s =>
      if c = quoteChar then (parseString s).map fun p => (.str p.1, p.2)
      else if c = '[' then
        if (skipSpace s).head? = some ']' then some (.arr [], (skipSpace s).tail)
        else (parseItems fuel s).map fun p => (.arr p.1, p.2)
      else if c = openBrace then
        if (skipSpace s).head? = some closeBrace then some (.obj [], (skipSpace s).tail)
        else (parseFields fuel s).map fun p => (.obj p.1, p.2)
      else if c = 'n' then parseWord "null".toList .null (c :: s)
      else if c = 't' then parseWord "true".toList (.bool true) (c :: s)
      else if c = 'f' then parseWord "false".toList (.bool false) (c :: s)
      else (parseNumber (c :: s)).map fun p => (.num p.1, p.2)

/-- The items of an array, up to its closing bracket. -/
def parseItems : Nat → GoString → Option (List Json × GoString)
  | 0, _ => none
  | fuel + 1, s =>
    (parseValue fuel s).bind fun p =>
      match skipSpace p.2 with
      | ',' :: s => (parseItems fuel s).map fun q => (p.1 :: q.1, q.2)
      | ']' :: s => some ([p.1], s)
      | _ => none

/-- The fields of an object, up to its closing brace. -/
def parseFields : Nat → GoString → Option (List (GoString × Json) × GoString)
  | 0, _ => none
  | fuel + 1, s =>
    match skipSpace s with
    | [] => none
    | c :: s =>
      if c = quoteChar then
        (parseString s).bind fun k =>
          match skipSpace k.2 with
          | ':' :: s => (parseValue fuel s).bind fun p =>
            match skipSpace p.2 with
            | [] => none
            | c :: s =>
              if c = ',' then (parseFields fuel s).map fun q => ((k.1, p.1) :: q.1, q.2)
              else if c = closeBrace then some ([(k.1, p.1)], s)
              else none
          | _ => none
      else none

end

/-- The deepest nesting that the reader takes. -/
def maxNestingDepth : Nat := 10000

/-- A text that is one value. -/
def parseJson (s : GoString) : Option Json :=
  (parseValue (2 * s.length + 2) s).bind fun p =>
    if skipSpace p.2 = [] ∧ p.1.depth ≤ maxNestingDepth then some p.1 else none

/-! ## String literals -/

/-- How the reader sees a code point that the writer has put into a literal. -/
def unitOf (c : Char) : StrUnit :=
  if shortEscapes.lookup c = none ∧ isCoded c = true then .code c.toNat else .char c

theorem shortEscapes_unescape : ∀ p ∈ shortEscapes, p.2 ≠ 'u' ∧ unescape p.2 = some p.1 := by
  decide

theorem scanString_escapeCode {n : Nat} (h : n < 65536) (s : GoString) :
    scanString .plain (escapeCode n ++ s) =
      (scanString .plain s).map fun p => (.code n :: p.1, p.2) := by
  have hQuote : backslash ≠ quoteChar := by decide
  have hNumber : (((0 * 16 + n / 4096 % 16) * 16 + n / 256 % 16) * 16 + n / 16 % 16) * 16 + n % 16 =
      n := by omega
  simp only [escapeCode, cons_append, nil_append, scanString, if_neg hQuote, if_true,
    fromHexChar_hexDigit _ (Nat.mod_lt _ (by decide : 16 > 0)), bind_some,
    OfNat.ofNat_ne_zero, Nat.add_one_sub_one, one_ne_zero, if_false, Nat.sub_self, hNumber,
    Nat.reduceSub]

variable {c : Char} {fs : List (GoString × Json)} {j : Json} {js : List Json} {rest : GoString}

/-- The code points that are written by their number are no surrogates. -/
theorem isCoded_lt (h : isCoded c = true) : c.toNat < 0xD800 := by
  simp only [isCoded, Bool.or_eq_true, decide_eq_true_eq] at h
  rcases h with ((((h | rfl) | rfl) | rfl) | rfl) | rfl
  · omega
  all_goals decide

/-- **One code point** of a literal is read back, whatever follows. -/
theorem scanString_escape (c : Char) (s : GoString) :
    scanString .plain (escape c ++ s) =
      (scanString .plain s).map fun p => (unitOf c :: p.1, p.2) := by
  unfold escape unitOf
  cases hShort : shortEscapes.lookup c with
  | some e =>
    obtain ⟨before, after, hSplit, -⟩ := lookup_eq_some_iff.mp hShort
    have hMem : (c, e) ∈ shortEscapes := by
      rw [hSplit]
      simp
    obtain ⟨hNotU, hUnescape⟩ := shortEscapes_unescape _ hMem
    have hQuote : backslash ≠ quoteChar := by decide
    simp only [reduceCtorEq, false_and, if_false, cons_append, nil_append, scanString,
      if_neg hQuote, if_true, if_neg hNotU, hUnescape, bind_some]
  | none =>
    simp only [true_and]
    by_cases hCoded : isCoded c = true
    · have hLow := isCoded_lt hCoded
      simp only [hCoded, if_true]
      exact scanString_escapeCode (by omega) s
    have hKeys := lookup_eq_none_iff.mp hShort
    have hQuote : c ≠ quoteChar := by simpa using hKeys (quoteChar, quoteChar) (by decide)
    have hBackslash : c ≠ backslash := by simpa using hKeys (backslash, backslash) (by decide)
    have hPlain : ¬ c.toNat < 0x20 := by
      intro hLt
      exact hCoded (by simp [isCoded, hLt])
    simp only [hCoded, Bool.false_eq_true, if_false, cons_append, nil_append,
      scanString, if_neg hQuote, if_neg hBackslash, if_neg hPlain]

theorem scanString_flatMap (s rest : GoString) :
    scanString .plain (s.flatMap escape ++ quoteChar :: rest) = some (s.map unitOf, rest) := by
  induction s with
  | nil => rfl
  | cons c s ih =>
    rw [flatMap_cons, append_assoc, scanString_escape, ih]
    rfl

theorem assemble_unitOf (s : GoString) : assemble (s.map unitOf) = s := by
  induction s with
  | nil => rfl
  | cons c s ih =>
    rw [map_cons]
    by_cases hCode : shortEscapes.lookup c = none ∧ isCoded c = true
    · have hLow := isCoded_lt hCode.2
      have hNot : isSurrogate c.toNat = false := by
        unfold isSurrogate
        rw [decide_eq_false (by omega), Bool.false_and]
      rw [unitOf, if_pos hCode]
      unfold assemble
      simp only [hNot, Bool.false_eq_true, if_false, Char.ofNat_toNat, ih]
    · rw [unitOf, if_neg hCode, assemble, ih]

/-- **A string literal is read back.** -/
theorem parseString_quote (s rest : GoString) :
    parseString (s.flatMap escape ++ quoteChar :: rest) = some (s, rest) := by
  rw [parseString, scanString_flatMap, map_some, assemble_unitOf]

/-! ## Numbers -/

/-- What may follow a value: nothing, or what separates or ends a list. -/
def Ends (s : GoString) : Prop :=
  s = [] ∨ ∃ c rest, s = c :: rest ∧ (c = ',' ∨ c = ']' ∨ c = closeBrace)

theorem Ends.head (h : Ends (c :: rest)) : c = ',' ∨ c = ']' ∨ c = closeBrace := by
  rcases h with h | ⟨c', rest', hEq, hc⟩
  · cases h
  · cases hEq
    exact hc

theorem ends_facts : ∀ c : Char, c = ',' ∨ c = ']' ∨ c = closeBrace →
    c.isDigit = false ∧ c ≠ '.' ∧ c ≠ 'e' ∧ c ≠ 'E' ∧ isJsonSpace c = false := by
  rintro c (rfl | rfl | rfl) <;> decide

theorem takeDigits_append {ds : GoString} (hDigits : ∀ c ∈ ds, c.isDigit = true) (hne : ds ≠ [])
    (hRest : Ends rest) : takeDigits (ds ++ rest) = some (ds, rest) := by
  have hStop : rest.takeWhile Char.isDigit = [] ∧ rest.dropWhile Char.isDigit = rest := by
    cases rest with
    | nil => exact ⟨rfl, rfl⟩
    | cons c rest =>
      have hNot := (ends_facts c hRest.head).1
      simp [hNot]
  have hTake : (ds ++ rest).takeWhile Char.isDigit = ds := by
    rw [takeWhile_append_of_pos hDigits, hStop.1, append_nil]
  have hDrop : (ds ++ rest).dropWhile Char.isDigit = rest := by
    rw [dropWhile_append_of_pos hDigits, hStop.2]
  rw [takeDigits, hTake, hDrop, if_neg hne]

theorem takeFraction_ends (h : Ends rest) : takeFraction rest = some ([], rest) := by
  cases rest with
  | nil => rfl
  | cons c rest =>
    have hDot := (ends_facts c h.head).2.1
    unfold takeFraction
    split
    · rename_i hEq
      cases hEq
      exact absurd rfl hDot
    · rfl

theorem takeExponent_ends (h : Ends rest) : takeExponent rest = some ([], rest) := by
  cases rest with
  | nil => rfl
  | cons c rest =>
    obtain ⟨-, -, he, hE, -⟩ := ends_facts c h.head
    rw [takeExponent, if_neg (by simp [he, hE])]

/-- A decimal has no zero in front, unless it is zero. -/
theorem toDigits_head (n : Nat) :
    (Nat.toDigits 10 n).head? ≠ some '0' ∨ (Nat.toDigits 10 n).length = 1 := by
  induction n using Nat.strong_induction_on with
  | _ n ih =>
    rcases Nat.lt_or_ge n 10 with hLt | hGe
    · rw [Nat.toDigits_of_lt_base hLt]
      exact .inr rfl
    rw [Nat.toDigits_of_base_le (by omega) hGe]
    left
    have hPos : 0 < n / 10 := by omega
    rcases ih (n / 10) (by omega) with hHead | hOne
    · rw [head?_append_of_ne_nil _ Nat.toDigits_ne_nil]
      exact hHead
    -- a single digit that is not zero
    have hSmall : n / 10 < 10 := by
      have hBound := (Nat.length_toDigits_le_iff (b := 10) (n := n / 10) (k := 1)
        (by omega) (by omega)).mp hOne.le
      omega
    rw [Nat.toDigits_of_lt_base hSmall]
    have hDigit : ∀ d < 10, 0 < d → Nat.digitChar d ≠ '0' := by decide
    simpa using hDigit _ hSmall hPos

theorem takeUnsigned_toDigits (n : Nat) (hRest : Ends rest) :
    takeUnsigned (Nat.toDigits 10 n ++ rest) = some (Nat.toDigits 10 n, rest) := by
  have hDigits : ∀ c ∈ Nat.toDigits 10 n, c.isDigit = true := fun c hc =>
    Nat.isDigit_of_mem_toDigits (by omega) (by omega) hc
  have hWhole : takeWhole (Nat.toDigits 10 n ++ rest) = some (Nat.toDigits 10 n, rest) := by
    rw [takeWhole, takeDigits_append hDigits Nat.toDigits_ne_nil hRest]
    have hHead := toDigits_head n
    simp only [filter_some, ite_eq_left_iff, reduceCtorEq, imp_false, not_not,
      Bool.or_eq_true, decide_eq_true_eq]
    exact hHead
  rw [takeUnsigned, hWhole, bind_some, takeFraction_ends hRest, bind_some,
    takeExponent_ends hRest]
  simp

theorem toDigits_first (n : Nat) :
    ∃ c ds, Nat.toDigits 10 n = c :: ds ∧ c.isDigit = true := by
  cases hText : Nat.toDigits 10 n with
  | nil => exact absurd hText Nat.toDigits_ne_nil
  | cons c ds =>
    refine ⟨c, ds, rfl, Nat.isDigit_of_mem_toDigits (b := 10) (n := n) (by omega) (by omega) ?_⟩
    rw [hText]
    exact mem_cons_self

/-- **A decimal number is read back.** -/
theorem parseNumber_formatInt (n : Int) (hRest : Ends rest) :
    parseNumber (formatInt n ++ rest) = some (formatInt n, rest) := by
  cases n with
  | ofNat m =>
    obtain ⟨c, ds, hText, hDigit⟩ := toDigits_first m
    have hNat := takeUnsigned_toDigits m hRest
    show parseNumber (Nat.toDigits 10 m ++ rest) = some (Nat.toDigits 10 m, rest)
    unfold parseNumber
    split
    · -- a digit is no sign
      rename_i s hEq
      rw [hText] at hEq
      cases hEq
      exact absurd hDigit (by decide)
    · exact hNat
  | negSucc m =>
    have hNat := takeUnsigned_toDigits (m + 1) hRest
    show (takeUnsigned (Nat.toDigits 10 (m + 1) ++ rest)).map _ = _
    rw [hNat]
    rfl

/-! ## Values -/

namespace Json

mutual

/-- Every number in the value is an integer in decimal. -/
def Integral : Json → Prop
  | .num text => ∃ n : Int, text = formatInt n
  | .arr js => IntegralItems js
  | .obj fs => IntegralFields fs
  | _ => True

def IntegralItems : List Json → Prop
  | [] => True
  | j :: js => j.Integral ∧ IntegralItems js

def IntegralFields : List (GoString × Json) → Prop
  | [] => True
  | (_, j) :: fs => j.Integral ∧ IntegralFields fs

end

mutual

/-- How many nested calls the reader makes for what the writer writes. -/
def calls : Json → Nat
  | .arr js => callsItems js + 1
  | .obj fs => callsFields fs + 1
  | _ => 1

def callsItems : List Json → Nat
  | [] => 0
  | j :: js => max j.calls (callsItems js) + 1

def callsFields : List (GoString × Json) → Nat
  | [] => 0
  | (_, j) :: fs => max j.calls (callsFields fs) + 1

end

/-- What the text of a value begins with. -/
def starts (c : Char) : Bool :=
  c = quoteChar || c = '[' || c = openBrace || c = 'n' || c = 't' || c = 'f' || c = '-' || c.isDigit

theorem isDigit_toNat (h : c.isDigit = true) : 48 ≤ c.toNat ∧ c.toNat ≤ 57 := by
  simp only [Char.isDigit, ge_iff_le, Bool.and_eq_true, decide_eq_true_eq] at h
  exact h

theorem ne_of_isDigit {d : Char} (h : c.isDigit = true) (hd : d.isDigit = false) : c ≠ d := by
  rintro rfl
  rw [h] at hd
  cases hd

theorem starts_facts (h : starts c = true) : isJsonSpace c = false ∧ c ≠ ']' ∧ c ≠ closeBrace := by
  simp only [starts, Bool.or_eq_true, decide_eq_true_eq] at h
  rcases h with ((((((rfl | rfl) | rfl) | rfl) | rfl) | rfl) | rfl) | hDigit
  iterate 7 decide
  refine ⟨?_, ne_of_isDigit hDigit (by decide), ne_of_isDigit hDigit (by decide)⟩
  simp [isJsonSpace, ne_of_isDigit hDigit (d := ' ') (by decide),
    ne_of_isDigit hDigit (d := '\t') (by decide), ne_of_isDigit hDigit (d := '\n') (by decide),
    ne_of_isDigit hDigit (d := '\x0d') (by decide)]

theorem formatInt_first (n : Int) :
    ∃ c s, formatInt n = c :: s ∧ (c = '-' ∨ c.isDigit = true) := by
  cases n with
  | ofNat m =>
    obtain ⟨c, ds, hText, hDigit⟩ := toDigits_first m
    exact ⟨c, ds, hText, .inr hDigit⟩
  | negSucc m => exact ⟨'-', _, rfl, .inl rfl⟩

/-- The text of a value is not empty, and does not begin with white space. -/
theorem render_first (hInt : j.Integral) : ∃ c s, j.render = c :: s ∧ starts c = true := by
  cases j with
  | null => exact ⟨'n', _, rfl, by decide⟩
  | bool b =>
    cases b with
    | true => exact ⟨'t', _, rfl, by decide⟩
    | false => exact ⟨'f', _, rfl, by decide⟩
  | num text =>
    obtain ⟨n, rfl⟩ := hInt
    obtain ⟨c, s, hText, hc⟩ := formatInt_first n
    refine ⟨c, s, hText, ?_⟩
    rcases hc with rfl | hDigit
    · decide
    · simp [starts, hDigit]
  | str s => exact ⟨quoteChar, _, rfl, by decide⟩
  | arr js =>
    cases js with
    | nil => exact ⟨'[', _, rfl, by decide⟩
    | cons j js => exact ⟨'[', _, rfl, by decide⟩
  | obj fs =>
    cases fs with
    | nil => exact ⟨openBrace, _, rfl, by decide⟩
    | cons f fs => exact ⟨openBrace, _, rfl, by decide⟩

theorem skipSpace_cons (h : isJsonSpace c = false) (s : GoString) : skipSpace (c :: s) = c :: s :=
  dropWhile_cons_of_neg (by simp [h])

theorem skipSpace_render (hInt : j.Integral) (rest : GoString) :
    skipSpace (j.render ++ rest) = j.render ++ rest := by
  obtain ⟨c, s, hText, hStarts⟩ := render_first hInt
  rw [hText]
  exact skipSpace_cons (starts_facts hStarts).1 _

theorem ends_renderItems (js : List Json) (rest : GoString) : Ends (renderItems js ++ rest) := by
  cases js with
  | nil => exact .inr ⟨']', rest, rfl, .inr (.inl rfl)⟩
  | cons j js => exact .inr ⟨',', _, rfl, .inl rfl⟩

theorem ends_renderFields (fs : List (GoString × Json)) (rest : GoString) :
    Ends (renderFields fs ++ rest) := by
  cases fs with
  | nil => exact .inr ⟨closeBrace, rest, rfl, .inr (.inr rfl)⟩
  | cons f fs => exact .inr ⟨',', _, rfl, .inl rfl⟩

theorem quote_append (s rest : GoString) :
    quote s ++ rest = quoteChar :: (s.flatMap escape ++ quoteChar :: rest) := by
  simp [quote]

mutual

/-- **A value is read back**, with enough fuel, whatever follows that may follow
a value. -/
theorem parseValue_render : ∀ (j : Json) (fuel : Nat) {rest : GoString}, j.Integral →
    j.calls ≤ fuel → Ends rest → parseValue fuel (j.render ++ rest) = some (j, rest)
  | j, 0, rest, _, hFuel, _ => by
    cases j <;> simp [calls] at hFuel
  | .null, fuel + 1, rest, _, _, _ => by
    simp [render, parseValue, parseWord, skipSpace, isJsonSpace, quoteChar, openBrace]
  | .bool b, fuel + 1, rest, _, _, _ => by
    cases b <;>
      simp [render, parseValue, parseWord, skipSpace, isJsonSpace, quoteChar, openBrace]
  | .num text, fuel + 1, rest, hInt, _, hRest => by
    obtain ⟨n, rfl⟩ := hInt
    obtain ⟨c, s, hText, hc⟩ := formatInt_first n
    have hNumber := parseNumber_formatInt n hRest
    have hSkip := skipSpace_render (j := .num (formatInt n)) ⟨n, rfl⟩ rest
    have hNot : ∀ d : Char, d ≠ '-' → d.isDigit = false → c ≠ d := by
      intro d hd hDigit
      rcases hc with rfl | hc
      · exact hd.symm
      · exact ne_of_isDigit hc hDigit
    simp only [render] at hSkip
    rw [render, parseValue, hSkip]
    rw [hText, cons_append] at hNumber ⊢
    simp only [hNot quoteChar (by decide) (by decide), hNot '[' (by decide) (by decide),
      hNot openBrace (by decide) (by decide), hNot 'n' (by decide) (by decide),
      hNot 't' (by decide) (by decide), hNot 'f' (by decide) (by decide), if_false, hNumber,
      map_some]
  | .str s, fuel + 1, rest, _, _, _ => by
    rw [render, parseValue, quote_append, skipSpace_cons (by decide)]
    simp only [if_true, parseString_quote, map_some]
  | .arr [], fuel + 1, rest, _, _, _ => by
    simp [render, parseValue, skipSpace, isJsonSpace, quoteChar]
  | .arr (j :: js), fuel + 1, rest, hInt, hFuel, _ => by
    have hItems := parseItems_render j js fuel rest hInt
      (Nat.le_of_succ_le_succ hFuel)
    obtain ⟨c, s, hText, hStarts⟩ := render_first hInt.1
    have hOpen : (skipSpace (j.render ++ (renderItems js ++ rest))).head? ≠ some ']' := by
      rw [skipSpace_render hInt.1, hText]
      simpa using (starts_facts hStarts).2.1
    have hQuote : '[' ≠ quoteChar := by decide
    rw [render, parseValue, cons_append, skipSpace_cons (by decide)]
    simp only [if_neg hQuote, if_true, append_assoc, if_neg hOpen, hItems, map_some]
  | .obj [], fuel + 1, rest, _, _, _ => by
    simp [render, parseValue, skipSpace, isJsonSpace, quoteChar, openBrace, closeBrace]
  | .obj ((k, j) :: fs), fuel + 1, rest, hInt, hFuel, _ => by
    have hFields := parseFields_render k j fs fuel rest hInt
      (Nat.le_of_succ_le_succ hFuel)
    have hOpen : (skipSpace (quote k ++ ':' :: (j.render ++ (renderFields fs ++ rest)))).head? ≠
        some closeBrace := by
      rw [quote_append, skipSpace_cons (by decide)]
      simp [quoteChar, closeBrace]
    have hQuote : openBrace ≠ quoteChar := by decide
    have hBracket : openBrace ≠ '[' := by decide
    rw [render, parseValue, cons_append, skipSpace_cons (by decide)]
    simp only [if_neg hQuote, if_neg hBracket, if_true, append_assoc, cons_append,
      if_neg hOpen, hFields, map_some]

theorem parseItems_render : ∀ (j : Json) (js : List Json) (fuel : Nat) (rest : GoString),
    IntegralItems (j :: js) → callsItems (j :: js) ≤ fuel →
    parseItems fuel (j.render ++ (renderItems js ++ rest)) = some (j :: js, rest)
  | j, js, 0, rest, _, hFuel => by
    simp [callsItems] at hFuel
  | j, [], fuel + 1, rest, hInt, hFuel => by
    have hFirst := parseValue_render j fuel hInt.1
      (by simp only [callsItems] at hFuel; omega) (ends_renderItems [] rest)
    rw [parseItems, hFirst]
    simp [renderItems, skipSpace, isJsonSpace]
  | j, j' :: js, fuel + 1, rest, hInt, hFuel => by
    have hFirst := parseValue_render j fuel hInt.1
      (by simp only [callsItems] at hFuel; omega) (ends_renderItems (j' :: js) rest)
    have hMore := parseItems_render j' js fuel rest hInt.2
      (by simp only [callsItems] at hFuel ⊢; omega)
    rw [parseItems, hFirst, renderItems, cons_append, bind_some,
      skipSpace_cons (by decide), append_assoc]
    simp only [hMore, map_some]

theorem parseFields_render : ∀ (k : GoString) (j : Json) (fs : List (GoString × Json)) (fuel : Nat)
    (rest : GoString), IntegralFields ((k, j) :: fs) → callsFields ((k, j) :: fs) ≤ fuel →
    parseFields fuel (quote k ++ ':' :: (j.render ++ (renderFields fs ++ rest))) =
      some ((k, j) :: fs, rest)
  | k, j, fs, 0, rest, _, hFuel => by
    simp [callsFields] at hFuel
  | k, j, [], fuel + 1, rest, hInt, hFuel => by
    have hValue := parseValue_render j fuel hInt.1
      (by simp only [callsFields] at hFuel; omega) (ends_renderFields [] rest)
    have hComma : closeBrace ≠ ',' := by decide
    rw [parseFields, quote_append, skipSpace_cons (by decide)]
    simp only [if_true, parseString_quote, bind_some]
    rw [skipSpace_cons (by decide)]
    simp only [hValue, bind_some]
    rw [renderFields, singleton_append, skipSpace_cons (by decide)]
    simp only [if_neg hComma, if_true]
  | k, j, (k', j') :: fs, fuel + 1, rest, hInt, hFuel => by
    have hValue := parseValue_render j fuel hInt.1
      (by simp only [callsFields] at hFuel; omega) (ends_renderFields ((k', j') :: fs) rest)
    have hMore := parseFields_render k' j' fs fuel rest hInt.2
      (by simp only [callsFields] at hFuel ⊢; omega)
    rw [parseFields, quote_append, skipSpace_cons (by decide)]
    simp only [if_true, parseString_quote, bind_some]
    rw [skipSpace_cons (by decide)]
    simp only [hValue, bind_some]
    rw [renderFields, cons_append, skipSpace_cons (by decide)]
    simp only [if_true, append_assoc, cons_append, hMore, map_some]

end

mutual

theorem calls_le : ∀ j : Json, j.Integral → j.calls ≤ 2 * j.render.length
  | .null, _ => by decide
  | .bool true, _ => by decide
  | .bool false, _ => by decide
  | .num text, hInt => by
    obtain ⟨c, s, hText, -⟩ := render_first (j := .num text) hInt
    rw [hText, length_cons]
    show 1 ≤ _
    omega
  | .str s, _ => by
    simp only [calls, render, quote, length_cons]
    omega
  | .arr [], _ => by decide
  | .arr (j :: js), hInt => by
    have hFirst := calls_le j hInt.1
    have hMore := callsItems_le js hInt.2
    simp only [calls, callsItems, render, length_cons, length_append]
    omega
  | .obj [], _ => by decide
  | .obj ((k, j) :: fs), hInt => by
    have hFirst := calls_le j hInt.1
    have hMore := callsFields_le fs hInt.2
    simp only [calls, callsFields, render, length_cons, length_append]
    omega

theorem callsItems_le : ∀ js : List Json, IntegralItems js →
    callsItems js ≤ 2 * (renderItems js).length
  | [], _ => by decide
  | j :: js, hInt => by
    have hFirst := calls_le j hInt.1
    have hMore := callsItems_le js hInt.2
    simp only [callsItems, renderItems, length_cons, length_append]
    omega

theorem callsFields_le : ∀ fs : List (GoString × Json), IntegralFields fs →
    callsFields fs ≤ 2 * (renderFields fs).length
  | [], _ => by decide
  | (k, j) :: fs, hInt => by
    have hFirst := calls_le j hInt.1
    have hMore := callsFields_le fs hInt.2
    simp only [callsFields, renderFields, length_cons, length_append]
    omega

end

/-- **What is written is read back.** -/
theorem parseJson_render (hInt : j.Integral) (hDepth : j.depth ≤ maxNestingDepth) :
    parseJson j.render = some j := by
  have hFuel : j.calls ≤ 2 * j.render.length + 2 := (calls_le j hInt).trans (Nat.le_add_right _ _)
  have hValue := parseValue_render j (2 * j.render.length + 2) hInt hFuel (.inl rfl)
  rw [append_nil] at hValue
  rw [parseJson, hValue, bind_some, if_pos ⟨rfl, hDepth⟩]

/-! ## Values from their parts -/

theorem integral_num (n : Int) : (Json.num (formatInt n)).Integral := ⟨n, rfl⟩

theorem integral_obj (h : ∀ kv ∈ fs, kv.2.Integral) : (Json.obj fs).Integral := by
  show IntegralFields fs
  induction fs with
  | nil => trivial
  | cons kv fs ih =>
    exact ⟨h kv mem_cons_self, ih fun kv' hkv => h kv' (mem_cons_of_mem _ hkv)⟩

theorem integral_arr (h : ∀ j ∈ js, j.Integral) : (Json.arr js).Integral := by
  show IntegralItems js
  induction js with
  | nil => trivial
  | cons j js ih =>
    exact ⟨h j mem_cons_self, ih fun j' hj => h j' (mem_cons_of_mem _ hj)⟩

theorem depth_obj_le {d : Nat} (h : ∀ kv ∈ fs, kv.2.depth ≤ d) : (Json.obj fs).depth ≤ d + 1 := by
  have hFields : depthFields fs ≤ d := by
    induction fs with
    | nil => exact Nat.zero_le d
    | cons kv fs ih =>
      exact Nat.max_le.mpr ⟨h kv mem_cons_self,
        ih fun kv' hkv => h kv' (mem_cons_of_mem _ hkv)⟩
  exact Nat.succ_le_succ hFields

theorem depth_arr_le {d : Nat} (h : ∀ j ∈ js, j.depth ≤ d) : (Json.arr js).depth ≤ d + 1 := by
  have hItems : depthItems js ≤ d := by
    induction js with
    | nil => exact Nat.zero_le d
    | cons j js ih =>
      exact Nat.max_le.mpr ⟨h j mem_cons_self,
        ih fun j' hj => h j' (mem_cons_of_mem _ hj)⟩
  exact Nat.succ_le_succ hItems

end Json

end AltNet
