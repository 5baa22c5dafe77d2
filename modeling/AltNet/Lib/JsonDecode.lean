import AltNet.Lib.Int64
import AltNet.Lib.Json

/-!
# JSON into records

How `json.Unmarshal` fills a record. A field is found by its name without
regard to case, a key that no field has is skipped, a key that occurs again
overwrites, and `null` leaves a field as it is. A value of the wrong kind is an
error.

An array is read into the elements that the slice has, so an element that is
`null` keeps what an earlier array under the same key has left there; the slice
is cut to the length of the array, and what lies beyond stays in memory.

Main results:

* `decodeUint32_formatInt`, `decodeInt64_formatInt` — numbers in range are read
  back;
* `DecodedSlice.decode_map` — so is an array whose items are;
* `unmarshal_marshal` — and a record whose fields are, through the bytes.
-/

namespace AltNet

open List

variable {α β : Type}

/-- A key in the form in which it is compared: `foldName`. Beside the capital
letters two code points stand for ASCII letters. -/
def foldRune (c : Char) : Char :=
  if 97 ≤ c.toNat ∧ c.toNat ≤ 122 then Char.ofNat (c.toNat - 32)
  else if c = '\u017f' then 'S'
  else if c = '\u212a' then 'K'
  else c

/-- The key of a JSON object names the field. -/
def namesField (key name : GoString) : Bool := key.map foldRune = name.map foldRune

/-- The fields of a record: the name of each, and how a value is read into
it. -/
abbrev FieldTable (α : Type) := List (GoString × (Json → α → Option α))

/-- Read one key of an object. -/
def decodeField (fields : FieldTable α) (a : α) (kv : GoString × Json) : Option α :=
  match fields.find? fun f => namesField kv.1 f.1 with
  | some f => f.2 kv.2 a
  | none => some a

/-- Read an object into a record. -/
def decodeRecord (fields : FieldTable α) : Json → α → Option α
  | .null, a => some a
  | .obj kvs, a => kvs.foldlM (decodeField fields) a
  | _, _ => none

/-- Read a string. -/
def decodeString : Json → GoString → Option GoString
  | .str s, _ => some s
  | .null, old => some old
  | _, _ => none

/-- `strconv.ParseUint` of a number with so many bits. -/
def parseUint (bits : Nat) (text : GoString) : Option Nat :=
  if text ≠ [] ∧ (text.all Char.isDigit) = true ∧ Nat.ofDigitChars 10 text 0 < 2 ^ bits then
    some (Nat.ofDigitChars 10 text 0)
  else none

/-- `strconv.ParseInt` of a number with 64 bits. -/
def parseInt64 : GoString → Option Int
  | [] => none
  | c :: digits =>
    if c = '-' then
      ((parseUint 64 digits).filter (· ≤ 2 ^ 63)).map fun n => -(n : Int)
    else ((parseUint 64 (c :: digits)).filter (· < 2 ^ 63)).map fun n => (n : Int)

/-- Read an `int64`. -/
def decodeInt64 : Json → Int → Option Int
  | .num text, _ => parseInt64 text
  | .null, old => some old
  | _, _ => none

/-- Read a `uint32`. -/
def decodeUint32 : Json → UInt32 → Option UInt32
  | .num text, _ => (parseUint 32 text).map UInt32.ofNat
  | .null, old => some old
  | _, _ => none

/-- A slice while it is read into: its elements, and what lies beyond them in
memory. -/
structure DecodedSlice (β : Type) where
  live : List β
  stale : List β

/-- The items of an array over the elements that are there. -/
def decodeItems (zero : β) (item : Json → β → Option β) : List Json → List β → Option (List β)
  | [], _ => some []
  | j :: js, old =>
    (item j (old.headD zero)).bind fun b => (decodeItems zero item js old.tail).map (b :: ·)

/-- Read an array. -/
def DecodedSlice.decode (zero : β) (item : Json → β → Option β) :
    Json → DecodedSlice β → Option (DecodedSlice β)
  | .null, _ | .arr [], _ => some ⟨[], []⟩
  | .arr (j :: js), s =>
    (decodeItems zero item (j :: js) (s.live ++ s.stale)).map fun bs =>
      ⟨bs, (s.live ++ s.stale).drop bs.length⟩
  | _, _ => none

/-- Read an array of strings into these elements, with what lies beyond
them. -/
def decodeTexts (j : Json) (live stale : List GoString) : Option (DecodedSlice GoString) :=
  DecodedSlice.decode [] decodeString j ⟨live, stale⟩

/-- An array of strings. -/
def textsJson (texts : List GoString) : Json := .arr (texts.map .str)

/-- A field with the option `omitempty`. -/
def omitEmpty (empty : Bool) (key : GoString) (j : Json) : List (GoString × Json) :=
  if empty then [] else [(key, j)]

/-- The bytes of a value: `json.Marshal`. -/
def marshal (j : Json) : Bytes := utf8 j.render

/-- `json.Unmarshal` into a record that is `zero` before. -/
def unmarshal (fields : FieldTable α) (zero : α) (bs : Bytes) : Option α :=
  (parseJson (decodeUtf8 bs)).bind fun j => decodeRecord fields j zero

/-! ## Numbers -/

theorem parseUint_toDigits (bits : Nat) {n : Nat} (h : n < 2 ^ bits) :
    parseUint bits (Nat.toDigits 10 n) = some n := by
  have hDigits : (Nat.toDigits 10 n).all Char.isDigit = true :=
    all_eq_true.mpr fun c hc => Nat.isDigit_of_mem_toDigits (by omega) (by omega) hc
  rw [parseUint, Nat.ofDigitChars_ten_toDigits, if_pos ⟨Nat.toDigits_ne_nil, hDigits, h⟩]

theorem decodeUint32_formatInt (v old : UInt32) :
    decodeUint32 (.num (formatInt v.toNat)) old = some v := by
  have hText : formatInt (v.toNat : Int) = Nat.toDigits 10 v.toNat := rfl
  rw [decodeUint32, hText, parseUint_toDigits 32 v.toNat_lt, Option.map_some, UInt32.ofNat_toNat]

theorem decodeInt64_formatInt {n : Int} (h : IsInt64 n) (old : Int) :
    decodeInt64 (.num (formatInt n)) old = some n := by
  unfold IsInt64 at h
  show parseInt64 (formatInt n) = some n
  cases n with
  | ofNat m =>
    rw [Int.ofNat_eq_natCast] at h
    obtain ⟨c, ds, hText, hDigit⟩ := toDigits_first m
    have hNat := parseUint_toDigits 64 (n := m) (by omega)
    have hSign : c ≠ '-' := Json.ne_of_isDigit hDigit (by decide)
    show parseInt64 (Nat.toDigits 10 m) = _
    rw [hText] at hNat ⊢
    rw [parseInt64, if_neg hSign, hNat, Option.filter_some, if_pos (by simp; omega)]
    rfl
  | negSucc m =>
    have hNat := parseUint_toDigits 64 (n := m + 1) (by omega)
    show parseInt64 ('-' :: Nat.toDigits 10 (m + 1)) = _
    rw [parseInt64, if_pos rfl, hNat, Option.filter_some, if_pos (by simp; omega)]
    rfl

/-! ## Arrays -/

variable {bs : List β} {empty : Bool} {encode : β → Json} {fields : FieldTable α}
  {item : Json → β → Option β} {j : Json} {key : GoString} {kv : GoString × Json}

theorem decodeItems_map {zero : β} (h : ∀ b ∈ bs, item (encode b) zero = some b) :
    decodeItems zero item (bs.map encode) [] = some bs := by
  induction bs with
  | nil => rfl
  | cons b bs ih =>
    rw [map_cons, decodeItems]
    simp only [headD_nil, tail_nil, h b mem_cons_self, Option.bind_some,
      ih fun b' hb' => h b' (mem_cons_of_mem _ hb'), Option.map_some]

/-- **An array is read back** into a fresh slice. -/
theorem DecodedSlice.decode_map {zero : β} (h : ∀ b ∈ bs, item (encode b) zero = some b) :
    DecodedSlice.decode zero item (.arr (bs.map encode)) ⟨[], []⟩ = some ⟨bs, []⟩ := by
  have hItems := decodeItems_map h
  cases bs with
  | nil => rfl
  | cons b bs =>
    rw [map_cons] at hItems ⊢
    simp only [decode, append_nil, hItems, Option.map_some, drop_nil]

theorem decodeTexts_textsJson (texts : List GoString) :
    decodeTexts (textsJson texts) [] [] = some ⟨texts, []⟩ :=
  DecodedSlice.decode_map fun _ _ => rfl

theorem textsJson_flat (texts : List GoString) :
    (textsJson texts).Integral ∧ (textsJson texts).depth ≤ 1 := by
  constructor
  · refine Json.integral_arr fun j hj => ?_
    obtain ⟨text, -, rfl⟩ := mem_map.mp hj
    trivial
  · refine Json.depth_arr_le fun j hj => ?_
    obtain ⟨text, -, rfl⟩ := mem_map.mp hj
    exact Nat.le_refl 0

/-! ## Records -/

/-- No two fields answer to the same key. -/
def FieldTable.Distinct (fields : FieldTable α) : Prop :=
  (fields.map fun f => f.1.map foldRune).Nodup

instance (fields : FieldTable α) : Decidable fields.Distinct :=
  inferInstanceAs (Decidable (List.Nodup _))

theorem find?_namesField (hDistinct : fields.Distinct) {f : GoString × (Json → α → Option α)}
    (hf : f ∈ fields) : fields.find? (fun f' => namesField f.1 f'.1) = some f := by
  induction fields with
  | nil => cases hf
  | cons f' fields ih =>
    obtain ⟨hNew, hRest⟩ := nodup_cons.mp hDistinct
    rcases mem_cons.mp hf with rfl | hTail
    · exact find?_cons_of_pos (by simp [namesField])
    have hOther : namesField f.1 f'.1 = false := by
      exact decide_eq_false fun hSame => hNew (mem_map.mpr ⟨f, hTail, hSame⟩)
    rw [find?_cons_of_neg (by simp [hOther])]
    exact ih hRest hTail

/-- The key that is the name of a field is read into that field. -/
theorem decodeField_name (hDistinct : fields.Distinct) (n : Nat) {name : GoString}
    {read : Json → α → Option α} (hf : fields[n]? = some (name, read)) (a : α) (j : Json) :
    decodeField fields a (name, j) = read j a := by
  unfold decodeField
  rw [find?_namesField hDistinct (mem_of_getElem? hf)]

/-- Reading these keys in order makes `a` into `a'`. -/
def Decodes (fields : FieldTable α) (kvs : List (GoString × Json)) (a a' : α) : Prop :=
  kvs.foldlM (decodeField fields) a = some a'

theorem Decodes.append {kvs kvs' : List (GoString × Json)} {a b c : α}
    (h : Decodes fields kvs a b) (h' : Decodes fields kvs' b c) :
    Decodes fields (kvs ++ kvs') a c := by
  unfold Decodes at h h' ⊢
  rw [foldlM_append, h]
  exact h'

theorem Decodes.single {a a' : α} (h : decodeField fields a kv = some a') :
    Decodes fields [kv] a a' := by
  simp [Decodes, h]

/-- A field that is left out when it is empty is read back all the same. -/
theorem Decodes.omitEmpty {a a' : α} (hField : decodeField fields a (key, j) = some a')
    (hEmpty : empty = true → a' = a) : Decodes fields (omitEmpty empty key j) a a' := by
  cases empty with
  | true =>
    rw [hEmpty rfl]
    rfl
  | false => exact Decodes.single hField

theorem mem_omitEmpty (h : kv ∈ omitEmpty empty key j) : kv = (key, j) := by
  cases empty with
  | true => cases h
  | false => exact mem_singleton.mp h

/-- **What is written is read back**, when the fields are. -/
theorem unmarshal_marshal {zero a : α} (hInt : j.Integral) (hDepth : j.depth ≤ maxNestingDepth)
    (hRead : decodeRecord fields j zero = some a) : unmarshal fields zero (marshal j) = some a := by
  rw [unmarshal, marshal, decodeUtf8_utf8, Json.parseJson_render hInt hDepth, Option.bind_some,
    hRead]

end AltNet
