import AltNet.Lib.Base64
import AltNet.Lib.JsonDecode

/-!
# The size of JSON texts

How many bytes a JSON text has, and how many it takes as a string in another
JSON text. Both are sums over characters, so one calculation serves for both:
`cost μ` adds up a weight `μ` of the characters, and the characters that make up
the structure of a text weigh one each way. Only the quotation marks differ.

Main results:

* `cost_arr`, `cost_obj` — the cost of a value from those of its parts;
* `length_marshal` — the bytes of a text;
* `textCost_quote` — a string literal in a string.
-/

namespace AltNet

open List

/-- The sum of a weight over the characters of a text. -/
def cost (μ : Char → Nat) (s : GoString) : Nat := (s.map μ).sum

section Cost

variable {μ : Char → Nat}

@[simp] theorem cost_nil : cost μ [] = 0 := rfl

@[simp] theorem cost_cons (c : Char) (s : GoString) : cost μ (c :: s) = μ c + cost μ s :=
  sum_cons

@[simp] theorem cost_append (s t : GoString) : cost μ (s ++ t) = cost μ s + cost μ t := by
  rw [cost, map_append, sum_append]
  rfl

/-- A text of characters that weigh one. -/
theorem cost_eq_length {s : GoString} (h : ∀ c ∈ s, μ c = 1) : cost μ s = s.length := by
  induction s with
  | nil => rfl
  | cons c s ih =>
    rw [cost_cons, h c mem_cons_self, ih fun d hd => h d (mem_cons_of_mem _ hd),
      length_cons]
    omega

/-- The characters between the parts of a value weigh one. -/
structure Structural (μ : Char → Nat) : Prop where
  comma : μ ',' = 1
  colon : μ ':' = 1
  openBracket : μ '[' = 1
  closeBracket : μ ']' = 1
  openBrace : μ openBrace = 1
  closeBrace : μ closeBrace = 1

theorem cost_renderItems (h : Structural μ) (js : List Json) :
    cost μ (Json.renderItems js) = (js.map fun j => cost μ j.render + 1).sum + 1 := by
  induction js with
  | nil => simp [Json.renderItems, h.closeBracket]
  | cons j js ih =>
    rw [Json.renderItems, cost_cons, cost_append, ih, h.comma, map_cons, sum_cons]
    omega

/-- The items of an array, each with the character after it. -/
theorem cost_arr (h : Structural μ) (js : List Json) :
    cost μ (Json.arr js).render =
      if js = [] then 2 else (js.map fun j => cost μ j.render + 1).sum + 1 := by
  cases js with
  | nil => simp [Json.render, h.openBracket, h.closeBracket]
  | cons j js =>
    rw [if_neg (cons_ne_nil _ _), Json.render, cost_cons, cost_append,
      cost_renderItems h, h.openBracket, map_cons, sum_cons]
    omega

/-- The fields of an object, each with its colon and the character after it. -/
def fieldsCost (μ : Char → Nat) (fs : List (GoString × Json)) : Nat :=
  (fs.map fun f => cost μ (quote f.1) + cost μ f.2.render + 2).sum

@[simp] theorem fieldsCost_nil : fieldsCost μ [] = 0 := rfl

@[simp] theorem fieldsCost_cons (k : GoString) (j : Json) (fs : List (GoString × Json)) :
    fieldsCost μ ((k, j) :: fs) =
      cost μ (quote k) + cost μ j.render + 2 + fieldsCost μ fs := sum_cons

@[simp] theorem fieldsCost_append (fs fs' : List (GoString × Json)) :
    fieldsCost μ (fs ++ fs') = fieldsCost μ fs + fieldsCost μ fs' := by
  rw [fieldsCost, map_append, sum_append]
  rfl

theorem fieldsCost_omitEmpty (empty : Bool) (k : GoString) (j : Json) :
    fieldsCost μ (omitEmpty empty k j) =
      if empty then 0 else cost μ (quote k) + cost μ j.render + 2 := by
  cases empty with
  | true => rfl
  | false => rfl

theorem cost_renderFields (h : Structural μ) (fs : List (GoString × Json)) :
    cost μ (Json.renderFields fs) = fieldsCost μ fs + 1 := by
  induction fs with
  | nil => simp [Json.renderFields, h.closeBrace]
  | cons f fs ih =>
    obtain ⟨k, j⟩ := f
    rw [Json.renderFields, cost_cons, cost_append, cost_cons, cost_append, ih, h.comma, h.colon,
      fieldsCost_cons]
    omega

theorem cost_obj (h : Structural μ) {fs : List (GoString × Json)} (hNe : fs ≠ []) :
    cost μ (Json.obj fs).render = fieldsCost μ fs + 1 := by
  cases fs with
  | nil => exact absurd rfl hNe
  | cons f fs =>
    obtain ⟨k, j⟩ := f
    rw [Json.render, cost_cons, cost_append, cost_cons, cost_append, cost_renderFields h,
      h.openBrace, h.colon, fieldsCost_cons]
    omega

theorem cost_str (s : GoString) :
    cost μ (Json.str s).render = cost μ (s.flatMap escape) + 2 * μ quoteChar := by
  show cost μ (quote s) = _
  rw [quote, cost_cons, cost_append, cost_cons, cost_nil]
  omega

end Cost

/-! ## Bytes, and bytes inside a string -/

/-- The bytes of a text as the content of a JSON string. -/
def textCost (s : GoString) : Nat := cost Char.utf8Size (s.flatMap escape)

/-- The bytes of a text as the content of a JSON string in a JSON text that is
itself the content of a JSON string. -/
def nestedCost (s : GoString) : Nat := textCost (s.flatMap escape)

theorem length_marshal (j : Json) : (marshal j).length = cost Char.utf8Size j.render :=
  length_utf8 _

theorem structural_utf8Size : Structural Char.utf8Size := by constructor <;> decide

/-- A string literal, by bytes and inside a string. -/
theorem length_quote (s : GoString) : cost Char.utf8Size (Json.str s).render = textCost s + 2 := by
  rw [cost_str]
  rfl

/-- A text that is written as it is, in one byte for each character. -/
def Plain (s : GoString) : Prop := ∀ c ∈ s, escape c = [c] ∧ c.utf8Size = 1

theorem Plain.escape {s : GoString} (h : Plain s) : s.flatMap escape = s := by
  induction s with
  | nil => rfl
  | cons c s ih =>
    rw [flatMap_cons, (h c mem_cons_self).1,
      ih fun d hd => h d (mem_cons_of_mem _ hd)]
    rfl

theorem Plain.textCost {s : GoString} (h : Plain s) : textCost s = s.length := by
  rw [AltNet.textCost, h.escape]
  exact cost_eq_length fun c hc => (h c hc).2

theorem Plain.nestedCost {s : GoString} (h : Plain s) : nestedCost s = s.length := by
  rw [AltNet.nestedCost, h.escape]
  exact h.textCost

theorem hexDigit_plain :
    ∀ n < 16, escape (hexDigit n) = [hexDigit n] ∧ (hexDigit n).utf8Size = 1 := by
  decide

theorem plain_hexEncode (bs : Bytes) : Plain (hexEncode bs) := by
  induction bs with
  | nil => exact fun c hc => by cases hc
  | cons b bs ih =>
    have hb : b.toNat < 256 := b.toNat_lt
    intro c hc
    rcases mem_cons.mp hc with rfl | hc
    · exact hexDigit_plain _ (by omega)
    · rcases mem_cons.mp hc with rfl | hc
      · exact hexDigit_plain _ (by omega)
      · exact ih c hc

/-- A number is written as it is. -/
theorem plain_formatInt (n : Int) : Plain (formatInt n) := by
  have hTable : ∀ k < 10, escape (Char.ofNat (48 + k)) = [Char.ofNat (48 + k)] ∧
      (Char.ofNat (48 + k)).utf8Size = 1 := by
    decide
  have hDigits : ∀ k : Nat, Plain (Nat.toDigits 10 k) := by
    intro k c hc
    have hRange := Json.isDigit_toNat (Nat.isDigit_of_mem_toDigits (by omega) (by omega) hc)
    have hPlain := hTable (c.toNat - 48) (by omega)
    rwa [Nat.add_sub_cancel' hRange.1, Char.ofNat_toNat] at hPlain
  intro c hc
  cases n with
  | ofNat k => exact hDigits k c hc
  | negSucc k =>
    rcases mem_cons.mp hc with rfl | hc
    · decide
    · exact hDigits (k + 1) c hc

theorem length_num (n : Int) :
    cost Char.utf8Size (Json.num (formatInt n)).render = (formatInt n).length :=
  cost_eq_length fun c hc => (plain_formatInt n c hc).2

/-- The longest of the 64-bit numbers have nineteen digits. -/
theorem length_formatInt_le {n : Int} (h : IsInt64 n) : (formatInt n).length ≤ 20 := by
  have hDigits : ∀ k : Nat, k < 10 ^ 19 → (Nat.toDigits 10 k).length ≤ 19 := fun k hk =>
    (Nat.length_toDigits_le_iff (by decide) (by decide)).mpr hk
  obtain ⟨hLow, hHigh⟩ := h
  cases n with
  | ofNat k =>
    have hLength := hDigits k (by simp only [Int.ofNat_eq_natCast] at hHigh; omega)
    exact hLength.trans (by decide)
  | negSucc k =>
    have hLength := hDigits (k + 1) (by omega)
    exact Nat.succ_le_succ hLength

end AltNet
