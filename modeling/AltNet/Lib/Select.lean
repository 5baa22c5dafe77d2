import Mathlib

/-!
# The first minima of a list

Selection sort stopped after `n` rounds: in each round the least element of
what is left is swapped to the front. Elements are compared by a strict
comparison `lt` that orders them by a number `f`.

Main results:

* `firstMin_le` — the element a scan ends with is least;
* `selectMins_perm` — the selected elements and those left over are the list;
* `selectMins_sorted` / `selectMins_le_rest` — the selected ones come in order
  and none of those left over is less;
* `selectFront_eq` — the two loops over positions that swap in place do this, and
  no index is out of range.
-/

namespace AltNet

open List Option

variable {α : Type}

/-- The scan for the least element, `x` being the first candidate; the first
of several least elements wins. -/
def firstMin (lt : α → α → Bool) (x : α) (l : List α) : α :=
  l.foldl (fun best c => if lt c best then c else best) x

variable [DecidableEq α]

/-- What is left after the least element has been swapped to the front. -/
def afterSwap (lt : α → α → Bool) (x : α) (l : List α) : List α :=
  if firstMin lt x l = x then l else l.replace (firstMin lt x l) x

/-- The front of the list after `n` rounds of selection sort. -/
def selectMins (lt : α → α → Bool) : Nat → List α → List α
  | 0, _ => []
  | _ + 1, [] => []
  | n + 1, x :: rest => firstMin lt x rest :: selectMins lt n (afterSwap lt x rest)

/-- The rest of the list after `n` rounds. -/
def selectRest (lt : α → α → Bool) : Nat → List α → List α
  | 0, l => l
  | _ + 1, [] => []
  | n + 1, x :: rest => selectRest lt n (afterSwap lt x rest)

section Scan

omit [DecidableEq α]

theorem firstMin_mem (lt : α → α → Bool) (x : α) (l : List α) :
    firstMin lt x l ∈ x :: l := by
  induction l generalizing x with
  | nil => simp [firstMin]
  | cons c rest ih =>
    rw [firstMin, foldl_cons]
    split
    · have := ih c
      simp only [firstMin, mem_cons] at this ⊢
      tauto
    · have := ih x
      simp only [firstMin, mem_cons] at this ⊢
      tauto

variable {lt : α → α → Bool} {f : α → Nat} (hLt : ∀ a b, lt a b = true ↔ f a < f b)
include hLt

/-- The scan ends with a least element. -/
theorem firstMin_le (x : α) (l : List α) : ∀ y ∈ x :: l, f (firstMin lt x l) ≤ f y := by
  induction l generalizing x with
  | nil => simp [firstMin]
  | cons c rest ih =>
    intro y hy
    rw [firstMin, foldl_cons]
    -- the candidate for the rest of the scan is at most both `x` and `c`
    by_cases hcx : lt c x = true
    · rw [if_pos hcx]
      have hlt := (hLt c x).mp hcx
      have hc := ih c c (by simp)
      rcases mem_cons.mp hy with rfl | hy
      · exact hc.trans (le_of_lt hlt)
      · exact ih c y hy
    · rw [if_neg hcx]
      have hge : f x ≤ f c := Nat.le_of_not_lt fun h => hcx ((hLt c x).mpr h)
      have hx := ih x x (by simp)
      rcases mem_cons.mp hy with rfl | hy
      · exact hx
      · rcases mem_cons.mp hy with rfl | hy
        · exact hx.trans hge
        · exact ih x y (by simp [hy])

end Scan

/-! ## Swapping and selecting -/

private theorem perm_replace {m x : α} : ∀ {l : List α}, m ∈ l →
    (x :: l).Perm (m :: l.replace m x)
  | [], h => by simp at h
  | c :: rest, h => by
    by_cases hc : m = c
    · subst hc
      rw [replace_cons_self]
      exact List.Perm.swap m x rest
    have hRest : m ∈ rest := by simpa [hc] using h
    have hBeq : (m == c) = false := by simpa using hc
    rw [replace_cons, hBeq]
    exact ((List.Perm.swap c x rest).trans ((perm_replace hRest).cons c)).trans
      (List.Perm.swap m c _)

theorem afterSwap_perm (lt : α → α → Bool) (x : α) (l : List α) :
    (x :: l).Perm (firstMin lt x l :: afterSwap lt x l) := by
  rw [afterSwap]
  split
  · rename_i h
    rw [h]
  rename_i h
  apply perm_replace
  rcases mem_cons.mp (firstMin_mem lt x l) with hEq | hMem
  · exact absurd hEq h
  · exact hMem

/-- Selecting loses and invents nothing. -/
theorem selectMins_perm (lt : α → α → Bool) : ∀ (n : Nat) (l : List α),
    l.Perm (selectMins lt n l ++ selectRest lt n l)
  | 0, _ => List.Perm.refl _
  | _ + 1, [] => List.Perm.refl _
  | n + 1, x :: rest =>
    (afterSwap_perm lt x rest).trans ((selectMins_perm lt n (afterSwap lt x rest)).cons _)

theorem length_selectMins (lt : α → α → Bool) : ∀ (n : Nat) (l : List α),
    (selectMins lt n l).length = min n l.length
  | 0, _ => by simp [selectMins]
  | _ + 1, [] => by simp [selectMins]
  | n + 1, x :: rest => by
    have hLen : (afterSwap lt x rest).length = rest.length := by
      have := (afterSwap_perm lt x rest).length_eq
      simpa using this.symm
    rw [selectMins, length_cons, length_selectMins lt n, hLen, length_cons]
    omega

/-- Fewer rounds select the front of what more rounds select. -/
theorem take_selectMins (lt : α → α → Bool) : ∀ {m n : Nat} (l : List α), m ≤ n →
    (selectMins lt n l).take m = selectMins lt m l
  | 0, _, _, _ => by simp [selectMins]
  | m + 1, n + 1, [], _ => by simp [selectMins]
  | m + 1, n + 1, x :: rest, h => by
    rw [selectMins, selectMins, take_succ_cons,
      take_selectMins lt _ (Nat.le_of_succ_le_succ h)]

theorem mem_of_mem_selectMins {lt : α → α → Bool} {n : Nat} {l : List α} {x : α}
    (h : x ∈ selectMins lt n l) : x ∈ l :=
  (selectMins_perm lt n l).mem_iff.mpr (mem_append_left _ h)

section Order

variable {lt : α → α → Bool} {f : α → Nat} (hLt : ∀ a b, lt a b = true ↔ f a < f b)
include hLt

theorem selectMins_sorted : ∀ (n : Nat) (l : List α),
    (selectMins lt n l).Pairwise fun a b => f a ≤ f b
  | 0, _ => by simp [selectMins]
  | _ + 1, [] => by simp [selectMins]
  | n + 1, x :: rest => by
    rw [selectMins, pairwise_cons]
    refine ⟨fun y hy => ?_, selectMins_sorted n _⟩
    apply firstMin_le hLt x rest y
    exact (afterSwap_perm lt x rest).mem_iff.mpr
      (mem_cons_of_mem _ (mem_of_mem_selectMins hy))

/-- What is left over is nowhere less than what was selected. -/
theorem selectMins_le_rest : ∀ (n : Nat) (l : List α),
    ∀ a ∈ selectMins lt n l, ∀ b ∈ selectRest lt n l, f a ≤ f b
  | 0, _ => by simp [selectMins]
  | _ + 1, [] => by simp [selectMins]
  | n + 1, x :: rest => by
    intro a ha b hb
    rw [selectMins] at ha
    rw [selectRest] at hb
    rcases mem_cons.mp ha with rfl | ha
    · apply firstMin_le hLt x rest b
      refine (afterSwap_perm lt x rest).mem_iff.mpr (mem_cons_of_mem _ ?_)
      exact (selectMins_perm lt n _).mem_iff.mpr (mem_append_right _ hb)
    · exact selectMins_le_rest n _ a ha b hb

end Order

/-! ## In place -/

/-- `lt all[j] all[k]`; `none` is an index out of range. -/
def lessAt (lt : α → α → Bool) (all : List α) (j k : Nat) : Option Bool :=
  all[j]?.bind fun a => all[k]?.map (lt a)

/-- The inner loop: the position of the least element from `i` on. -/
def scanMin (lt : α → α → Bool) (all : List α) (i : Nat) : Option Nat :=
  (range' (i + 1) (all.length - (i + 1))).foldlM
    (fun minIdx j => (lessAt lt all j minIdx).map fun less => if less then j else minIdx) i

/-- `all[i], all[k] = all[k], all[i]`. -/
def swapAt (all : List α) (i k : Nat) : Option (List α) :=
  all[i]?.bind fun a => all[k]?.map fun b => (all.set i b).set k a

/-- The first `n` rounds of selection sort. -/
def selectFront (lt : α → α → Bool) (n : Nat) (all : List α) : Option (List α) :=
  (range n).foldlM (fun all i => (scanMin lt all i).bind (swapAt all i)) all

section InPlace

variable {lt : α → α → Bool} {f : α → Nat} (hLt : ∀ a b, lt a b = true ↔ f a < f b)
include hLt

omit [DecidableEq α] in
/-- The scan finds the first of the least elements. -/
theorem scanMin_steps {pre l : List α} {x : α} {n : Nat} (hn : n ≤ l.length) :
    ∃ k, (range' (pre.length + 1) n).foldlM
        (fun minIdx j => (lessAt lt (pre ++ x :: l) j minIdx).map
          fun less => if less then j else minIdx) pre.length = some (pre.length + k) ∧
      (x :: l)[k]? = some (firstMin lt x (l.take n)) ∧
      ∀ y ∈ (x :: l).take k, f (firstMin lt x (l.take n)) < f y := by
  induction n with
  | zero => exact ⟨0, rfl, rfl, by simp⟩
  | succ n ih =>
    obtain ⟨k, hScan, hAt, hFirst⟩ := ih (Nat.le_of_succ_le hn)
    have hNext : l[n]? = some l[n] := getElem?_eq_getElem hn
    have hTake : firstMin lt x (l.take (n + 1)) =
        if lt l[n] (firstMin lt x (l.take n)) then l[n] else firstMin lt x (l.take n) := by
      rw [take_succ_eq_append_getElem hn, firstMin, foldl_append, foldl_cons,
        foldl_nil, ← firstMin]
    have hLess : lessAt lt (pre ++ x :: l) (pre.length + 1 + n) (pre.length + k) =
        some (lt l[n] (firstMin lt x (l.take n))) := by
      rw [lessAt, Nat.add_assoc, getElem?_append_right (Nat.le_add_right _ _),
        getElem?_append_right (Nat.le_add_right _ _), Nat.add_sub_cancel_left,
        Nat.add_sub_cancel_left, hAt, Nat.add_comm 1 n, getElem?_cons_succ, hNext]
      rfl
    rw [range'_1_concat, foldlM_append, hScan, bind_eq_bind, bind_some,
      foldlM_cons, hLess, hTake]
    by_cases hNew : lt l[n] (firstMin lt x (l.take n)) = true
    · refine ⟨n + 1, ?_, ?_, ?_⟩
      · simp [hNew]; omega
      · rw [if_pos hNew, getElem?_cons_succ, hNext]
      · intro y hy
        rw [if_pos hNew]
        rw [take_succ_cons] at hy
        exact Nat.lt_of_lt_of_le ((hLt _ _).mp hNew) (firstMin_le hLt x _ y hy)
    · refine ⟨k, ?_, ?_, ?_⟩
      · simp [hNew]
      · rw [if_neg hNew, hAt]
      · rwa [if_neg hNew]

omit hLt in
theorem replace_eq_set {l : List α} {k : Nat} {m x : α} (hAt : l[k]? = some m)
    (hFirst : m ∉ l.take k) : l.replace m x = l.set k x := by
  induction l generalizing k with
  | nil => cases hAt
  | cons c rest ih =>
    cases k with
    | zero =>
      cases hAt
      rw [replace_cons_self, set_cons_zero]
    | succ k =>
      rw [take_succ_cons, mem_cons, not_or] at hFirst
      have hOther : (m == c) = false := beq_false_of_ne hFirst.1
      rw [replace_cons, hOther, set_cons_succ, ← ih hAt hFirst.2]

/-- **One round** swaps the first of the least elements to the front. -/
theorem round_eq (pre l : List α) (x : α) :
    (scanMin lt (pre ++ x :: l) pre.length).bind (swapAt (pre ++ x :: l) pre.length) =
      some (pre ++ firstMin lt x l :: afterSwap lt x l) := by
  obtain ⟨k, hScan, hAt, hFirst⟩ := @scanMin_steps _ _ _ hLt pre l x l.length le_rfl
  rw [take_length] at hAt hFirst
  have hLength : (pre ++ x :: l).length - (pre.length + 1) = l.length := by
    rw [length_append, length_cons]
    omega
  rw [scanMin, hLength, hScan, bind_some, swapAt, getElem?_append_right le_rfl,
    getElem?_append_right (Nat.le_add_right _ _), Nat.sub_self, Nat.add_sub_cancel_left,
    hAt, getElem?_cons_zero, bind_some, map_some,
    set_append_right _ _ le_rfl, Nat.sub_self, set_cons_zero,
    set_append_right _ _ (Nat.le_add_right _ _), Nat.add_sub_cancel_left, afterSwap]
  cases k with
  | zero =>
    have hSame : firstMin lt x l = x := (some.inj hAt).symm
    rw [if_pos hSame, hSame, set_cons_zero]
  | succ k =>
    -- It is not the first element, and it is the first of its value.
    have hOther : firstMin lt x l ≠ x := fun hSame =>
      absurd (hFirst x (by simp)) (by rw [hSame]; exact lt_irrefl _)
    have hBefore : firstMin lt x l ∉ l.take k := fun hMem =>
      lt_irrefl _ (hFirst _ (mem_cons_of_mem x hMem))
    rw [getElem?_cons_succ] at hAt
    rw [if_neg hOther, set_cons_succ, replace_eq_set hAt hBefore]

/-- Rounds behind a front that stays. -/
theorem rounds_eq (n : Nat) (pre l : List α) (hn : n ≤ l.length) :
    (range' pre.length n).foldlM
        (fun all i => (scanMin lt all i).bind (swapAt all i)) (pre ++ l) =
      some (pre ++ (selectMins lt n l ++ selectRest lt n l)) := by
  induction n generalizing pre l with
  | zero => rfl
  | succ n ih =>
    cases l with
    | nil => cases hn
    | cons x l =>
      have hLength : (afterSwap lt x l).length = l.length := by
        simpa using (afterSwap_perm lt x l).length_eq.symm
      have hRest := ih (pre ++ [firstMin lt x l]) (afterSwap lt x l)
        (by rw [hLength]; exact Nat.le_of_succ_le_succ hn)
      simp only [length_append, length_singleton, append_assoc,
        singleton_append] at hRest
      rw [range'_succ, foldlM_cons, round_eq hLt, bind_eq_bind,
        bind_some, hRest, selectMins, selectRest, cons_append]

/-- **The front and the rest of the list after `n` rounds in place.** -/
theorem selectFront_eq {n : Nat} {l : List α} (hn : n ≤ l.length) :
    selectFront lt n l = some (selectMins lt n l ++ selectRest lt n l) := by
  rw [selectFront, range_eq_range']
  exact rounds_eq hLt n [] l hn

end InPlace

end AltNet
