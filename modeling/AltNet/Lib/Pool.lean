import Mathlib

/-!
# Pools of processes

Processes that run side by side are kept in a list, each under its index: a
new one is appended, and a step replaces one of them. The lemmas say what such
a change leaves as it was.

Main results:

* `forall_pool_set`, `forall_pool_append` — what holds of each process, after
  one of them has taken a step or another one has started;
* `countP_pool_set` — how many processes are of some kind, after a step;
* `Evolves.set`, `Evolves.append` — every process is still there, and has
  changed only as a step may change it.
-/

namespace AltNet

open List

variable {π : Type} {ps ps' : List π} {i j : Nat} {p p' q : π}

/-- A process after another one, or it itself, has taken a step. -/
theorem pool_set_cases (h : (ps.set i p')[j]? = some q) :
    (j = i ∧ q = p') ∨ (j ≠ i ∧ ps[j]? = some q) := by
  rw [getElem?_set] at h
  by_cases hIndex : i = j
  · rw [if_pos hIndex] at h
    split at h
    · cases h
      exact Or.inl ⟨hIndex.symm, rfl⟩
    · cases h
  · rw [if_neg hIndex] at h
    exact Or.inr ⟨fun hEq => hIndex hEq.symm, h⟩

/-- A process after another one, or it itself, has started. -/
theorem pool_append_cases (h : (ps ++ [p])[j]? = some q) :
    (j = ps.length ∧ q = p) ∨ (j < ps.length ∧ ps[j]? = some q) := by
  rcases Nat.lt_or_ge j ps.length with hLt | hGe
  · rw [getElem?_append_left hLt] at h
    exact Or.inr ⟨hLt, h⟩
  rw [getElem?_append_right hGe] at h
  rw [getElem?_singleton] at h
  split at h
  · cases h
    left
    exact ⟨by omega, rfl⟩
  · cases h

theorem pool_set_self (h : ps[i]? = some p) : (ps.set i p')[i]? = some p' :=
  getElem?_set_self (List.getElem?_eq_some_iff.mp h).1

theorem pool_append_self : (ps ++ [p])[ps.length]? = some p := getElem?_concat_length

theorem pool_set_other (hIndex : j ≠ i) (h : ps[j]? = some q) : (ps.set i p')[j]? = some q := by
  rw [getElem?_set_ne fun hEq => hIndex hEq.symm]
  exact h

theorem pool_append_old (h : ps[j]? = some q) : (ps ++ [p])[j]? = some q := by
  rw [getElem?_append_left (List.getElem?_eq_some_iff.mp h).1]
  exact h

/-- What a step leaves as it was, seen over the whole pool. -/
theorem pool_map_set {ρ : Type} {f : π → ρ} (h : ps[i]? = some p) (hSame : f p' = f p) :
    (ps.set i p').map f = ps.map f := by
  rw [map_set, hSame]
  refine ext_getElem? fun j => ?_
  by_cases hIndex : j = i
  · subst hIndex
    rw [getElem?_set_self, getElem?_map, h]
    · rfl
    · rw [length_map]
      exact (List.getElem?_eq_some_iff.mp h).1
  · rw [getElem?_set_ne fun hEq => hIndex hEq.symm]

variable {P : Nat → π → Prop} {R : π → π → Prop}

theorem forall_pool_set (hAll : ∀ (j : Nat) q, ps[j]? = some q → P j q) (hStep : P i p') :
    ∀ (j : Nat) q, (ps.set i p')[j]? = some q → P j q := by
  intro j q hq
  rcases pool_set_cases hq with ⟨rfl, rfl⟩ | ⟨-, hOld⟩
  · exact hStep
  · exact hAll j q hOld

theorem forall_pool_append (hAll : ∀ (j : Nat) q, ps[j]? = some q → P j q)
    (hStart : P ps.length p) : ∀ (j : Nat) q, (ps ++ [p])[j]? = some q → P j q := by
  intro j q hq
  rcases pool_append_cases hq with ⟨rfl, rfl⟩ | ⟨-, hOld⟩
  · exact hStart
  · exact hAll j q hOld

/-- How many processes are of some kind, after one of them has taken a
step. -/
theorem countP_pool_set {f : π → Bool} (h : ps[i]? = some p) :
    (ps.set i p').countP f + (if f p then 1 else 0) = ps.countP f + if f p' then 1 else 0 := by
  obtain ⟨hLt, rfl⟩ := List.getElem?_eq_some_iff.mp h
  have hPos : f ps[i] = true → 0 < ps.countP f := fun hf =>
    countP_pos_iff.mpr ⟨_, getElem_mem hLt, hf⟩
  rw [countP_set hLt]
  cases hf : f ps[i] with
  | false => simp
  | true =>
    have hCount := hPos hf
    simp only [if_true]
    omega

/-- Every process of `ps` is still there in `ps'`, related by `R` to what it
was. -/
def Evolves (R : π → π → Prop) (ps ps' : List π) : Prop :=
  ∀ (i : Nat) p, ps[i]? = some p → ∃ p', ps'[i]? = some p' ∧ R p p'

theorem Evolves.set (hRefl : ∀ p, R p p) (h : ps[i]? = some p) (hStep : R p p') :
    Evolves R ps (ps.set i p') := by
  intro j q hq
  by_cases hIndex : j = i
  · subst hIndex
    rw [h] at hq
    cases hq
    exact ⟨p', pool_set_self h, hStep⟩
  · exact ⟨q, pool_set_other hIndex hq, hRefl q⟩

theorem Evolves.append (hRefl : ∀ p, R p p) : Evolves R ps (ps ++ [p]) := by
  intro j q hq
  exact ⟨q, pool_append_old hq, hRefl q⟩

end AltNet
