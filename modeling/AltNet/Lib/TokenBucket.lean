import Mathlib

/-!
# Token buckets

A bucket holds at most `burst` tokens and fills at `rate`; a request that finds
a whole token takes it. What a bucket will answer depends on its level alone,
so two buckets that are at the same level from now on cannot be told apart, and
a bucket that is not there counts as a full one.

Main results:

* `level_eq_burst` — when a bucket has filled up;
* `serve_congr` — what a bucket answers depends on its level alone;
* `countP_serve_le` — the potential: what can be taken by a time is what is
  there and what flows in until then;
* `countP_window_le` — the bound for a window of any length.
-/

namespace AltNet

open List

namespace TokenBucket

/-- What was in a bucket after its last request, and when that was. -/
structure Bucket (K : Type) where
  tokens : K
  last : K

section

variable {K : Type} [Field K] [LinearOrder K] (rate burst : K)

/-- What is in a bucket at the time `t`; a missing one is full. -/
def level : Option (Bucket K) → K → K
  | none, _ => burst
  | some b, t => min burst (b.tokens + (t - b.last) * rate)

/-- A request at the time `t`: the bucket after it, and whether it got a token. -/
def take (b : Option (Bucket K)) (t : K) : Bucket K × Bool :=
  if 1 ≤ level rate burst b t then (⟨level rate burst b t - 1, t⟩, true)
  else (⟨level rate burst b t, t⟩, false)

/-- Requests at the given times, with what each of them got. -/
def serve : Option (Bucket K) → List K → List (K × Bool)
  | _, [] => []
  | b, t :: ts =>
    (t, (take rate burst b t).2) :: serve (some (take rate burst b t).1) ts

end

variable {K : Type} [Field K] [LinearOrder K] [IsStrictOrderedRing K] {rate burst : K}

/-- A bucket that no one has overdrawn and that was last used by the time `s`. -/
def Sound (b : Option (Bucket K)) (s : K) : Prop := ∀ x ∈ b, 0 ≤ x.tokens ∧ x.last ≤ s

/-! ## Levels -/

omit [IsStrictOrderedRing K] in
theorem level_le_burst (b : Option (Bucket K)) (t : K) : level rate burst b t ≤ burst := by
  cases b with
  | none => exact le_rfl
  | some b => exact min_le_left _ _

variable {b : Option (Bucket K)} {t : K} {ts : List K}

/-- Enough time has passed for a bucket to fill up. -/
theorem level_eq_burst {b : Bucket K} {d : K} (hTokens : 0 ≤ b.tokens) (hRate : 0 ≤ rate)
    (hFull : burst ≤ d * rate) (hLong : d ≤ t - b.last) : level rate burst (some b) t = burst := by
  apply min_eq_left
  calc burst ≤ d * rate := hFull
    _ ≤ (t - b.last) * rate := mul_le_mul_of_nonneg_right hLong hRate
    _ ≤ b.tokens + (t - b.last) * rate := le_add_of_nonneg_left hTokens

theorem level_nonneg (hRate : 0 ≤ rate) (hBurst : 0 ≤ burst) (hSound : Sound b t) :
    0 ≤ level rate burst b t := by
  cases b with
  | none => exact hBurst
  | some b =>
    obtain ⟨hTokens, hLast⟩ := hSound b rfl
    exact le_min hBurst (add_nonneg hTokens (mul_nonneg (sub_nonneg.mpr hLast) hRate))

/-- What flows in is the rate times the time, at most. -/
theorem level_le_add {s : K} (b : Option (Bucket K)) (hRate : 0 ≤ rate) (hst : s ≤ t) :
    level rate burst b t ≤ level rate burst b s + rate * (t - s) := by
  have hFlow : 0 ≤ rate * (t - s) := mul_nonneg hRate (sub_nonneg.mpr hst)
  cases b with
  | none => exact le_add_of_nonneg_right hFlow
  | some b =>
    have hLater : b.tokens + (t - b.last) * rate =
        b.tokens + (s - b.last) * rate + rate * (t - s) := by ring
    rw [level, level, hLater, ← min_add_add_right]
    exact min_le_min_right _ (le_add_of_nonneg_right hFlow)

/-! ## Requests -/

theorem sound_take (hRate : 0 ≤ rate) (hBurst : 0 ≤ burst) (hSound : Sound b t) :
    Sound (some (take rate burst b t).1) t := by
  rintro x ⟨⟩
  rw [take]
  split
  · rename_i hToken
    exact ⟨sub_nonneg.mpr hToken, le_rfl⟩
  · exact ⟨level_nonneg hRate hBurst hSound, le_rfl⟩

/-- A request that is granted takes one token, and one that is not takes none. -/
theorem level_take (b : Option (Bucket K)) (t : K) :
    level rate burst (some (take rate burst b t).1) t + (if (take rate burst b t).2 then 1 else 0) =
      level rate burst b t := by
  have hLevel : level rate burst b t ≤ burst := level_le_burst b t
  rw [take]
  split
  · rw [level, sub_self, zero_mul, add_zero, min_eq_right (by linarith), if_pos rfl,
      sub_add_cancel]
  · rw [level, sub_self, zero_mul, add_zero, min_eq_right hLevel, if_neg Bool.false_ne_true,
      add_zero]

omit [IsStrictOrderedRing K] in
theorem take_congr {b' : Option (Bucket K)}
    (hLevel : level rate burst b t = level rate burst b' t) :
    take rate burst b t = take rate burst b' t := by
  rw [take, take, hLevel]

omit [IsStrictOrderedRing K] in
/-- **What a bucket answers depends on its level alone.** -/
theorem serve_congr {b' : Option (Bucket K)} {s : K} (hAfter : ∀ t ∈ ts, s ≤ t)
    (hLevel : ∀ t, s ≤ t → level rate burst b t = level rate burst b' t) :
    serve rate burst b ts = serve rate burst b' ts := by
  cases ts with
  | nil => rfl
  | cons t ts =>
    rw [serve, serve, take_congr (hLevel t (hAfter t mem_cons_self))]

/-! ## The bound -/

/-- The requests granted by the time `e`. -/
def grantedBy (e : K) (p : K × Bool) : Bool := p.2 && decide (p.1 ≤ e)

omit [IsStrictOrderedRing K] in
theorem mem_serve {p : K × Bool} (hp : p ∈ serve rate burst b ts) : p.1 ∈ ts := by
  induction ts generalizing b with
  | nil => cases hp
  | cons t ts ih =>
    rw [serve] at hp
    rcases mem_cons.mp hp with rfl | hRest
    · exact mem_cons_self
    · exact mem_cons_of_mem _ (ih hRest)

omit [IsStrictOrderedRing K] in
/-- Nothing is granted by `e` when every request comes later. -/
theorem countP_grantedBy_eq_zero {e : K} (hLate : ∀ t ∈ ts, e < t) :
    (serve rate burst b ts).countP (grantedBy e) = 0 := by
  rw [countP_eq_zero]
  intro p hp
  simp [grantedBy, not_le.mpr (hLate _ (mem_serve hp))]

omit [Field K] [IsStrictOrderedRing K] in
/-- The first of the requests is the earliest. -/
theorem head_le (hSorted : (t :: ts).Pairwise (· ≤ ·)) : ∀ u ∈ t :: ts, t ≤ u := by
  intro u hu
  rcases mem_cons.mp hu with rfl | hMem
  · exact le_rfl
  · exact (pairwise_cons.mp hSorted).1 u hMem

/-- **The potential.** From the time `s` on, at most what is in the bucket and
what flows in until `e` can be taken by then. -/
theorem countP_serve_le (hRate : 0 ≤ rate) (hBurst : 0 ≤ burst) {s e : K} (hSound : Sound b s)
    (hAfter : ∀ t ∈ ts, s ≤ t) (hSorted : ts.Pairwise (· ≤ ·)) (hse : s ≤ e) :
    ((serve rate burst b ts).countP (grantedBy e) : K) ≤
      level rate burst b s + rate * (e - s) := by
  induction ts generalizing b s with
  | nil =>
    rw [serve, countP_nil, Nat.cast_zero]
    exact add_nonneg (level_nonneg hRate hBurst hSound) (mul_nonneg hRate (sub_nonneg.mpr hse))
  | cons t ts ih =>
    have hst : s ≤ t := hAfter t mem_cons_self
    obtain ⟨hLater, hRest⟩ := pairwise_cons.mp hSorted
    by_cases hte : t ≤ e
    · have hSoundT : Sound b t := fun x hx => ⟨(hSound x hx).1, (hSound x hx).2.trans hst⟩
      have hTail := ih (sound_take hRate hBurst hSoundT) hLater hRest hte
      have hTaken : level rate burst (some (take rate burst b t).1) t +
          (if (take rate burst b t).2 then 1 else 0) = level rate burst b t := level_take b t
      have hFlow : level rate burst b t ≤ level rate burst b s + rate * (t - s) :=
        level_le_add b hRate hst
      have hHead : grantedBy e (t, (take rate burst b t).2) = (take rate burst b t).2 := by
        rw [grantedBy, decide_eq_true hte, Bool.and_true]
      rw [serve, countP_cons, hHead]
      push_cast
      calc ((serve rate burst (some (take rate burst b t).1) ts).countP (grantedBy e) : K) +
            (if (take rate burst b t).2 = true then 1 else 0)
          ≤ level rate burst (some (take rate burst b t).1) t + rate * (e - t) +
            (if (take rate burst b t).2 = true then 1 else 0) := by linarith
        _ = level rate burst b t + rate * (e - t) := by rw [← hTaken]; ring
        _ ≤ level rate burst b s + rate * (t - s) + rate * (e - t) := by linarith
        _ = level rate burst b s + rate * (e - s) := by ring
    · -- The window is over: nothing more is counted.
      rw [countP_grantedBy_eq_zero fun u hu => (not_le.mp hte).trans_le (head_le hSorted u hu),
        Nat.cast_zero]
      exact add_nonneg (level_nonneg hRate hBurst hSound) (mul_nonneg hRate (sub_nonneg.mpr hse))

/-- The requests granted between `x` and `e`. -/
def grantedIn (x e : K) (p : K × Bool) : Bool := decide (x ≤ p.1) && grantedBy e p

/-- **The bound for a window.** Between `x` and `x + d` a bucket grants at most
`burst + rate * d` requests. -/
theorem countP_window_le (hRate : 0 ≤ rate) (hBurst : 0 ≤ burst) {x d : K}
    (hSound : ∀ t ∈ ts, Sound b t) (hSorted : ts.Pairwise (· ≤ ·)) (hd : 0 ≤ d) :
    ((serve rate burst b ts).countP (grantedIn x (x + d)) : K) ≤ burst + rate * d := by
  induction ts generalizing b with
  | nil =>
    rw [serve, countP_nil, Nat.cast_zero]
    exact add_nonneg hBurst (mul_nonneg hRate hd)
  | cons t ts ih =>
    have hSoundT := hSound t mem_cons_self
    obtain ⟨hLater, hRest⟩ := pairwise_cons.mp hSorted
    by_cases hxt : x ≤ t
    · -- From here on every request is after the beginning of the window.
      have hAfter : ∀ u ∈ t :: ts, t ≤ u := head_le hSorted
      have hSame : (serve rate burst b (t :: ts)).countP (grantedIn x (x + d)) =
          (serve rate burst b (t :: ts)).countP (grantedBy (x + d)) := by
        apply countP_congr
        intro p hp
        rw [grantedIn, decide_eq_true (hxt.trans (hAfter _ (mem_serve hp))), Bool.true_and]
      rw [hSame]
      by_cases hte : t ≤ x + d
      · calc ((serve rate burst b (t :: ts)).countP (grantedBy (x + d)) : K)
            ≤ level rate burst b t + rate * (x + d - t) :=
              countP_serve_le hRate hBurst hSoundT hAfter hSorted hte
          _ ≤ burst + rate * d := by
              have hShort : rate * (x + d - t) ≤ rate * d :=
                mul_le_mul_of_nonneg_left (by linarith) hRate
              exact add_le_add (level_le_burst b t) hShort
      · rw [countP_grantedBy_eq_zero fun u hu => (not_le.mp hte).trans_le (hAfter u hu),
          Nat.cast_zero]
        exact add_nonneg hBurst (mul_nonneg hRate hd)
    · -- A request before the window is not counted.
      have hHead : grantedIn x (x + d) (t, (take rate burst b t).2) = false := by
        rw [grantedIn, decide_eq_false hxt, Bool.false_and]
      rw [serve, countP_cons_of_neg (by rw [hHead]; exact Bool.false_ne_true)]
      refine ih ?_ hRest
      intro u hu y hy
      have hNew := sound_take hRate hBurst hSoundT y hy
      exact ⟨hNew.1, hNew.2.trans (hLater u hu)⟩

end TokenBucket

end AltNet
