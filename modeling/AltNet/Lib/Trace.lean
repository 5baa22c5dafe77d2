import Mathlib

/-!
# Runs of a labelled transition system

A system is a step relation `step : σ → α → σ → Prop` between states, each
step labelled with the action that caused it. `Exec step s as t` says that
the actions `as`, in this order, can lead from `s` to `t`. Every safety
result of the development is an instance of two rules:

* `Exec.invariant` — a property that holds at the start and that each step
  keeps holds at the end of every run;
* `throughout_iff_eachStep` — where a step keeps the property *exactly when*
  it meets some condition, the property holds in every state of a run if and
  only if every step of the run meets the condition.

`throughout_iff_of_invariant` is the second rule for a property that is not
kept on its own. `Exec.rank` bounds the number of steps of a kind.

Where a system is given by a function that returns the next state, or nothing
when the action cannot be taken, `stepOf` is its step relation and `runFrom`
runs a list of actions; `Exec.of_runFrom` turns an evaluated run into an
`Exec`, and `Exec.exists_of_runFrom` adds what is checked of its last state.
-/

namespace AltNet

open List

variable {σ α : Type} {step : σ → α → σ → Prop}

/-- `Exec step s as t`: taking the actions `as` in order can lead from `s`
to `t`. -/
inductive Exec (step : σ → α → σ → Prop) : σ → List α → σ → Prop
  | nil (s : σ) : Exec step s [] s
  | snoc {s t u : σ} {as : List α} {a : α} :
      Exec step s as t → step t a u → Exec step s (as ++ [a]) u

/-- `P` holds in every state that a run along `as` passes through. -/
def Throughout (step : σ → α → σ → Prop) (s : σ) (as : List α) (P : σ → Prop) : Prop :=
  ∀ done t, done <+: as → Exec step s done t → P t

/-- `Q` holds of every action of `as` together with the state it is taken in. -/
def EachStep (step : σ → α → σ → Prop) (s : σ) (as : List α) (Q : σ → α → Prop) : Prop :=
  ∀ done a t, done ++ [a] <+: as → Exec step s done t → Q t a

/-- The steps of `step` that meet the condition `Q`. -/
def guarded (step : σ → α → σ → Prop) (Q : σ → α → Prop) : σ → α → σ → Prop :=
  fun s a t => step s a t ∧ Q s a

/-- The step relation of a next-state function. -/
def stepOf (next : σ → α → Option σ) : σ → α → σ → Prop := fun s a t => next s a = some t

/-- Take the actions in order; `none` when one of them cannot be taken. -/
def runFrom (next : σ → α → Option σ) : σ → List α → Option σ
  | s, [] => some s
  | s, a :: as => (next s a).bind fun t => runFrom next t as

namespace Exec

variable {a : α} {as : List α} {next : σ → α → Option σ} {s : σ}

/-- **Invariant rule.** -/
theorem invariant {I : σ → Prop} {t : σ} (hRun : Exec step s as t) (hInit : I s)
    (hStep : ∀ {t a u}, I t → step t a u → I u) : I t := by
  induction hRun with
  | nil => exact hInit
  | snoc _ hLast ih => exact hStep ih hLast

/-- **Rank rule.** Where each step of a kind lowers a rank, and no step raises
it, a run has at most as many of the kind as the rank at its start. -/
theorem rank (rank : σ → Nat) (kind : α → Bool) {P : σ → Prop} {t : σ} (hRun : Exec step s as t)
    (hInit : P s)
    (hStep : ∀ {t a u}, P t → step t a u → P u ∧ [a].countP kind + rank u ≤ rank t) :
    as.countP kind + rank t ≤ rank s := by
  have hBoth : P t ∧ as.countP kind + rank t ≤ rank s := by
    induction hRun with
    | nil => exact ⟨hInit, by simp⟩
    | snoc _ hLast ih =>
      obtain ⟨hKept, hLess⟩ := hStep ih.1 hLast
      refine ⟨hKept, ?_⟩
      rw [countP_append]
      omega
  exact hBoth.2

theorem single {t : σ} (h : step s a t) : Exec step s [a] t :=
  snoc (nil s) h

theorem trans {t u : σ} {bs : List α} (h : Exec step s as t) (h' : Exec step t bs u) :
    Exec step s (as ++ bs) u := by
  induction h' with
  | nil => simpa using h
  | snoc _ hLast ih =>
    rw [← append_assoc]
    exact snoc ih hLast

theorem cons {t u : σ} (h : step s a t) (h' : Exec step t as u) : Exec step s (a :: as) u :=
  trans (single h) h'

/-- An evaluated run is a run. -/
theorem of_runFrom : ∀ {s t : σ}, runFrom next s as = some t → Exec (stepOf next) s as t := by
  induction as with
  | nil =>
    intro s t h
    cases h
    exact nil s
  | cons a as ih =>
    intro s t h
    obtain ⟨u, hu, hRest⟩ := Option.bind_eq_some_iff.mp h
    exact cons hu (ih hRest)

/-- Every run is a run of a system with more steps. -/
theorem mono {step' : σ → α → σ → Prop} {t : σ} (hRun : Exec step s as t)
    (hSub : ∀ {t a u}, step t a u → step' t a u) : Exec step' s as t := by
  induction hRun with
  | nil => exact nil _
  | snoc _ hLast ih => exact snoc ih (hSub hLast)

/-- An evaluated run in which every step is checked before it is taken. -/
theorem of_checked {ok : σ → α → Bool} {t : σ}
    (hStep : ∀ {t a u}, next t a = some u → ok t a = true → step t a u)
    (h : runFrom (fun s a => if ok s a then next s a else none) s as = some t) :
    Exec step s as t := by
  refine (of_runFrom h).mono fun {t a u} hNext => ?_
  dsimp only [stepOf] at hNext
  split at hNext
  · exact hStep hNext ‹_›
  · cases hNext

section Evaluated

variable {s : σ} {as : List α} {p q : σ → Prop} [DecidablePred p]

/-- **A run by evaluation.** It ends in a state with `p`, and from that and
from the run follows `q`. -/
theorem exists_of_runFrom {next : σ → α → Option σ}
    (hEval : (runFrom next s as).any (fun t => decide (p t)) = true)
    (hEnd : ∀ t, Exec (stepOf next) s as t → p t → q t) :
    ∃ t, Exec (stepOf next) s as t ∧ q t := by
  obtain ⟨t, ht, hp⟩ := (Option.any_eq_true _ _).mp hEval
  exact ⟨t, of_runFrom ht, hEnd t (of_runFrom ht) (of_decide_eq_true hp)⟩

/-- The same where the steps are those that pass a check. -/
theorem exists_of_checked (next : σ → α → Option σ) (ok : σ → α → Bool)
    (hStep : ∀ {t a u}, next t a = some u → ok t a = true → step t a u)
    (hEval : (runFrom (fun s a => if ok s a then next s a else none) s as).any
      (fun t => decide (p t)) = true)
    (hEnd : ∀ t, Exec step s as t → p t → q t) : ∃ t, Exec step s as t ∧ q t := by
  obtain ⟨t, ht, hp⟩ := (Option.any_eq_true _ _).mp hEval
  exact ⟨t, of_checked hStep ht, hEnd t (of_checked hStep ht) (of_decide_eq_true hp)⟩

end Evaluated

/-- A run of actions that meet the guard in whatever state they are taken. -/
theorem guard {Q : σ → α → Prop} {t : σ} (hRun : Exec step s as t) (hAll : ∀ a ∈ as, ∀ u, Q u a) :
    Exec (guarded step Q) s as t := by
  induction hRun with
  | nil => exact nil _
  | snoc _ hLast ih =>
    refine snoc (ih fun a ha => hAll a (mem_append_left _ ha)) ⟨hLast, ?_⟩
    exact hAll _ (mem_append_right _ (mem_singleton_self _)) _

/-- The last step of a nonempty run. -/
theorem snoc_inv {u : σ} (h : Exec step s (as ++ [a]) u) : ∃ t, Exec step s as t ∧ step t a u := by
  generalize hbs : as ++ [a] = bs at h
  cases h with
  | nil => simp at hbs
  | snoc hInit hLast =>
    obtain ⟨rfl, hEq⟩ := append_inj' hbs rfl
    cases hEq
    exact ⟨_, hInit, hLast⟩

theorem nil_inv {u : σ} (h : Exec step s [] u) : u = s := by
  generalize hbs : ([] : List α) = bs at h
  cases h with
  | nil => rfl
  | snoc hInit hLast => simp at hbs

/-- A run splits at every point of its action list. -/
theorem split {u : σ} {bs : List α} (h : Exec step s (as ++ bs) u) :
    ∃ t, Exec step s as t ∧ Exec step t bs u := by
  induction bs using reverseRecOn generalizing u with
  | nil => exact ⟨u, by simpa using h, nil u⟩
  | append_singleton bs b ih =>
    rw [← append_assoc] at h
    obtain ⟨v, hv, hLast⟩ := h.snoc_inv
    obtain ⟨t, ht, htv⟩ := ih hv
    exact ⟨t, ht, htv.snoc hLast⟩

/-- The first step of a nonempty run. -/
theorem cons_inv {u : σ} (h : Exec step s (a :: as) u) : ∃ t, step s a t ∧ Exec step t as u := by
  have hSplit : Exec step s ([a] ++ as) u := h
  obtain ⟨t, hFirst, hRest⟩ := hSplit.split
  have hLast : Exec step s ([] ++ [a]) t := hFirst
  obtain ⟨s', hNil, hStep⟩ := hLast.snoc_inv
  obtain rfl := hNil.nil_inv
  exact ⟨t, hStep, hRest⟩

/-- Where each action has one outcome, so has each run. -/
theorem unique (hDet : ∀ t a u u', step t a u → step t a u' → u = u') {u u' : σ}
    (h : Exec step s as u) (h' : Exec step s as u') : u = u' := by
  induction h generalizing u' with
  | nil => exact h'.nil_inv.symm
  | snoc _ hLast ih =>
    obtain ⟨t', ht', hLast'⟩ := h'.snoc_inv
    rw [← ih ht'] at hLast'
    exact hDet _ _ _ _ hLast hLast'

end Exec

theorem stepOf_unique {next : σ → α → Option σ} (s : σ) (a : α) (t t' : σ)
    (h : stepOf next s a t) (h' : stepOf next s a t') : t = t' :=
  Option.some.inj (h.symm.trans h')

variable {Q : σ → α → Prop} {as : List α}

/-- Every step of a run of guarded steps meets the guard. -/
theorem eachStep_of_guarded {s t : σ} (hDet : ∀ t a u u', step t a u → step t a u' → u = u')
    (hRun : Exec (guarded step Q) s as t) : EachStep step s as Q := by
  intro done a v hPre hDone
  obtain ⟨rest, rfl⟩ := hPre
  obtain ⟨w, hw, -⟩ := hRun.split
  obtain ⟨v', hv', hLast⟩ := hw.snoc_inv
  obtain rfl := hDone.unique hDet (hv'.mono fun h => h.1)
  exact hLast.2

/-- A run by evaluation, every step of which is found to meet `Q`. -/
theorem Exec.exists_of_eachStep {s : σ} {p q : σ → Prop} [DecidablePred p]
    (next : σ → α → Option σ) (ok : σ → α → Bool)
    (hDet : ∀ t a u u', step t a u → step t a u' → u = u')
    (hStep : ∀ {t a u}, next t a = some u → ok t a = true → step t a u ∧ Q t a)
    (hEval : (runFrom (fun s a => if ok s a then next s a else none) s as).any (fun t => decide
      (p t)) = true) (hEnd : ∀ t, Exec step s as t → EachStep step s as Q → p t → q t) :
    ∃ t, Exec step s as t ∧ q t := by
  obtain ⟨t, ht, hp⟩ := (Option.any_eq_true _ _).mp hEval
  have hGuarded : Exec (guarded step Q) s as t := of_checked hStep ht
  have hRun := hGuarded.mono fun h => h.1
  exact ⟨t, hRun, hEnd t hRun (eachStep_of_guarded hDet hGuarded) (of_decide_eq_true hp)⟩

/-- What steps that meet `Q` keep holds all along a run of such steps. -/
theorem EachStep.throughout {J : σ → Prop} {s : σ} (hEach : EachStep step s as Q) (hInit : J s)
    (hKeep : ∀ t a u, J t → step t a u → Q t a → J u) : Throughout step s as J := by
  intro done v hPre hDone
  induction hDone with
  | nil => exact hInit
  | snoc hInit' hLast ih =>
    exact hKeep _ _ _ (ih ((prefix_append _ _).trans hPre)) hLast (hEach _ _ _ hPre hInit')

/-- **Exact invariant rule.** If the property holds at the start, and a step
from a state with the property keeps it exactly when it meets `Q`, then the
property holds all along a run if and only if every step meets `Q`. The
actions must be ones that can be taken to the end, else the last of them
would have no state to be judged in. -/
theorem throughout_iff_eachStep {P : σ → Prop} {s t : σ} (hRun : Exec step s as t) (hInit : P s)
    (hDet : ∀ t a u u', step t a u → step t a u' → u = u')
    (hKeep : ∀ t a u, P t → step t a u → (P u ↔ Q t a)) :
    Throughout step s as P ↔ EachStep step s as Q := by
  constructor
  · intro hAll done a v hPre hDone
    -- the run takes the action from the very state `v`
    obtain ⟨rest, rfl⟩ := hPre
    obtain ⟨w, hw, -⟩ := hRun.split
    obtain ⟨v', hv', hLast⟩ := hw.snoc_inv
    obtain rfl := hDone.unique hDet hv'
    have hv : P v := hAll done v (by simp) hDone
    have hPw : P w := hAll (done ++ [a]) w (by simp) hw
    exact (hKeep v a w hv hLast).mp hPw
  · exact fun hAll => hAll.throughout hInit fun t a u ht hStep => (hKeep t a u ht hStep).mpr

/-- The same where what a step keeps is a stronger `J`, which a step that does
not meet `Q` breaks so badly that `P` fails too. -/
theorem throughout_iff_of_invariant {J P : σ → Prop} {s t : σ} (hRun : Exec step s as t)
    (hInit : J s) (hDet : ∀ t a u u', step t a u → step t a u' → u = u') (hSound : ∀ t, J t → P t)
    (hKeep : ∀ t a u, J t → step t a u → Q t a → J u)
    (hSharp : ∀ t a u, J t → step t a u → P u → Q t a) :
    Throughout step s as P ↔ EachStep step s as Q := by
  have hExact : Throughout step s as J ↔ EachStep step s as Q :=
    throughout_iff_eachStep hRun hInit hDet fun t a u ht hStep =>
      ⟨fun hu => hSharp t a u ht hStep (hSound u hu), hKeep t a u ht hStep⟩
  rw [← hExact]
  refine ⟨?_, fun hAll done t hPre hDone => hSound t (hAll done t hPre hDone)⟩
  intro hAll done u hPre hDone
  -- along the run `J` holds, as long as `P` does
  induction hDone with
  | nil => exact hInit
  | snoc hInit' hLast ih =>
    have ht := ih ((prefix_append _ _).trans hPre)
    have hu := hAll _ _ hPre (hInit'.snoc hLast)
    exact hKeep _ _ _ ht hLast (hSharp _ _ _ ht hLast hu)

end AltNet
