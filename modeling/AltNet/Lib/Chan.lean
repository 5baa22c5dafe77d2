import Mathlib

/-!
# Buffered channels

A Go channel with a buffer: what it holds never exceeds its capacity. A send
in a `select` with a `default` case does not wait; when the channel is closed
it panics, as does closing it once more. A receive takes the oldest item, also
from a closed channel, and ends only when there are none left.

Main results:

* `Chan.trySend_eq_sent`, `Chan.trySend_eq_full`, `Chan.trySend_eq_panic` —
  when a send goes through, when it does not, and when it panics;
* `Chan.tryReceive_eq_item` — a receive leaves the channel open or closed;
* `Chan.close_eq_some`, `Chan.close_eq_none` — the same for `close`.
-/

namespace AltNet

/-- Go's `chan α` with a buffer of `cap` items. -/
structure Chan (α : Type) (cap : Nat) where
  buffer : List α
  closed : Bool
  fits : buffer.length ≤ cap

namespace Chan

variable {α : Type} {cap : Nat}

/-- `make(chan α, cap)`. -/
def make : Chan α cap := ⟨[], false, Nat.zero_le _⟩

/-- What comes of a send that does not wait. -/
inductive Sent (α : Type) (cap : Nat) where
  | sent (ch : Chan α cap)
  | full
  | panic

/-- `select { case ch <- a: … default: … }`. -/
def trySend (ch : Chan α cap) (a : α) : Sent α cap :=
  if ch.closed then .panic
  else if hRoom : ch.buffer.length < cap then
    .sent ⟨ch.buffer ++ [a], ch.closed, by rw [List.length_append]; exact hRoom⟩
  else .full

/-- What comes of a receive; one that is blocked has to wait. -/
inductive Received (α : Type) (cap : Nat) where
  | item (a : α) (ch : Chan α cap)
  | ended
  | blocked

/-- `<-ch`. -/
def tryReceive (ch : Chan α cap) : Received α cap :=
  match h : ch.buffer with
  | a :: rest => .item a ⟨rest, ch.closed, by
      have hFits := ch.fits
      rw [h, List.length_cons] at hFits
      omega⟩
  | [] => if ch.closed then .ended else .blocked

/-- `close(ch)`; `none` is a panic. -/
def close (ch : Chan α cap) : Option (Chan α cap) :=
  if ch.closed then none else some { ch with closed := true }

variable {a : α} {ch : Chan α cap}

theorem trySend_eq_sent {ch' : Chan α cap} (h : ch.trySend a = .sent ch') :
    ch.closed = false ∧ ch'.closed = false ∧ ch'.buffer = ch.buffer ++ [a] := by
  unfold trySend at h
  by_cases hClosed : ch.closed = true
  · rw [if_pos hClosed] at h
    cases h
  rw [if_neg hClosed] at h
  split at h
  · obtain rfl := Sent.sent.inj h
    exact ⟨Bool.eq_false_iff.mpr hClosed, Bool.eq_false_iff.mpr hClosed, rfl⟩
  · cases h

theorem trySend_eq_panic : ch.trySend a = .panic ↔ ch.closed = true := by
  unfold trySend
  by_cases hClosed : ch.closed = true
  · rw [if_pos hClosed]
    exact ⟨fun _ => hClosed, fun _ => rfl⟩
  rw [if_neg hClosed]
  refine ⟨fun h => ?_, fun h => absurd h hClosed⟩
  split at h
  · cases h
  · cases h

theorem trySend_eq_full (h : ch.trySend a = .full) :
    ch.closed = false ∧ cap ≤ ch.buffer.length := by
  unfold trySend at h
  by_cases hClosed : ch.closed = true
  · rw [if_pos hClosed] at h
    cases h
  rw [if_neg hClosed] at h
  split at h
  · cases h
  · exact ⟨Bool.eq_false_iff.mpr hClosed, by omega⟩

/-- A send goes through where there is room. -/
theorem exists_trySend_sent (hOpen : ch.closed = false) (hRoom : ch.buffer.length < cap) (a : α) :
    ∃ ch', ch.trySend a = .sent ch' := by
  unfold trySend
  rw [if_neg (by simp [hOpen]), dif_pos hRoom]
  exact ⟨_, rfl⟩

/-- Where a send has gone through there was room. -/
theorem length_lt_of_sent {ch' : Chan α cap} (h : ch.trySend a = .sent ch') :
    ch.buffer.length < cap := by
  have hFits := ch'.fits
  rw [(trySend_eq_sent h).2.2, List.length_append, List.length_singleton] at hFits
  omega

theorem tryReceive_eq_item {ch' : Chan α cap} (h : ch.tryReceive = .item a ch') :
    ch'.closed = ch.closed ∧ ch.buffer = a :: ch'.buffer := by
  unfold tryReceive at h
  split at h
  case h_1 b rest hBuffer =>
    obtain ⟨rfl, rfl⟩ := Received.item.inj h
    exact ⟨rfl, hBuffer⟩
  case h_2 =>
    split at h
    · cases h
    · cases h

theorem close_eq_some {ch' : Chan α cap} (h : ch.close = some ch') :
    ch.closed = false ∧ ch' = { ch with closed := true } := by
  unfold close at h
  by_cases hClosed : ch.closed = true
  · rw [if_pos hClosed] at h
    cases h
  · rw [if_neg hClosed] at h
    exact ⟨Bool.eq_false_iff.mpr hClosed, (Option.some.inj h).symm⟩

theorem close_eq_none : ch.close = none ↔ ch.closed = true := by
  unfold close
  by_cases hClosed : ch.closed = true
  · rw [if_pos hClosed]
    exact ⟨fun _ => hClosed, fun _ => rfl⟩
  · rw [if_neg hClosed]
    exact ⟨nofun, fun h => absurd h hClosed⟩

end Chan

end AltNet
