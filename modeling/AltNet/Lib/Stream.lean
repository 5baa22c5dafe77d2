import AltNet.Lib.Hex

/-!
# Byte streams with an end

The reading side of a connection: the bytes that have arrived and have not
been taken yet, and whether the stream has come to its end. `readFull` is Go's
`io.ReadFull`. It takes as many bytes as it is asked for; at the end of the
stream it takes what is left and fails; and it waits where neither is
possible.

Bytes that arrive later never change what an earlier read returned, so it does
not matter how a stream is cut into pieces on the way.

Main results:

* `Stream.readFull_append` — a read that has its bytes takes the same ones
  when more follow;
* `Stream.readFull_open` — while the stream goes on, a read only returns with
  its bytes;
* `prefix_flatMap` — wherever a stream of packets is cut, it holds the first
  few of them and a part of the next one.
-/

namespace AltNet

open List

structure Stream where
  pending : Bytes
  ended : Bool
  deriving DecidableEq

/-- How a read at the end of a stream fails: with nothing left, or with less
than was wanted. -/
inductive StreamError where
  | eof
  | unexpectedEOF
  deriving DecidableEq

namespace Stream

/-- More bytes arrive. -/
def append (s : Stream) (bytes : Bytes) : Stream := { s with pending := s.pending ++ bytes }

/-- `io.ReadFull` into a buffer of `k` bytes; `none` while it waits. -/
def readFull (s : Stream) (k : Nat) : Option (Stream × Except StreamError Bytes) :=
  if k ≤ s.pending.length then some (⟨s.pending.drop k, s.ended⟩, .ok (s.pending.take k))
  else if s.ended then
    some (⟨[], true⟩, .error (if s.pending = [] then .eof else .unexpectedEOF))
  else none

variable {s : Stream} {k : Nat}

/-- A read takes what is at the front. -/
theorem readFull_front (front rest : Bytes) (ended : Bool) :
    readFull ⟨front ++ rest, ended⟩ front.length = some (⟨rest, ended⟩, .ok front) := by
  unfold readFull
  rw [if_pos (by simp)]
  simp

theorem readFull_ok {s' : Stream} {bytes : Bytes} (h : s.readFull k = some (s', .ok bytes)) :
    s.pending = bytes ++ s'.pending ∧ bytes.length = k ∧ s'.ended = s.ended := by
  unfold readFull at h
  split at h
  · rename_i hEnough
    cases h
    exact ⟨(take_append_drop k _).symm, length_take_of_le hEnough, rfl⟩
  · split at h <;> cases h

theorem readFull_append {s' : Stream} {bytes : Bytes} (more : Bytes)
    (h : s.readFull k = some (s', .ok bytes)) :
    (s.append more).readFull k = some (s'.append more, .ok bytes) := by
  obtain ⟨hPending, hLength, hEnded⟩ := readFull_ok h
  subst hLength
  have hFront := readFull_front bytes (s'.pending ++ more) s.ended
  rw [← append_assoc, ← hPending] at hFront
  rw [append, append, hEnded]
  exact hFront

theorem readFull_open {r : Stream × Except StreamError Bytes} (hOpen : s.ended = false)
    (h : s.readFull k = some r) : ∃ s' bytes, r = (s', .ok bytes) := by
  unfold readFull at h
  split at h
  · cases h
    exact ⟨_, _, rfl⟩
  · rw [if_neg (by simp [hOpen])] at h
    cases h

end Stream

/-- A stream that is cut somewhere: some packets, and the beginning of the next
one or of what comes after the last. -/
theorem prefix_flatMap {ι : Type} {f : ι → Bytes} {tail : Bytes} (xs : List ι) {arrived : Bytes}
    (h : arrived <+: xs.flatMap f ++ tail) :
    ∃ k part, arrived = (xs.take k).flatMap f ++ part ∧
      ((∃ x ∈ xs, part <+: f x ∧ part ≠ f x ∧ arrived.length < (xs.flatMap f).length) ∨
        (part <+: tail ∧ k = xs.length)) := by
  induction xs generalizing arrived with
  | nil => exact ⟨0, arrived, rfl, .inr ⟨h, rfl⟩⟩
  | cons x xs ih =>
    rw [flatMap_cons, append_assoc] at h
    rcases Nat.lt_or_ge arrived.length (f x).length with hShort | hLong
    · have hPart : arrived <+: f x :=
        prefix_of_prefix_length_le h (prefix_append _ _) hShort.le
      refine ⟨0, arrived, rfl, .inl ⟨x, mem_cons_self, hPart, ?_, ?_⟩⟩
      · intro hEq
        rw [hEq] at hShort
        exact Nat.lt_irrefl _ hShort
      · rw [flatMap_cons, length_append]
        omega
    · obtain ⟨more, rfl⟩ := prefix_of_prefix_length_le (prefix_append _ _) h hLong
      obtain ⟨k, part, rfl, hPart⟩ := ih ((prefix_append_right_inj (f x)).mp h)
      refine ⟨k + 1, part, by simp, ?_⟩
      rcases hPart with ⟨y, hy, hPre, hNe, hLess⟩ | ⟨hTail, hk⟩
      · refine .inl ⟨y, mem_cons_of_mem _ hy, hPre, hNe, ?_⟩
        simp only [flatMap_cons, length_append] at hLess ⊢
        omega
      · exact .inr ⟨hTail, by rw [hk, length_cons]⟩

end AltNet
