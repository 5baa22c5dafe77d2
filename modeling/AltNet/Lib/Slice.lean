import Mathlib.Data.List.Basic
import AltNet.Lib.Hex

/-!
# Byte slices with their range checks

Go's index and slice expressions on a `[]byte` whose capacity is its length, and
`encoding/binary`'s two-byte numbers in network order. An index out of range
panics, so every access is a computation that may fail; a loop that is cut off
counts as still running.

Main results:

* `byteAt_of_lt`, `slice_of_le`, `uint16At_of_le`, `putUint16_of_le` — an access in
  range does not fail, and what it gives;
* `uint16_append_left`, `uint16_append_right` — a number is read from the part of
  a message that holds it.
-/

namespace AltNet

open List

/-- How a function ends that returns no value: with an error of its own, with a
panic of the runtime, or not within the steps it was given. -/
inductive Fault (ε : Type)
  | err (e : ε)
  | panic
  | running
  deriving DecidableEq, Repr

section Access

variable {ε : Type}

/-- `p[i]`. -/
def byteAt (p : Bytes) (i : Nat) : Except (Fault ε) UInt8 :=
  match p[i]? with
  | some b => .ok b
  | none => .error .panic

/-- `p[i:j]`. -/
def slice (p : Bytes) (i j : Nat) : Except (Fault ε) Bytes :=
  if i ≤ j ∧ j ≤ p.length then .ok ((p.drop i).take (j - i)) else .error .panic

/-- `binary.BigEndian.Uint16(p[i : i+2])`. -/
def uint16At (p : Bytes) (i : Nat) : Except (Fault ε) Nat := do
  let b ← slice p i (i + 2)
  let hi ← byteAt b 0
  let lo ← byteAt b 1
  return hi.toNat * 256 + lo.toNat

/-- The two bytes of a 16-bit number. -/
def uint16Bytes (v : Nat) : Bytes := [UInt8.ofNat (v / 256), UInt8.ofNat v]

/-- `binary.BigEndian.PutUint16(p[i : i+2], v)`, as the slice that it leaves. -/
def putUint16 (p : Bytes) (i v : Nat) : Except (Fault ε) Bytes :=
  if i + 2 ≤ p.length then .ok (p.take i ++ uint16Bytes v ++ p.drop (i + 2))
  else .error .panic

/-- The 16-bit number that stands at `i`. -/
def uint16 (p : Bytes) (i : Nat) : Nat := (p.getD i 0).toNat * 256 + (p.getD (i + 1) 0).toNat

variable {i : Nat} {p : Bytes}

theorem byteAt_of_lt (h : i < p.length) :
    byteAt p i = (.ok (p.getD i 0) : Except (Fault ε) UInt8) := by
  simp [byteAt, h]

theorem slice_of_le {j : Nat} (hFrom : i ≤ j) (hTo : j ≤ p.length) :
    slice p i j = (.ok ((p.drop i).take (j - i)) : Except (Fault ε) Bytes) :=
  if_pos ⟨hFrom, hTo⟩

theorem uint16At_of_le (h : i + 2 ≤ p.length) :
    uint16At p i = (.ok (uint16 p i) : Except (Fault ε) Nat) := by
  have hPiece : (p.drop i).take 2 = [p.getD i 0, p.getD (i + 1) 0] := by
    have hHigh : i < p.length := by omega
    have hLow : i + 1 < p.length := by omega
    rw [drop_eq_getElem_cons hHigh, drop_eq_getElem_cons hLow, take_succ_cons,
      take_succ_cons, take_zero, getD_eq_getElem _ _ hHigh,
      getD_eq_getElem _ _ hLow]
  rw [uint16At, slice_of_le (Nat.le_add_right i 2) h, Nat.add_sub_cancel_left, hPiece]
  rfl

theorem putUint16_of_le (v : Nat) (h : i + 2 ≤ p.length) :
    putUint16 p i v =
      (.ok (p.take i ++ uint16Bytes v ++ p.drop (i + 2)) : Except (Fault ε) Bytes) :=
  if_pos h

/-- The next number of a header that is written from its start. -/
theorem putUint16_next {done : Bytes} (v : Nat) (h : done.length + 2 ≤ p.length) :
    putUint16 (done ++ p.drop done.length) done.length v =
      (.ok ((done ++ uint16Bytes v) ++ p.drop (done ++ uint16Bytes v).length) :
        Except (Fault ε) Bytes) := by
  rw [putUint16_of_le v (by rw [length_append, length_drop]; omega), take_left,
    drop_append, drop_eq_nil_of_le (Nat.le_add_right _ 2), nil_append,
    Nat.add_sub_cancel_left, drop_drop, length_append]
  rfl

end Access

theorem uint16_lt (p : Bytes) (i : Nat) : uint16 p i < 65536 := by
  have hHigh := (p.getD i 0).toNat_lt
  have hLow := (p.getD (i + 1) 0).toNat_lt
  simp only [uint16]
  omega

theorem uint16_append_left {p : Bytes} {i : Nat} (h : i + 2 ≤ p.length) (rest : Bytes) :
    uint16 (p ++ rest) i = uint16 p i := by
  rw [uint16, uint16, getD_append _ _ _ _ (by omega), getD_append _ _ _ _ (by omega)]

theorem uint16_append_right (p rest : Bytes) (i : Nat) :
    uint16 (p ++ rest) (p.length + i) = uint16 rest i := by
  rw [uint16, uint16, Nat.add_assoc, getD_append_right _ _ _ _ (by omega),
    getD_append_right _ _ _ _ (by omega), Nat.add_sub_cancel_left,
    Nat.add_sub_cancel_left]

theorem uint16_bytes {v : Nat} (h : v < 65536) (rest : Bytes) :
    uint16 (uint16Bytes v ++ rest) 0 = v := by
  show (UInt8.ofNat (v / 256)).toNat * 256 + (UInt8.ofNat v).toNat = v
  rw [UInt8.toNat_ofNat', UInt8.toNat_ofNat']
  omega

end AltNet
