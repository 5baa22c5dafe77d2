import AltNet.Lib.Hex

/-!
# One direction of a connection

What TCP makes of the bytes that are written on a connection: they arrive in
order, in pieces that have nothing to do with how they were written. A read
takes some of those that are on the way. When the connection breaks, those that
are still on the way and all later ones are lost; nothing else ever is.

A wire remembers everything that was sent on it, and how much of that has
arrived.

Main results:

* `Wire.arrived_append_onWay` — what has arrived and what is on the way make up
  what was sent;
* `Wire.receive_some` — what a read takes is the next piece;
* `Wire.receive_drained` — which is nothing when everything has arrived.
-/

namespace AltNet

structure Wire where
  sent : Bytes
  taken : Nat
  cut : Bool
  taken_le : taken ≤ sent.length

namespace Wire

variable (l : Wire)

def empty : Wire := ⟨[], 0, false, Nat.le_refl 0⟩

/-- What the other side has read. -/
def arrived : Bytes := l.sent.take l.taken

/-- What it has not read yet. -/
def onWay : Bytes := l.sent.drop l.taken

def send (bs : Bytes) : Wire where
  sent := l.sent ++ bs
  taken := l.taken
  cut := l.cut
  taken_le := by
    rw [List.length_append]
    exact Nat.le_add_right_of_le l.taken_le

/-- A read that takes `k` bytes; `none` when they cannot arrive. -/
def receive (k : Nat) : Option (Bytes × Wire) :=
  if h : l.cut = false ∧ l.taken + k ≤ l.sent.length then
    some (l.onWay.take k, { l with taken := l.taken + k, taken_le := h.2 })
  else none

/-- The connection breaks. -/
def sever : Wire := { l with cut := true }

theorem arrived_append_onWay : l.arrived ++ l.onWay = l.sent := List.take_append_drop _ _

theorem arrived_prefix_sent : l.arrived <+: l.sent := List.take_prefix _ _

theorem arrived_of_onWay (h : l.onWay = []) : l.arrived = l.sent := by
  have hAll := l.arrived_append_onWay
  rw [h, List.append_nil] at hAll
  exact hAll

@[simp] theorem arrived_send (bs : Bytes) : (l.send bs).arrived = l.arrived :=
  List.take_append_of_le_length l.taken_le

variable {l}

theorem receive_some {l' : Wire} {k : Nat} {bs : Bytes} (h : l.receive k = some (bs, l')) :
    l'.sent = l.sent ∧ l'.arrived = l.arrived ++ bs := by
  unfold receive at h
  split at h
  case isTrue hRoom =>
    obtain ⟨rfl, rfl⟩ := Prod.mk.inj (Option.some.inj h)
    exact ⟨rfl, List.take_add⟩
  case isFalse => cases h

theorem receive_drained {l' : Wire} {k : Nat} {bs : Bytes} (h : l.receive k = some (bs, l'))
    (hAll : l.arrived = l.sent) : bs = [] := by
  obtain ⟨hSent, hArrived⟩ := receive_some h
  have hLength := l'.arrived_prefix_sent.length_le
  rw [hSent, hArrived, hAll, List.length_append] at hLength
  exact List.eq_nil_of_length_eq_zero (by omega)

end Wire

end AltNet
