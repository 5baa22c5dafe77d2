import AltNet.Lib.Hex

/-!
# AltNet — node identifiers and the XOR metric (`core/dht/id.go`)

A `NodeID` is 32 bytes. Peers are identified by the SHA-256 of their key,
content by the SHA-256 of its bytes, names by the SHA-256 of the name, and
all three live in this one space. Distance is the XOR of two identifiers,
read as a big-endian number; the code never builds that number but compares
the two XORs byte by byte (`distanceLess`).

Main results:

* `idFromHex_hex` / `NodeID.hex_injective` — an identifier and its text
  determine each other;
* `idFromHex_eq_some_iff` — the text of an identifier may be in any case but
  must not be padded;
* `distanceLess_iff` — the byte-wise comparison orders identifiers by their
  distance as numbers.
-/

namespace AltNet

open List

/-- `IDSize`. -/
def idSize : Nat := 32

/-- `NodeID [IDSize]byte`. -/
@[ext]
structure NodeID where
  bytes : Bytes
  length_eq : bytes.length = idSize
  deriving DecidableEq

/-- `IDFromHex`: the decoded text must have exactly 32 bytes. -/
def idFromHex (s : GoString) : Option NodeID :=
  match hexDecode s with
  | none => none
  | some raw => if h : raw.length = idSize then some ⟨raw, h⟩ else none

namespace NodeID

/-- `NodeID.Hex`. -/
def hex (n : NodeID) : GoString := hexEncode n.bytes

/-- `NodeID.XOR`. -/
def xor (n other : NodeID) : NodeID :=
  ⟨zipWith (· ^^^ ·) n.bytes other.bytes, by
    rw [length_zipWith, n.length_eq, other.length_eq, Nat.min_self]⟩

/-- The identifier with the same byte everywhere. -/
def fill (b : UInt8) : NodeID := ⟨replicate idSize b, length_replicate⟩

end NodeID

/-- The position of the first set bit of a byte, `8` when there is none: the
inner loop of `CommonPrefixLen`. -/
def leadingZeros (x : UInt8) : Nat :=
  ((range 8).find? fun j => x &&& (1 <<< UInt8.ofNat (7 - j)) ≠ 0).getD 8

/-- The outer loop of `CommonPrefixLen`, on the XOR of the two identifiers
from byte `i` on. -/
def sharedBitsFrom : Nat → Bytes → Nat
  | i, [] => i * 8
  | i, x :: rest => if x = 0 then sharedBitsFrom (i + 1) rest else i * 8 + leadingZeros x

/-- `NodeID.CommonPrefixLen`. -/
def NodeID.commonPrefixLen (n other : NodeID) : Nat := sharedBitsFrom 0 (n.xor other).bytes

/-- The loop of `DistanceLess`, on the two XORs. -/
def bytesLess : Bytes → Bytes → Bool
  | da :: as, db :: bs => if da ≠ db then decide (da < db) else bytesLess as bs
  | _, _ => false

/-- `DistanceLess`. -/
def distanceLess (self a b : NodeID) : Bool := bytesLess (self.xor a).bytes (self.xor b).bytes

/-- A byte string as a big-endian number. -/
def bytesToNat : Bytes → Nat
  | [] => 0
  | b :: rest => b.toNat * 256 ^ rest.length + bytesToNat rest

/-- `distanceBigInt`: the XOR distance as a number. -/
def distance (a b : NodeID) : Nat := bytesToNat (a.xor b).bytes

/-! ## Identifiers as text -/

@[simp] theorem idFromHex_hex (n : NodeID) : idFromHex n.hex = some n := by
  simp [idFromHex, NodeID.hex, hexDecode_hexEncode, n.length_eq]

theorem NodeID.hex_injective : Function.Injective NodeID.hex := by
  rintro ⟨a, ha⟩ ⟨b, hb⟩ h
  obtain rfl : a = b := hexEncode_injective h
  rfl

theorem NodeID.length_hex (n : NodeID) : n.hex.length = 64 := by
  rw [NodeID.hex, length_hexEncode, n.length_eq]
  rfl

theorem NodeID.hex_ne_nil (n : NodeID) : n.hex ≠ [] := by
  intro h
  have := n.length_hex
  simp [h] at this

theorem idFromHex_hexDecode {s : GoString} {id : NodeID} (h : idFromHex s = some id) :
    hexDecode s = some id.bytes := by
  rw [idFromHex] at h
  split at h
  · cases h
  rename_i raw hraw
  split at h
  · cases h
    exact hraw
  · cases h

theorem idFromHex_toLower (s : GoString) : idFromHex (toLower s) = idFromHex s := by
  rw [idFromHex, idFromHex, hexDecode_toLower]

/-- A text is parsed to `id` exactly when it is unpadded and its normal form
is. -/
theorem idFromHex_eq_some_iff {s : GoString} {id : NodeID} :
    idFromHex s = some id ↔ trimSpace s = s ∧ idFromHex (normalise s) = some id := by
  constructor
  · intro h
    have hTrim := hexDecode_trimmed (idFromHex_hexDecode h)
    exact ⟨hTrim, by rw [normalise, hTrim, idFromHex_toLower, h]⟩
  · rintro ⟨hTrim, h⟩
    rwa [normalise, hTrim, idFromHex_toLower] at h

/-- A padded text is never an identifier. -/
theorem idFromHex_space_cons {c : Char} (hc : isSpaceRune c = true) (s : GoString) :
    idFromHex (c :: s) = none := by
  cases h : idFromHex (c :: s) with
  | none => rfl
  | some id =>
    have hNo := hexDecode_no_space (idFromHex_hexDecode h) c (by simp)
    rw [hc] at hNo
    cases hNo

/-! ## Distance -/

theorem bytesToNat_lt (bs : Bytes) : bytesToNat bs < 256 ^ bs.length := by
  induction bs with
  | nil => simp [bytesToNat]
  | cons b rest ih =>
    have hb : b.toNat < 256 := b.toNat_lt
    rw [bytesToNat, length_cons, pow_succ]
    calc b.toNat * 256 ^ rest.length + bytesToNat rest
        < b.toNat * 256 ^ rest.length + 256 ^ rest.length := by omega
      _ = (b.toNat + 1) * 256 ^ rest.length := by ring
      _ ≤ 256 * 256 ^ rest.length := Nat.mul_le_mul_right _ hb
      _ = 256 ^ rest.length * 256 := by ring

/-- Of two byte strings of one length, the first difference decides. -/
theorem bytesLess_iff : ∀ {as bs : Bytes}, as.length = bs.length →
    (bytesLess as bs = true ↔ bytesToNat as < bytesToNat bs)
  | [], [], _ => by simp [bytesLess, bytesToNat]
  | a :: as, b :: bs, h => by
    have hlen : as.length = bs.length := by simpa using h
    have hA := bytesToNat_lt as
    have hB := bytesToNat_lt bs
    have ih := bytesLess_iff hlen
    rw [bytesLess, bytesToNat, bytesToNat, hlen]
    rw [hlen] at hA
    by_cases hab : a = b
    · subst hab
      simp [ih]
    rw [if_pos hab, decide_eq_true_eq, UInt8.lt_iff_toNat_lt]
    have hne : a.toNat ≠ b.toNat := fun hEq => hab (UInt8.toNat_inj.mp hEq)
    constructor
    · intro hlt
      have hStep : (a.toNat + 1) * 256 ^ bs.length ≤ b.toNat * 256 ^ bs.length :=
        Nat.mul_le_mul_right _ hlt
      rw [Nat.add_mul, Nat.one_mul] at hStep
      omega
    · intro hlt
      by_contra hge
      have hStep : (b.toNat + 1) * 256 ^ bs.length ≤ a.toNat * 256 ^ bs.length :=
        Nat.mul_le_mul_right _ (by omega)
      rw [Nat.add_mul, Nat.one_mul] at hStep
      omega

/-- The byte-wise comparison orders identifiers by their distance. -/
theorem distanceLess_iff {self a b : NodeID} :
    distanceLess self a b = true ↔ distance self a < distance self b := by
  rw [distanceLess, distance, distance]
  exact bytesLess_iff (by rw [NodeID.length_eq, NodeID.length_eq])

theorem distance_lt (a b : NodeID) : distance a b < 2 ^ 256 := by
  have h := bytesToNat_lt (a.xor b).bytes
  rw [NodeID.length_eq] at h
  exact lt_of_lt_of_eq h (by decide)

theorem bytesToNat_injective : ∀ {as bs : Bytes}, as.length = bs.length →
    bytesToNat as = bytesToNat bs → as = bs
  | [], [], _, _ => rfl
  | a :: as, b :: bs, h, hEq => by
    have hlen : as.length = bs.length := by simpa using h
    -- neither string is less than the other, so no byte differs
    have hNot : ¬ bytesLess (a :: as) (b :: bs) = true := by
      rw [bytesLess_iff h, hEq]
      exact lt_irrefl _
    have hNot' : ¬ bytesLess (b :: bs) (a :: as) = true := by
      rw [bytesLess_iff h.symm, hEq]
      exact lt_irrefl _
    rw [bytesLess] at hNot hNot'
    have hab : a = b := by
      by_contra hne
      rw [if_pos hne, decide_eq_true_eq, UInt8.lt_iff_toNat_lt] at hNot
      rw [if_pos (Ne.symm hne), decide_eq_true_eq, UInt8.lt_iff_toNat_lt] at hNot'
      exact hne (UInt8.toNat_inj.mp (by omega))
    subst hab
    rw [bytesToNat, bytesToNat, hlen] at hEq
    rw [bytesToNat_injective hlen (by omega)]

private theorem zipWith_xor_cancel : ∀ {s x y : Bytes}, s.length = x.length →
    s.length = y.length → zipWith (· ^^^ ·) s x = zipWith (· ^^^ ·) s y → x = y
  | [], [], [], _, _, _ => rfl
  | c :: s, p :: x, q :: y, hx, hy, hz => by
    simp only [zipWith_cons_cons, cons.injEq] at hz
    have hHead : p = q := by
      have := congrArg (c ^^^ ·) hz.1
      simpa [← UInt8.xor_assoc] using this
    rw [hHead, zipWith_xor_cancel (by simpa using hx) (by simpa using hy) hz.2]

/-- From a fixed point, different identifiers are at different distances. -/
theorem distance_injective (self : NodeID) : Function.Injective (distance self) := by
  intro a b h
  have hXor := bytesToNat_injective
    (by rw [NodeID.length_eq, NodeID.length_eq]) h
  apply NodeID.ext
  exact zipWith_xor_cancel (by rw [self.length_eq, a.length_eq])
    (by rw [self.length_eq, b.length_eq]) hXor

end AltNet
