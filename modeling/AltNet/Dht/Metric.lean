import AltNet.Lib.BitLength
import AltNet.Dht.Buckets

/-!
# AltNet — buckets and distances (`core/dht/id.go`)

`CommonPrefixLen` looks for the first bit in which two identifiers differ,
`DistanceLess` for the first byte, and neither computes the distance. Both scans
are about that number: the bits that two identifiers share and the binary
digits of their distance make up the 256 bits of an identifier. So the bucket of
a contact says how far away it is, to within a factor of two.

The distance from a third identifier is the XOR of the two distances from the
node. Where these have the same number of digits the leading one cancels; where
one has more, it stays.

Main results:

* `commonPrefixLen_add_size` — shared bits and digits of the distance;
* `distance_eq_xor` — the distance seen from elsewhere;
* `bucket_index_magnitude` — buckets are shells around the node, and around
  every target in their own shell.
-/

namespace AltNet

open NodeID (fill)

/-! ## The scans and the distance -/

private theorem leadingZeros_size_table :
    ∀ n < 256, leadingZeros (UInt8.ofNat n) + n.size = 8 := by
  decide +kernel

theorem leadingZeros_add_size (x : UInt8) : leadingZeros x + x.toNat.size = 8 := by
  have hTable := leadingZeros_size_table x.toNat x.toNat_lt
  rwa [UInt8.ofNat_toNat] at hTable

theorem sharedBitsFrom_add_size (bs : Bytes) (i : Nat) :
    sharedBitsFrom i bs + (bytesToNat bs).size = (i + bs.length) * 8 := by
  induction bs generalizing i with
  | nil => simp [sharedBitsFrom, bytesToNat]
  | cons x rest ih =>
    rw [sharedBitsFrom, bytesToNat, List.length_cons]
    split
    case isTrue hZero =>
      have hRest := ih (i + 1)
      rw [hZero, UInt8.toNat_zero, Nat.zero_mul, Nat.zero_add]
      omega
    case isFalse hx =>
      have hPos : 0 < x.toNat :=
        Nat.pos_of_ne_zero fun hZero => hx (UInt8.toNat_inj.mp hZero)
      have hLow := bytesToNat_lt rest
      rw [show 256 = 2 ^ 8 from rfl, ← pow_mul] at hLow ⊢
      have hByte := leadingZeros_add_size x
      rw [size_mul_two_pow_add hPos hLow]
      omega

theorem commonPrefixLen_add_size (a b : NodeID) :
    a.commonPrefixLen b + (distance a b).size = 256 := by
  have hSum := sharedBitsFrom_add_size (a.xor b).bytes 0
  rw [(a.xor b).length_eq] at hSum
  exact hSum

theorem bytesToNat_xor : ∀ {as bs : Bytes}, as.length = bs.length →
    bytesToNat (List.zipWith (· ^^^ ·) as bs) = bytesToNat as ^^^ bytesToNat bs
  | [], [], _ => rfl
  | a :: as, b :: bs, h => by
    have hLength : as.length = bs.length := Nat.succ.inj h
    have hA := bytesToNat_lt as
    have hB := bytesToNat_lt bs
    have hXor := bytesToNat_lt (List.zipWith (· ^^^ ·) as bs)
    rw [List.zipWith_cons_cons, bytesToNat, bytesToNat, bytesToNat]
    rw [List.length_zipWith, hLength, Nat.min_self] at hXor ⊢
    rw [hLength] at hA
    rw [show 256 = 2 ^ 8 from rfl, ← pow_mul] at hA hB hXor ⊢
    rw [bytesToNat_xor hLength] at hXor ⊢
    apply Nat.eq_of_testBit_eq
    intro i
    rw [Nat.testBit_xor, Nat.mul_comm, Nat.mul_comm a.toNat, Nat.mul_comm b.toNat,
      Nat.testBit_two_pow_mul_add _ hXor, Nat.testBit_two_pow_mul_add _ hA,
      Nat.testBit_two_pow_mul_add _ hB]
    split
    · exact Nat.testBit_xor _ _ _
    · rw [UInt8.toNat_xor, Nat.testBit_xor]

/-- The distance from `t` is the XOR of the distances from anywhere else. -/
theorem distance_eq_xor (s t c : NodeID) : distance t c = distance s t ^^^ distance s c := by
  have hNat : ∀ a b : NodeID, distance a b = bytesToNat a.bytes ^^^ bytesToNat b.bytes :=
    fun a b => bytesToNat_xor (by rw [a.length_eq, b.length_eq])
  rw [hNat, hNat, hNat, Nat.xor_comm (bytesToNat s.bytes) (bytesToNat t.bytes), Nat.xor_assoc,
    Nat.xor_xor_cancel_left]

/-! ## Shells -/

variable {s t a b : NodeID}

theorem distanceLess_of_prefix (h : s.commonPrefixLen b < s.commonPrefixLen a) :
    distanceLess s a b = true := by
  have hA := commonPrefixLen_add_size s a
  have hB := commonPrefixLen_add_size s b
  exact distanceLess_iff.mpr (lt_of_size_lt (by omega))

/-- Seen from a target in the same shell. -/
theorem distanceLess_of_shell (hShell : s.commonPrefixLen a = s.commonPrefixLen t)
    (hSelf : t ≠ s) (hBelow : s.commonPrefixLen b < s.commonPrefixLen t) :
    distanceLess t a b = true := by
  have hA := commonPrefixLen_add_size s a
  have hB := commonPrefixLen_add_size s b
  have hT := commonPrefixLen_add_size s t
  have hLess : s.commonPrefixLen t < 256 := commonPrefixLen_lt hSelf
  rw [distanceLess_iff, distance_eq_xor s t a, distance_eq_xor s t b]
  apply lt_of_size_lt
  calc (distance s t ^^^ distance s a).size
      < (distance s t).size := size_xor_lt (by omega) (by omega)
    _ < (distance s b).size := by omega
    _ ≤ (distance s t ^^^ distance s b).size := size_le_size_xor (by omega)

/-- **The bucket of a contact is the magnitude of its distance.** Two different
identifiers that share `i` bits are at a distance of `256 - i` binary digits. So
in every run of the routing table the contacts of a bucket are nearer to the node
than those of all buckets before it; and to a target that belongs to the bucket
they are nearer as well. -/
theorem bucket_index_magnitude :
    (∀ a b : NodeID, a ≠ b → a.commonPrefixLen b < 256 ∧
      2 ^ (255 - a.commonPrefixLen b) ≤ distance a b ∧
      distance a b < 2 ^ (256 - a.commonPrefixLen b)) ∧
    ∀ (own : NodeID) (evictionPing : Bool) (as : List TableAction) (s : TableState),
      Exec (stepOf TableState.next) (TableState.init own evictionPing) as s →
      (∀ i j, i < j → ∀ c ∈ s.rt.buckets j, ∀ c' ∈ s.rt.buckets i,
        distanceLess own c.id c'.id = true) ∧
      ∀ (target : NodeID) (i j : Nat), own.commonPrefixLen target = i → j < i →
        ∀ c ∈ s.rt.buckets i, ∀ c' ∈ s.rt.buckets j, distanceLess target c.id c'.id = true := by
  refine ⟨?_, ?_⟩
  · intro a b hNe
    have hSum := commonPrefixLen_add_size a b
    have hLess : a.commonPrefixLen b < 256 := commonPrefixLen_lt hNe.symm
    exact ⟨hLess, Nat.lt_size.mp (by omega), Nat.size_le.mp (by omega)⟩
  · intro own evictionPing as s hRun
    have hPlace : ∀ {i c}, c ∈ s.rt.buckets i → c.id ≠ own ∧ own.commonPrefixLen c.id = i :=
      fun {i c} hc => ((TableState.Good.run hRun).bucket i).place c hc
    refine ⟨?_, ?_⟩
    · intro i j hLess c hc c' hc'
      apply distanceLess_of_prefix
      rw [(hPlace hc).2, (hPlace hc').2]
      exact hLess
    · rintro target i j rfl hLess c hc c' hc'
      have hShell := (hPlace hc).2
      have hSelf : target ≠ own := by
        rintro rfl
        have hBits : target.commonPrefixLen c.id < 256 := commonPrefixLen_lt (hPlace hc).1
        have hZero := commonPrefixLen_add_size target target
        rw [hShell] at hBits
        have hNone : (distance target target).size = 0 := by
          rw [distance_eq_xor target, Nat.xor_self, Nat.size_zero]
        omega
      refine distanceLess_of_shell hShell hSelf ?_
      rw [(hPlace hc').2]
      exact hLess

/-- Contacts in the buckets 0 and 4 of the node with the identifier zero, and a target in
bucket 4. -/
theorem bucket_index_magnitude_two :
    ∃ s, Exec (stepOf TableState.next) (TableState.init (fill 0) true)
        [.update (contactAt 128 0) 1, .hint (contactAt 9 0)] s ∧
      distanceLess (fill 8) (fill 9) (fill 128) = true ∧
      2 ^ (255 - (fill 0).commonPrefixLen (fill 9)) ≤
        distance (fill 0) (fill 9) := by
  refine Exec.exists_of_runFrom (p := fun s => contactAt 9 0 ∈ s.rt.buckets 4 ∧
    contactAt 128 1 ∈ s.rt.buckets 0) (by decide +kernel) ?_
  rintro s hRun ⟨hNear, hFar⟩
  obtain ⟨hMagnitude, hRuns⟩ := bucket_index_magnitude
  refine ⟨?_, (hMagnitude (fill 0) (fill 9) (by decide)).2.1⟩
  exact (hRuns _ _ _ s hRun).2 (fill 8) 4 0 (by decide +kernel) (by decide) _ hNear _ hFar

end AltNet
