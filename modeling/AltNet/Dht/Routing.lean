import AltNet.Lib.Select
import AltNet.Dht.Store

/-!
# AltNet — the routing table (`core/dht/routing.go`)

Known contacts are kept in 256 buckets of at most `bucketK` contacts, bucket
`i` for the identifiers that share exactly `i` leading bits with the node's
own. A bucket is ordered from the least to the most recently seen contact.

When a contact arrives at a full bucket, `Update` starts a goroutine that
pings the head of the bucket and later takes the lock again. The two halves
are separate steps here: `update` returns the pending `Eviction`, and
`maybeEvictHead` is its second half, run in whatever state the table is in by
then.

Main results:

* `commonPrefixLen_lt` — every other identifier has a bucket;
* `update_mem`, `hint_mem`, `maybeEvictHead_mem`, `remove_mem` — where the
  contacts of a bucket can come from, one inversion lemma per operation;
* `closestLoop_eq`, `closest_nearest` — the loops of `Closest` return the nearest
  contacts there are.
-/

namespace AltNet

open List

/-- `K`, the capacity of a bucket. -/
def bucketK : Nat := 20

theorem bucketK_pos : 0 < bucketK := by decide

/-- `IDSize * 8`, the number of buckets. -/
def bucketCount : Nat := 256

/-- `Contact`. -/
structure Contact where
  id : NodeID
  address : GoString
  altAddresses : List GoString
  lastSeen : Time
  deriving DecidableEq

/-- `Contact.AllAddresses`. -/
def Contact.allAddresses (c : Contact) : List GoString :=
  if c.address ≠ [] then c.address :: c.altAddresses else c.altAddresses

/-- `RoutingTable`; only the buckets below `bucketCount` are used, and of the
callback only whether one is installed. -/
structure RoutingTable where
  self : NodeID
  buckets : Nat → List Contact
  evictionPing : Bool

/-- The arguments of a `maybeEvictHead` goroutine. -/
structure Eviction where
  idx : Nat
  head : Contact
  candidate : Contact
  deriving DecidableEq

/-- The closure `add` of `mergeAddresses`: `seen` holds the primary address and
everything added so far. -/
def addUnseen (primary : GoString) (alts : List GoString) (s : GoString) : List GoString :=
  if s = [] ∨ s = primary ∨ s ∈ alts then alts else alts ++ [s]

/-- `mergeAddresses`. -/
def mergeAddresses (fresh prior : Contact) : Contact :=
  { fresh with
    altAddresses := (fresh.altAddresses ++ prior.address :: prior.altAddresses).foldl
      (addUnseen fresh.address) [] }

/-- The first contact with an identifier taken out of a bucket. -/
def dropContact (id : NodeID) (b : List Contact) : List Contact :=
  b.eraseP fun c => decide (c.id = id)

namespace RoutingTable

/-- `NewRoutingTable`, with or without a ping callback. -/
def new (self : NodeID) (evictionPing : Bool) : RoutingTable := ⟨self, fun _ => [], evictionPing⟩

def setBucket (rt : RoutingTable) (idx : Nat) (b : List Contact) : RoutingTable :=
  { rt with buckets := Function.update rt.buckets idx b }

/-- `Update`, with the goroutine it starts, if any. -/
def update (rt : RoutingTable) (c : Contact) (now : Time) : RoutingTable × Option Eviction :=
  if c.id = rt.self then (rt, none)
  else
    let idx := rt.self.commonPrefixLen c.id
    let b := rt.buckets idx
    let c := { c with lastSeen := now }
    match b.find? fun existing => decide (existing.id = c.id) with
    | some existing =>
      (rt.setBucket idx (dropContact c.id b ++ [mergeAddresses c existing]), none)
    | none =>
      if b.length < bucketK then (rt.setBucket idx (b ++ [c]), none)
      else if rt.evictionPing then (rt, b.head?.map fun head => ⟨idx, head, c⟩)
      else (rt, none)

/-- The second half of `maybeEvictHead`, after the ping. -/
def maybeEvictHead (rt : RoutingTable) (e : Eviction) (alive : Bool) (now : Time) :
    RoutingTable :=
  let b := rt.buckets e.idx
  if alive then
    match b with
    | [] => rt
    | h :: rest =>
      if h.id = e.head.id then rt.setBucket e.idx (rest ++ [{ h with lastSeen := now }]) else rt
  else
    let b := dropContact e.head.id b
    rt.setBucket e.idx
      (if b.length < bucketK then b ++ [{ e.candidate with lastSeen := now }] else b)

/-- `Hint`. -/
def hint (rt : RoutingTable) (c : Contact) : RoutingTable :=
  if c.id = rt.self then rt
  else
    let idx := rt.self.commonPrefixLen c.id
    let b := rt.buckets idx
    if b.any fun existing => decide (existing.id = c.id) then rt
    else if b.length < bucketK then rt.setBucket idx ({ c with lastSeen := 0 } :: b)
    else rt

/-- `Remove`; `none` is the index panic on the node's own identifier, which
shares all 256 bits with itself. -/
def remove (rt : RoutingTable) (id : NodeID) : Option RoutingTable :=
  let idx := rt.self.commonPrefixLen id
  if idx < bucketCount then some (rt.setBucket idx (dropContact id (rt.buckets idx))) else none

/-- `All`. -/
def all (rt : RoutingTable) : List Contact := (List.range bucketCount).flatMap rt.buckets

/-- `Size`. -/
def size (rt : RoutingTable) : Nat := rt.all.length

/-- `Closest`. -/
def closest (rt : RoutingTable) (target : NodeID) (n : Nat) : List Contact :=
  selectMins (fun a b => distanceLess target a.id b.id) n rt.all

/-- `Closest` with its two loops, which swap in place; `none` is an index panic. -/
def closestLoop (rt : RoutingTable) (target : NodeID) (n : Nat) : Option (List Contact) :=
  let n := if rt.all.length < n then rt.all.length else n
  (selectFront (fun a b => distanceLess target a.id b.id) n rt.all).map (List.take n)

end RoutingTable

/-- `closestHex`. -/
def closestHex (target : NodeID) : List Contact → GoString
  | [] => []
  | c :: rest => (firstMin (fun a b => distanceLess target a.id b.id) c rest).id.hex

/-! ## Bucket numbers -/

private theorem leadingZeros_table : ∀ n < 256, n ≠ 0 → leadingZeros (UInt8.ofNat n) < 8 := by
  decide +kernel

theorem leadingZeros_lt {x : UInt8} (h : x ≠ 0) : leadingZeros x < 8 := by
  have hTable := leadingZeros_table x.toNat x.toNat_lt
  rw [UInt8.ofNat_toNat] at hTable
  exact hTable fun hZero => h (UInt8.toNat_inj.mp hZero)

theorem sharedBitsFrom_lt : ∀ {bs : Bytes} (i : Nat), (∃ x ∈ bs, x ≠ 0) →
    sharedBitsFrom i bs < (i + bs.length) * 8
  | [], _, h => by simp at h
  | x :: rest, i, h => by
    rw [sharedBitsFrom, length_cons]
    split
    · rename_i hZero
      have hRest : ∃ y ∈ rest, y ≠ 0 := by simpa [hZero] using h
      have := sharedBitsFrom_lt (i + 1) hRest
      omega
    · rename_i hx
      have := leadingZeros_lt hx
      omega

private theorem exists_ne_zero_of_xor : ∀ {as bs : Bytes}, as.length = bs.length → as ≠ bs →
    ∃ x ∈ List.zipWith (· ^^^ ·) as bs, x ≠ 0
  | [], [], _, h => absurd rfl h
  | a :: as, b :: bs, hLen, h => by
    by_cases hab : a = b
    · subst hab
      obtain ⟨x, hx, hne⟩ := exists_ne_zero_of_xor (by simpa using hLen) fun hEq =>
        h (by rw [hEq])
      exact ⟨x, by simp [hx], hne⟩
    · exact ⟨a ^^^ b, by simp, fun hZero => hab (UInt8.xor_eq_zero_iff.mp hZero)⟩

/-- Every identifier but the node's own has a bucket. -/
theorem commonPrefixLen_lt {self id : NodeID} (h : id ≠ self) :
    self.commonPrefixLen id < bucketCount := by
  have hBytes : self.bytes ≠ id.bytes := fun hEq => h (NodeID.ext hEq.symm)
  have hLen : self.bytes.length = id.bytes.length := by rw [self.length_eq, id.length_eq]
  have := sharedBitsFrom_lt 0 (exists_ne_zero_of_xor hLen hBytes)
  rw [length_zipWith, self.length_eq, id.length_eq] at this
  exact this

namespace RoutingTable

variable {rt : RoutingTable} {c x : Contact} {id target : NodeID} {now : Time} {i n : Nat}
  {e : Eviction} {alive : Bool}

/-! ## Where contacts come from -/

variable {b : List Contact} {rt' : RoutingTable}

theorem mem_setBucket {idx : Nat} :
    x ∈ (rt.setBucket idx b).buckets i ↔ if i = idx then x ∈ b else x ∈ rt.buckets i := by
  rw [setBucket]
  simp only [Function.update_apply]
  split <;> rfl

theorem mem_of_mem_dropContact (h : x ∈ dropContact id b) : x ∈ b :=
  mem_of_mem_eraseP h

/-- `Update` writes only the contact it is given, with a fresh time, as it is or
merged with an entry. -/
theorem update_mem (h : x ∈ (rt.update c now).1.buckets i) :
    x ∈ rt.buckets i ∨ (x.id = c.id ∧ x.lastSeen = now ∧ (x = { c with lastSeen := now } ∨
      ∃ y ∈ rt.buckets i, y.id = c.id ∧ x = mergeAddresses { c with lastSeen := now } y)) := by
  rw [update] at h
  split at h
  · exact .inl h
  dsimp only at h
  split at h
  · rename_i y hFound
    rw [mem_setBucket] at h
    split at h
    · rename_i hi
      rw [hi]
      rcases mem_append.mp h with h | h
      · exact .inl (mem_of_mem_dropContact h)
      · rw [mem_singleton.mp h]
        have hId : y.id = c.id := by simpa using find?_some hFound
        exact .inr ⟨rfl, rfl, .inr ⟨y, mem_of_find?_eq_some hFound, hId, rfl⟩⟩
    · exact .inl h
  · split at h
    · rw [mem_setBucket] at h
      split at h
      · rename_i hi
        rw [hi]
        rcases mem_append.mp h with h | h
        · exact .inl h
        · rw [mem_singleton.mp h]
          exact .inr ⟨rfl, rfl, .inl rfl⟩
      · exact .inl h
    · split at h <;> exact .inl h

/-- The goroutine `Update` starts has a contact of the bucket for its head and
the new contact, which the bucket does not have, for its candidate. -/
theorem update_eviction (h : (rt.update c now).2 = some e) :
    (e.head ∈ rt.buckets e.idx ∧ e.head.id ≠ c.id) ∧ c.id ≠ rt.self ∧
      e.candidate = { c with lastSeen := now } ∧ rt.self.commonPrefixLen c.id = e.idx := by
  rw [update] at h
  split at h
  · cases h
  rename_i hSelf
  dsimp only at h
  split at h
  · cases h
  rename_i hNone
  split at h
  · cases h
  split at h
  · obtain ⟨head, hHead, rfl⟩ := Option.map_eq_some_iff.mp h
    have hMem := mem_of_mem_head? hHead
    exact ⟨⟨hMem, by simpa using find?_eq_none.mp hNone head hMem⟩, hSelf, rfl, rfl⟩
  · cases h

/-- A pending eviction refreshes its head or lets its candidate in. -/
theorem maybeEvictHead_mem (h : x ∈ (rt.maybeEvictHead e alive now).buckets i) :
    x ∈ rt.buckets i ∨ (alive = true ∧ x.id = e.head.id ∧
        ∃ y ∈ rt.buckets i, x = { y with lastSeen := now }) ∨
      (alive = false ∧ x = { e.candidate with lastSeen := now }) := by
  cases alive with
  | true =>
    simp only [maybeEvictHead, if_true] at h
    split at h
    · exact .inl h
    rename_i head rest hBucket
    split at h
    · rename_i hHead
      rw [mem_setBucket] at h
      split at h
      · rename_i hi
        rw [hi, hBucket]
        rcases mem_append.mp h with h | h
        · exact .inl (mem_cons_of_mem _ h)
        · rw [mem_singleton.mp h]
          exact .inr (.inl ⟨rfl, hHead, head, mem_cons_self, rfl⟩)
      · exact .inl h
    · exact .inl h
  | false =>
    simp only [maybeEvictHead, Bool.false_eq_true, if_false] at h
    rw [mem_setBucket] at h
    split at h
    · rename_i hi
      rw [hi]
      split at h
      · rcases mem_append.mp h with h | h
        · exact .inl (mem_of_mem_dropContact h)
        · exact .inr (.inr ⟨rfl, mem_singleton.mp h⟩)
      · exact .inl (mem_of_mem_dropContact h)
    · exact .inl h

/-- A hint enters with the zero time. -/
theorem hint_mem (h : x ∈ (rt.hint c).buckets i) :
    x ∈ rt.buckets i ∨ x = { c with lastSeen := 0 } := by
  rw [hint] at h
  split at h
  · exact .inl h
  dsimp only at h
  split at h
  · exact .inl h
  split at h
  · rw [mem_setBucket] at h
    split at h
    · rename_i hi
      rw [hi]
      rcases mem_cons.mp h with h | h
      · exact .inr h
      · exact .inl h
    · exact .inl h
  · exact .inl h

theorem remove_mem (hRemove : rt.remove id = some rt') (h : x ∈ rt'.buckets i) :
    x ∈ rt.buckets i := by
  rw [remove] at hRemove
  split at hRemove
  · cases hRemove
    rw [mem_setBucket] at h
    split at h
    · rename_i hi
      rw [hi]
      exact mem_of_mem_dropContact h
    · exact h
  · cases hRemove

/-! ## Identifiers stay -/

/-- Every identifier in `rt` is in `rt'`, in the same bucket. -/
def Keeps (rt rt' : RoutingTable) : Prop :=
  ∀ i x, x ∈ rt.buckets i → ∃ y ∈ rt'.buckets i, y.id = x.id

theorem Keeps.refl (rt : RoutingTable) : rt.Keeps rt := fun _ x hx => ⟨x, hx, rfl⟩

theorem Keeps.trans {rt₁ rt₂ rt₃ : RoutingTable} (h : rt₁.Keeps rt₂) (h' : rt₂.Keeps rt₃) :
    rt₁.Keeps rt₃ := by
  intro i x hx
  obtain ⟨y, hy, hId⟩ := h i x hx
  obtain ⟨z, hz, hId'⟩ := h' i y hy
  exact ⟨z, hz, hId'.trans hId⟩

/-- Replacing one bucket keeps the table if it keeps the bucket. -/
theorem Keeps.setBucket {idx : Nat} (h : ∀ x ∈ rt.buckets idx, ∃ y ∈ b, y.id = x.id) :
    rt.Keeps (rt.setBucket idx b) := by
  intro i x hx
  by_cases hi : i = idx
  · subst hi
    obtain ⟨y, hy, hId⟩ := h x hx
    exact ⟨y, mem_setBucket.mpr (by rwa [if_pos rfl]), hId⟩
  · exact ⟨x, mem_setBucket.mpr (by rwa [if_neg hi]), rfl⟩

/-- `Update` takes nobody out. -/
theorem update_keeps (rt : RoutingTable) (c : Contact) (now : Time) :
    rt.Keeps (rt.update c now).1 := by
  unfold update
  split
  · exact .refl rt
  dsimp only
  split
  · refine .setBucket fun x hx => ?_
    -- the entry that is replaced has the identifier of the one that replaces it
    by_cases hId : x.id = c.id
    · exact ⟨_, mem_append_right _ (mem_singleton.mpr rfl), hId.symm⟩
    · refine ⟨x, mem_append_left _ ?_, rfl⟩
      exact (mem_eraseP_of_neg (by simpa using hId)).mpr hx
  · split
    · exact .setBucket fun x hx => ⟨x, mem_append_left _ hx, rfl⟩
    · split <;> exact .refl rt

/-- `Hint` takes nobody out. -/
theorem hint_keeps (rt : RoutingTable) (c : Contact) : rt.Keeps (rt.hint c) := by
  unfold hint
  split
  · exact .refl rt
  dsimp only
  split
  · exact .refl rt
  · split
    · exact .setBucket fun x hx => ⟨x, mem_cons_of_mem _ hx, rfl⟩
    · exact .refl rt

/-! ## `Closest` -/

theorem mem_all : x ∈ rt.all ↔ ∃ i < bucketCount, x ∈ rt.buckets i := by
  simp [all]

theorem mem_all_of_mem_closest (h : x ∈ rt.closest target n) : x ∈ rt.all :=
  mem_of_mem_selectMins h

theorem length_closest : (rt.closest target n).length = min n rt.all.length :=
  length_selectMins _ _ _

theorem exists_closest_cons (target : NodeID) (hx : x ∈ rt.all) (hn : 0 < n) :
    ∃ c rest, rt.closest target n = c :: rest := by
  apply exists_cons_of_ne_nil
  intro hNil
  have hLen : (rt.closest target n).length = min n rt.all.length := length_closest
  rw [hNil, length_nil] at hLen
  have : 0 < rt.all.length := length_pos_of_mem hx
  omega

theorem closest_sorted :
    (rt.closest target n).Pairwise fun a b => distance target a.id ≤ distance target b.id :=
  selectMins_sorted (f := fun c : Contact => distance target c.id)
    (fun _ _ => distanceLess_iff) n rt.all

/-- A contact that `Closest` leaves out is no nearer than those it returns. -/
theorem closest_le_rest (hx : x ∈ rt.all) (hOut : x ∉ rt.closest target n) :
    ∀ c ∈ rt.closest target n, distance target c.id ≤ distance target x.id := by
  intro c hc
  have hSplit := (selectMins_perm (fun a b => distanceLess target a.id b.id) n rt.all).mem_iff.mp hx
  rcases mem_append.mp hSplit with h | h
  · exact absurd h hOut
  · exact selectMins_le_rest (f := fun c : Contact => distance target c.id)
      (fun _ _ => distanceLess_iff) n rt.all c hc x h

/-- The first contacts that `Closest` returns are what it returns when asked
for fewer. -/
theorem take_closest {m : Nat} (h : m ≤ n) :
    (rt.closest target n).take m = rt.closest target m :=
  take_selectMins _ _ h

/-- The loops of `Closest` return. -/
theorem closestLoop_eq (rt : RoutingTable) (target : NodeID) (n : Nat) :
    rt.closestLoop target n = some (rt.closest target n) := by
  have hCut : (if rt.all.length < n then rt.all.length else n) = min n rt.all.length := by
    split
    · omega
    · omega
  have hLt : ∀ a b : Contact, distanceLess target a.id b.id = true ↔
      distance target a.id < distance target b.id := fun _ _ => distanceLess_iff
  have hSame : rt.closest target (min n rt.all.length) = rt.closest target n := by
    rw [← take_closest (Nat.min_le_left _ _), take_of_length_le (le_of_eq length_closest)]
  rw [closestLoop, hCut, selectFront_eq hLt (Nat.min_le_right _ _), Option.map_some, ← hSame]
  refine congrArg some (take_left' ?_)
  rw [length_selectMins, Nat.min_assoc, Nat.min_self]

/-- **`Closest` returns the nearest contacts**: as many as there are up to `n`, each
as often as the table has it, in the order of the distance as a number, and what
it leaves out is no nearer. -/
theorem closest_nearest (rt : RoutingTable) (target : NodeID) (n : Nat) :
    ∃ found rest, rt.closestLoop target n = some found ∧ found.length = min n rt.size ∧
      rt.all.Perm (found ++ rest) ∧
      (found.Pairwise fun a b => distance target a.id ≤ distance target b.id) ∧
      ∀ c ∈ found, ∀ x ∈ rest, distance target c.id ≤ distance target x.id :=
  ⟨_, _, closestLoop_eq rt target n, length_closest, selectMins_perm _ n rt.all, closest_sorted,
    selectMins_le_rest (f := fun c : Contact => distance target c.id)
      (fun _ _ => distanceLess_iff) n rt.all⟩

/-- A contact of the table that no other is nearer than. -/
def Nearest (rt : RoutingTable) (target : NodeID) (c : Contact) : Prop :=
  c ∈ rt.all ∧ ∀ x ∈ rt.all, distance target c.id ≤ distance target x.id

theorem Nearest.id_eq {c' : Contact} (h : rt.Nearest target c) (h' : rt.Nearest target c') :
    c.id = c'.id :=
  distance_injective target (le_antisymm (h.2 c' h'.1) (h'.2 c h.1))

/-- What `Closest` returns starts with a nearest contact. -/
theorem nearest_of_closest {rest : List Contact} (h : rt.closest target n = c :: rest) :
    rt.Nearest target c := by
  have hHead : c ∈ rt.closest target n := by
    rw [h]
    exact mem_cons_self
  refine ⟨mem_all_of_mem_closest hHead, fun y hy => ?_⟩
  by_cases hIn : y ∈ rt.closest target n
  · have hSorted : (rt.closest target n).Pairwise _ := closest_sorted
    rw [h] at hIn hSorted
    rcases mem_cons.mp hIn with rfl | hIn
    · exact le_rfl
    · exact (pairwise_cons.mp hSorted).1 y hIn
  · exact closest_le_rest hy hIn c hHead

/-- A table with contacts has a nearest one. -/
theorem exists_nearest (target : NodeID) (hx : x ∈ rt.all) : ∃ c, rt.Nearest target c := by
  obtain ⟨c, rest, h⟩ := exists_closest_cons target hx Nat.zero_lt_one
  exact ⟨c, nearest_of_closest h⟩

theorem Keeps.exists_mem_all (h : rt.Keeps rt') (hx : x ∈ rt.all) : ∃ y ∈ rt'.all, y.id = x.id := by
  obtain ⟨i, hi, hMem⟩ := mem_all.mp hx
  obtain ⟨y, hy, hId⟩ := h i x hMem
  exact ⟨y, mem_all.mpr ⟨i, hi, hy⟩, hId⟩

/-- A table that keeps the identifiers has a nearest contact at least as
near. -/
theorem Keeps.exists_nearest (h : rt.Keeps rt') (hc : rt.Nearest target c) :
    ∃ c', rt'.Nearest target c' ∧ distance target c'.id ≤ distance target c.id := by
  obtain ⟨y, hy, hId⟩ := h.exists_mem_all hc.1
  obtain ⟨c', hc'⟩ := RoutingTable.exists_nearest target hy
  exact ⟨c', hc', hId ▸ hc'.2 y hy⟩

end RoutingTable

/-- `closestHex` names a contact of the list that no other is nearer than. -/
theorem closestHex_spec {target : NodeID} {l : List Contact} (h : l ≠ []) :
    ∃ m ∈ l, closestHex target l = m.id.hex ∧
      ∀ x ∈ l, distance target m.id ≤ distance target x.id := by
  cases l with
  | nil => exact absurd rfl h
  | cons c rest =>
    refine ⟨_, firstMin_mem _ c rest, rfl, ?_⟩
    exact firstMin_le (f := fun c : Contact => distance target c.id)
      (fun _ _ => distanceLess_iff) c rest

/-- Of what `Closest` returns, `closestHex` names the nearest contact of the
whole table. -/
theorem closestHex_closest {rt : RoutingTable} {target : NodeID} {c : Contact} {n : Nat}
    (hc : rt.Nearest target c) (hn : 0 < n) :
    closestHex target (rt.closest target n) = c.id.hex := by
  obtain ⟨x, rest, hList⟩ := RoutingTable.exists_closest_cons target hc.1 hn
  obtain ⟨m, hm, hHex, hMin⟩ : ∃ m ∈ rt.closest target n, _ := closestHex_spec (by simp [hList])
  have hx := RoutingTable.nearest_of_closest hList
  have hm' : rt.Nearest target m := by
    refine ⟨RoutingTable.mem_all_of_mem_closest hm, fun y hy => ?_⟩
    exact (hMin x (by rw [hList]; exact mem_cons_self)).trans (hx.2 y hy)
  rw [hHex, hm'.id_eq hc]

end AltNet
