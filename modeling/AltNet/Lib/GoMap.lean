import Mathlib

/-!
# Finite maps with a weight

Go's `map[κ]β` is modelled by Mathlib's `Finmap`: equality is extensional,
`m[k]` is `lookup`, `m[k] = v` is `insert` and `delete(m, k)` is `erase`.
What Mathlib lacks is the sum of a weight over all entries, which is what a
byte counter kept next to a map is meant to equal.

Main results:

* `GoMap.lookup_insert_cases` / `GoMap.lookup_of_lookup_erase` — where an
  entry found after a write or a deletion comes from;
* `GoMap.weight_insert` / `GoMap.weight_erase` — how one write changes the
  sum, whether or not the key was present;
* `GoMap.weight_congr` — the sum depends only on the entries present;
* `GoMap.weight_nonneg` — the sum of a weight that is nowhere negative;
* `GoMap.len_insert_of_notMem`, `GoMap.len_erase_of_mem` — the number of
  entries;
* `GoMap.count_values_eq_one_iff` — when a loop over the map meets a value once.
-/

namespace AltNet

open Finmap Multiset

/-- Go's `map[κ]β`. -/
abbrev GoMap (κ β : Type) := Finmap fun _ : κ => β

namespace GoMap

variable {κ β : Type} [DecidableEq κ]

/-- The sum of `w k v` over all entries `(k, v)` of the map. -/
def weight (w : κ → β → Int) (m : GoMap κ β) : Int :=
  (m.entries.map fun e => w e.1 e.2).sum

/-- The weight of the entry under `k`, zero when there is none. -/
def weightAt (w : κ → β → Int) (m : GoMap κ β) (k : κ) : Int :=
  match m.lookup k with
  | some v => w k v
  | none => 0

/-- `len(m)`. -/
def len (m : GoMap κ β) : Nat := Multiset.card m.entries

/-- What a loop over the values meets, in whatever order. -/
def values (m : GoMap κ β) : Multiset β := m.entries.map Sigma.snd

omit [DecidableEq κ] in
theorem nodupKeys_filter (p : κ → β → Bool) (m : GoMap κ β) :
    (m.entries.filter fun e => p e.1 e.2).NodupKeys := by
  have hKeys : (m.entries.map Sigma.fst).Nodup := nodup_keys.mpr m.nodupKeys
  exact nodup_keys.mp
    (nodup_of_le (map_le_map (filter_le _ _)) hKeys)

/-- The map after a loop over it that deletes the entries without `p`. -/
def keep (p : κ → β → Bool) (m : GoMap κ β) : GoMap κ β :=
  ⟨m.entries.filter fun e => p e.1 e.2, nodupKeys_filter p m⟩

/-! ## Single entries -/

variable {k : κ} {m : GoMap κ β} {v : β} {w : κ → β → Int}

theorem weightAt_of_lookup (h : m.lookup k = some v) : weightAt w m k = w k v := by
  simp [weightAt, h]

theorem weightAt_of_none (h : m.lookup k = none) : weightAt w m k = 0 := by
  simp [weightAt, h]

theorem weightAt_nonneg (hw : ∀ k v, 0 ≤ w k v) (m : GoMap κ β) (k : κ) : 0 ≤ weightAt w m k := by
  unfold weightAt
  split
  · exact hw _ _
  · exact le_rfl

theorem weightAt_erase_ne {k' : κ} (h : k ≠ k') : weightAt w (m.erase k') k = weightAt w m k := by
  unfold weightAt
  rw [lookup_erase_ne h]

/-- What is found after a write is what was written, or was there before. -/
theorem lookup_insert_cases {x : κ} {v' : β} (h : (m.insert k v).lookup x = some v') :
    (x = k ∧ v' = v) ∨ (x ≠ k ∧ m.lookup x = some v') := by
  by_cases hx : x = k
  · subst hx
    rw [lookup_insert] at h
    exact Or.inl ⟨rfl, (Option.some.inj h).symm⟩
  · rw [lookup_insert_of_ne _ hx] at h
    exact Or.inr ⟨hx, h⟩

/-- What is found after a deletion was there before, under another key. -/
theorem lookup_of_lookup_erase {x : κ} (h : (m.erase k).lookup x = some v) :
    x ≠ k ∧ m.lookup x = some v := by
  by_cases hx : x = k
  · rw [hx, lookup_erase] at h
    cases h
  · rw [lookup_erase_ne hx] at h
    exact ⟨hx, h⟩

theorem lookup_keep (p : κ → β → Bool) (m : GoMap κ β) (k : κ) :
    (m.keep p).lookup k = (m.lookup k).filter (p k) := by
  apply Option.ext
  intro v
  rw [Option.filter_eq_some_iff, lookup_eq_some_iff, lookup_eq_some_iff]
  exact mem_filter

/-- Deleting a key that is not there changes nothing. -/
theorem erase_of_notMem (h : k ∉ m) : m.erase k = m := by
  apply ext_lookup
  intro x
  by_cases hx : x = k
  · subst hx
    rw [lookup_erase, lookup_eq_none.mpr h]
  · rw [lookup_erase_ne hx]

/-- Overwriting is the same as deleting first. -/
theorem insert_erase (m : GoMap κ β) (k : κ) (v : β) :
    (m.erase k).insert k v = m.insert k v := by
  apply ext_lookup
  intro x
  by_cases hx : x = k
  · subst hx
    rw [lookup_insert, lookup_insert]
  · rw [lookup_insert_of_ne _ hx, lookup_insert_of_ne _ hx,
      lookup_erase_ne hx]

/-- Writing back the value that is already there changes nothing. -/
theorem insert_of_lookup (h : m.lookup k = some v) : m.insert k v = m := by
  apply ext_lookup
  intro x
  by_cases hx : x = k
  · subst hx
    rw [lookup_insert, h]
  · rw [lookup_insert_of_ne _ hx]

/-! ## Sums over the whole map -/

omit [DecidableEq κ] in
@[simp] theorem weight_empty (w : κ → β → Int) : weight w (∅ : GoMap κ β) = 0 := rfl

theorem weight_insert_of_notMem (h : k ∉ m) : weight w (m.insert k v) = w k v + weight w m := by
  rw [weight, weight, entries_insert_of_notMem h, map_cons,
    sum_cons]

/-- Deleting a key takes exactly its entry's weight out of the sum. -/
theorem weight_erase (w : κ → β → Int) (m : GoMap κ β) (k : κ) :
    weight w (m.erase k) = weight w m - weightAt w m k := by
  cases hk : m.lookup k with
  | none =>
    rw [erase_of_notMem (lookup_eq_none.mp hk), weightAt_of_none hk, sub_zero]
  | some v =>
    have hins : weight w ((m.erase k).insert k v) = w k v + weight w (m.erase k) :=
      weight_insert_of_notMem notMem_erase_self
    rw [insert_erase, insert_of_lookup hk] at hins
    rw [weightAt_of_lookup hk]
    omega

/-- Writing a key replaces the weight of its old entry by that of the new. -/
theorem weight_insert (w : κ → β → Int) (m : GoMap κ β) (k : κ) (v : β) :
    weight w (m.insert k v) = weight w m - weightAt w m k + w k v := by
  rw [← insert_erase, weight_insert_of_notMem notMem_erase_self, weight_erase]
  omega

theorem mem_entries_lookup {e : Sigma fun _ : κ => β} (h : e ∈ m.entries) :
    m.lookup e.1 = some e.2 :=
  lookup_eq_some_iff.mpr h

/-- The sum depends on the weight of the entries present only. -/
theorem weight_congr {w' : κ → β → Int} (h : ∀ k v, m.lookup k = some v → w k v = w' k v) :
    weight w m = weight w' m := by
  unfold weight
  congr 1
  apply map_congr rfl
  intro e he
  exact h e.1 e.2 (mem_entries_lookup he)

omit [DecidableEq κ] in
theorem weight_nonneg (hw : ∀ k v, 0 ≤ w k v) (m : GoMap κ β) : 0 ≤ weight w m := by
  unfold weight
  apply sum_nonneg
  intro x hx
  obtain ⟨e, -, rfl⟩ := mem_map.mp hx
  exact hw e.1 e.2

/-- A map without keys weighs nothing. -/
theorem weight_of_noKeys (h : ∀ k, k ∉ m) : weight w m = 0 := by
  have hm : m = ∅ := by
    apply ext_lookup
    intro x
    rw [lookup_eq_none.mpr (h x), lookup_empty]
  rw [hm, weight_empty]

/-! ## The number of entries -/

theorem len_insert_of_notMem (h : k ∉ m) : len (m.insert k v) = len m + 1 := by
  rw [len, len, entries_insert_of_notMem h, card_cons]

/-- Taking out an entry that is there. -/
theorem len_erase_of_mem (h : k ∈ m) : len (m.erase k) + 1 = len m := by
  obtain ⟨v, hv⟩ := mem_iff.mp h
  have hBack := len_insert_of_notMem (m := m.erase k) (v := v) notMem_erase_self
  rw [insert_erase, insert_of_lookup hv] at hBack
  exact hBack.symm

/-- Overwriting an entry that is there. -/
theorem len_insert_of_mem (h : k ∈ m) : len (m.insert k v) = len m := by
  rw [← insert_erase, len_insert_of_notMem notMem_erase_self, len_erase_of_mem h]

theorem len_erase_le (m : GoMap κ β) (k : κ) : len (m.erase k) ≤ len m := by
  by_cases h : k ∈ m
  · have hLen := len_erase_of_mem h
    omega
  · rw [erase_of_notMem h]

/-! ## The values -/

omit [DecidableEq κ] in
theorem card_values (m : GoMap κ β) : Multiset.card m.values = len m := card_map _ _

theorem mem_values : v ∈ m.values ↔ ∃ k, m.lookup k = some v := by
  constructor
  · intro h
    obtain ⟨e, he, rfl⟩ := mem_map.mp h
    exact ⟨e.1, mem_entries_lookup he⟩
  · rintro ⟨k, hk⟩
    exact mem_map.mpr ⟨⟨k, v⟩, lookup_eq_some_iff.mp hk, rfl⟩

/-- A value is met once when it stands under one key. -/
theorem count_values_eq_one_iff [DecidableEq β] :
    m.values.count v = 1 ↔ ∃ k, ∀ x, m.lookup x = some v ↔ x = k := by
  have hMem : ∀ e : Sigma fun _ : κ => β,
      e ∈ m.entries.filter (fun e => v = e.2) ↔ m.lookup e.1 = some e.2 ∧ v = e.2 := by
    intro e
    rw [mem_filter, lookup_eq_some_iff]
  rw [values, count_map, card_eq_one]
  constructor
  · rintro ⟨e, hOnly⟩
    obtain ⟨hLookup, rfl⟩ := (hMem e).mp (hOnly ▸ mem_singleton_self e)
    refine ⟨e.1, fun x => ⟨fun hx => ?_, fun hx => hx ▸ hLookup⟩⟩
    have hSame : (⟨x, e.2⟩ : Sigma fun _ : κ => β) ∈ ({e} : Multiset _) := by
      rw [← hOnly]
      exact (hMem _).mpr ⟨hx, rfl⟩
    rw [← Multiset.mem_singleton.mp hSame]
  · rintro ⟨k, hOnly⟩
    refine ⟨⟨k, v⟩, (Multiset.Nodup.ext (m.nodup_entries.filter _)
      (nodup_singleton _)).mpr fun e => ?_⟩
    rw [hMem, Multiset.mem_singleton]
    constructor
    · rintro ⟨hLookup, rfl⟩
      rw [← (hOnly e.1).mp hLookup]
    · rintro rfl
      exact ⟨(hOnly k).mpr rfl, rfl⟩

end GoMap

end AltNet
