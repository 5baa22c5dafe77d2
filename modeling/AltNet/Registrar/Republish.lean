import AltNet.Lib.Trace
import AltNet.Registrar.Registry

/-!
# AltNet — the registrar's republish loop

`republishAll` copies the registry under the read lock and then, without the
lock, signs and publishes a *new* record for every copy, each with a version
above all earlier ones. After each publication it takes the lock to write the
new version into the live registration, if there is one.

Between the copy and the publication a handler may have changed or removed the
name. The new record then carries the old root under the highest version, or
brings back a name that was taken down; and a version that is written back
late can replace a newer one.

The model runs the handlers, each one step, against any number of passes of
`republishAll`, each cut into its steps. `undisturbed` is the condition under
which a step of a pass meets the state its pass expects.

Main results:

* `registrar_step` — the invariant `RegistrarInv` is kept by every undisturbed
  step: the newest record of a registered name has the registered root, and
  its version is the registered one or about to be written there;
* `republish_consistent` — so in every undisturbed run the registry and the
  published records agree whenever no pass is under way, and nothing is
  published for a name that is not registered;
* `republish_undoes_changes` — one update between copy and publication leaves
  the old root with the highest version, one removal there brings the name
  back.
-/

namespace AltNet

open List

open NodeID (fill)

/-- What happened so far, as far as the records in the DHT are concerned. -/
inductive RegEvent where
  | registered (name : GoString)
  | removed (name : GoString)
  | published (a : Announcement)
  deriving DecidableEq

/-- A call of `republishAll` under way: the copies it has not come to yet, and
the name and version it has published and not yet written back. -/
structure Pass where
  remaining : List RegistrationRecord
  pending : Option (GoString × Nat)
  deriving DecidableEq

/-- The registrar, its history (newest first), the last clock reading and the
passes under way. -/
structure RegistrarState where
  registry : Registry
  history : List RegEvent
  clock : Nat
  passes : GoMap Nat Pass

/-- The steps. `unregister` and `revoke` are the lock-held sections of the two
handlers; the others of a pass `i` are its snapshot (in the map's iteration
order), the publication of the next copy, the write-back and the return. -/
inductive RegAction where
  | register (req : RegisterRequest) (now : Nat)
  | update (req : UpdateRequest) (now : Nat)
  | unregister (name : GoString)
  | revoke (name : GoString)
  | snapshot (i : Nat) (order : List RegistrationRecord)
  | publishNext (i : Nat) (now : Nat)
  | writeBack (i : Nat) (now : Nat)
  | finish (i : Nat)
  deriving DecidableEq

/-- A new registrar with an empty registry. -/
def RegistrarState.new : RegistrarState := ⟨∅, [], 0, ∅⟩

/-- The list holds every record of the registry once. -/
def Enumerates (reg : Registry) (order : List RegistrationRecord) : Prop :=
  (order.map (·.name)).Nodup ∧ (order.map (·.name)).toFinset = reg.keys ∧
    ∀ rec ∈ order, reg.lookup rec.name = some rec

instance (reg : Registry) (order : List RegistrationRecord) : Decidable (Enumerates reg order) :=
  inferInstanceAs (Decidable (_ ∧ _ ∧ _))

namespace RegistrarState

def setPass (s : RegistrarState) (i : Nat) (p : Option Pass) : RegistrarState :=
  { s with passes := match p with
      | some p => s.passes.insert i p
      | none => s.passes.erase i }

/-- A removal, entered into the history when there was something to remove. -/
def remove (s : RegistrarState) (name : GoString) : RegistrarState :=
  let n := canonicalName name
  if (s.registry.lookup n).isSome then
    { s with registry := removeName s.registry name, history := .removed n :: s.history }
  else s

/-- The state after a step, where it can be taken; clock readings increase. -/
def next (s : RegistrarState) : RegAction → Option RegistrarState
  | .register req now =>
    if s.clock < now then
      match handleRegister s.registry req now with
      | (reg, _, some a) => some { s with
          registry := reg
          history := .published a :: .registered a.name :: s.history
          clock := now }
      | (_, _, none) => some { s with clock := now }
    else none
  | .update req now =>
    if s.clock < now then
      match handleUpdate s.registry req now with
      | (reg, _, some a) => some { s with
          registry := reg
          history := .published a :: s.history
          clock := now }
      | (_, _, none) => some { s with clock := now }
    else none
  | .unregister name => some (s.remove name)
  | .revoke name => some (s.remove name)
  | .snapshot i order =>
    if s.passes.lookup i = none ∧ Enumerates s.registry order then
      some (s.setPass i (some ⟨order, none⟩))
    else none
  | .publishNext i now =>
    if s.clock < now then
      match s.passes.lookup i with
      | some ⟨rec :: rest, none⟩ =>
        match idFromHex rec.root with
        | none => some (s.setPass i (some ⟨rest, none⟩))
        | some rootKey =>
          match publish rec.name rootKey now with
          | .error _ => some ({ s with clock := now }.setPass i (some ⟨rest, none⟩))
          | .ok a => some ({ s with
              history := .published a :: s.history
              clock := now }.setPass i (some ⟨rest, some (rec.name, now)⟩))
      | _ => none
    else none
  | .writeBack i now =>
    if s.clock < now then
      match s.passes.lookup i with
      | some ⟨rest, some (n, version)⟩ =>
        let registry := match s.registry.lookup n with
          | some live => s.registry.insert n { live with version, updatedAt := unixSeconds now }
          | none => s.registry
        some ({ s with registry, clock := now }.setPass i (some ⟨rest, none⟩))
      | _ => none
    else none
  | .finish i =>
    match s.passes.lookup i with
    | some ⟨[], none⟩ => some (s.setPass i none)
    | _ => none

end RegistrarState

theorem lookup_setPass (s : RegistrarState) (i j : Nat) (p : Option Pass) :
    (s.setPass i p).passes.lookup j = if j = i then p else s.passes.lookup j := by
  by_cases h : j = i
  · subst h
    cases p <;> simp [RegistrarState.setPass]
  · cases p <;> simp [RegistrarState.setPass, h]

/-- One step of the registrar. -/
def registrarStep : RegistrarState → RegAction → RegistrarState → Prop :=
  stepOf RegistrarState.next

/-! ## What is wanted -/

/-- The records published so far. -/
def announced (history : List RegEvent) : List Announcement :=
  history.filterMap fun
    | .published a => some a
    | _ => none

/-- `a` is the record of highest version for the name. -/
structure Newest (n : GoString) (a : Announcement) (history : List RegEvent) : Prop where
  mem : a ∈ announced history
  name : a.name = n
  max : ∀ b ∈ announced history, b.name = n → b ≠ a → b.version < a.version

/-- The name has been registered and not been removed since. -/
def isLive (n : GoString) : List RegEvent → Bool
  | [] => false
  | .registered m :: older => if m = n then true else isLive n older
  | .removed m :: older => if m = n then false else isLive n older
  | .published _ :: older => isLive n older

/-- No record was published for a name that was not registered at the time. -/
def NoGhost : List RegEvent → Prop
  | [] => True
  | .published a :: older => isLive a.name older = true ∧ NoGhost older
  | .registered _ :: older => NoGhost older
  | .removed _ :: older => NoGhost older

/-- The registry and the published records agree. -/
structure Consistent (s : RegistrarState) : Prop where
  settled : s.passes = ∅ → ∀ n rec, s.registry.lookup n = some rec →
    ∃ a, Newest n a s.history ∧ idFromHex rec.root = some a.root ∧ a.version = rec.version
  noGhost : NoGhost s.history

/-- A step that finds the state its pass expects: the copy about to be
published still has the registered root, and the version about to be written
back is not older than the registered one. -/
def undisturbed (s : RegistrarState) : RegAction → Bool
  | .publishNext i _ =>
    match s.passes.lookup i with
    | some ⟨rec :: _, none⟩ =>
      (s.registry.lookup rec.name).any fun live =>
        decide (idFromHex live.root = idFromHex rec.root)
    | _ => true
  | .writeBack i _ =>
    match s.passes.lookup i with
    | some ⟨_, some (n, version)⟩ =>
      (s.registry.lookup n).all fun live => decide (live.version ≤ version)
    | _ => true
  | _ => true

/-! ## The invariant -/

/-- What every undisturbed step keeps. -/
structure RegistrarInv (s : RegistrarState) : Prop where
  names : ∀ n rec, s.registry.lookup n = some rec → Registrable n ∧ rec.name = n
  live : ∀ n, isLive n s.history = true ↔ n ∈ s.registry
  noGhost : NoGhost s.history
  clock : ∀ a ∈ announced s.history, a.version ≤ s.clock
  copies : ∀ i p, s.passes.lookup i = some p → ∀ rec ∈ p.remaining, Registrable rec.name
  pending : ∀ i p n v, s.passes.lookup i = some p → p.pending = some (n, v) →
    ∃ a ∈ announced s.history, a.name = n ∧ a.version = v
  newest : ∀ n rec, s.registry.lookup n = some rec → ∃ a, Newest n a s.history ∧
    idFromHex rec.root = some a.root ∧
    (a.version = rec.version ∨ ∃ i p, s.passes.lookup i = some p ∧ p.pending = some (n, a.version))

@[simp] theorem announced_published (a : Announcement) (h : List RegEvent) :
    announced (.published a :: h) = a :: announced h := rfl

variable {older : List RegEvent} {n : GoString}

/-- A record with a version above all earlier ones is the newest of its name. -/
theorem Newest.fresh {a : Announcement} (hMax : ∀ b ∈ announced older, b.version < a.version) :
    Newest a.name a (.published a :: older) where
  mem := mem_cons_self
  name := rfl
  max := by
    intro b hb _ hne
    rcases mem_cons.mp hb with rfl | hb
    · exact absurd rfl hne
    · exact hMax b hb

/-- A record for another name changes nothing. -/
theorem Newest.other {a b : Announcement} (hNew : Newest n a older) (hb : b.name ≠ n) :
    Newest n a (.published b :: older) where
  mem := mem_cons_of_mem _ hNew.mem
  name := hNew.name
  max := by
    intro c hc hcn hne
    rcases mem_cons.mp hc with rfl | hc
    · exact absurd hcn hb
    · exact hNew.max c hc hcn hne

theorem Newest.le {a b : Announcement} (hNew : Newest n a older) (hb : b ∈ announced older)
    (hn : b.name = n) : b.version ≤ a.version := by
  by_cases hne : b = a
  · rw [hne]
  · exact le_of_lt (hNew.max b hb hn hne)

namespace RegistrarInv

variable {s t : RegistrarState}

theorem init : RegistrarInv RegistrarState.new where
  names := by simp [RegistrarState.new]
  live := by simp [RegistrarState.new, isLive, Finmap.notMem_empty]
  noGhost := trivial
  clock := by simp [RegistrarState.new, announced]
  copies := by simp [RegistrarState.new]
  pending := by simp [RegistrarState.new]
  newest := by simp [RegistrarState.new]

variable {live rec : RegistrationRecord} {n : GoString} {now version : Nat}
  {rest : List RegistrationRecord} {root : NodeID} (h : RegistrarInv s)

include h

theorem tick (hNow : s.clock < now) : RegistrarInv { s with clock := now } :=
  { h with clock := fun a ha => (h.clock a ha).trans (le_of_lt hNow) }

/-- Writing a registered name registers nothing new. -/
theorem live_of_lookup (hn : s.registry.lookup n = some rec) (m : GoString) :
    isLive m s.history = true ↔ m = n ∨ m ∈ s.registry := by
  rw [h.live m]
  constructor
  · exact .inr
  · rintro (rfl | hm)
    · exact Finmap.mem_of_lookup_eq_some hn
    · exact hm

/-- A handler publishes a fresh record for a name and enters it into the
registry under the same root. -/
theorem announce (events : List RegEvent) (hNow : s.clock < now)
    (hn : Registrable n) (hName : rec.name = n) (hRoot : idFromHex rec.root = some root)
    (hVersion : rec.version = now) (hSame : announced events = announced s.history)
    (hLive : ∀ m, isLive m events = true ↔ m = n ∨ m ∈ s.registry) (hGhost : NoGhost events) :
    RegistrarInv { s with
      registry := s.registry.insert n rec
      history := .published ⟨n, root, now⟩ :: events
      clock := now } where
  names := by
    intro m r hm
    rcases GoMap.lookup_insert_cases hm with ⟨rfl, rfl⟩ | ⟨-, hm⟩
    · exact ⟨hn, hName⟩
    · exact h.names m r hm
  live := by
    intro m
    rw [Finmap.mem_insert]
    exact hLive m
  noGhost := ⟨(hLive n).mpr (.inl rfl), hGhost⟩
  clock := by
    intro a ha
    rw [announced_published, hSame] at ha
    rcases mem_cons.mp ha with rfl | ha
    · exact le_rfl
    · exact (h.clock a ha).trans (le_of_lt hNow)
  copies := h.copies
  pending := by
    intro i p m v hp hv
    obtain ⟨a, ha, hEq⟩ := h.pending i p m v hp hv
    exact ⟨a, by rw [announced_published, hSame]; exact mem_cons_of_mem _ ha, hEq⟩
  newest := by
    intro m r hm
    rcases GoMap.lookup_insert_cases hm with ⟨rfl, rfl⟩ | ⟨hmn, hm⟩
    · refine ⟨⟨m, root, now⟩, Newest.fresh (a := ⟨m, root, now⟩) fun b hb => ?_, hRoot,
        .inl hVersion.symm⟩
      rw [hSame] at hb
      exact lt_of_le_of_lt (h.clock b hb) hNow
    · obtain ⟨a, hNew, hRest⟩ := h.newest m r hm
      refine ⟨a, Newest.other ?_ (Ne.symm hmn), hRest⟩
      exact ⟨by rw [hSame]; exact hNew.mem, hNew.name, by rw [hSame]; exact hNew.max⟩

theorem remove (name : GoString) : RegistrarInv (s.remove name) := by
  rw [RegistrarState.remove]
  split
  · have hLookup : ∀ m rec, (removeName s.registry name).lookup m = some rec →
        s.registry.lookup m = some rec := by
      intro m rec hm
      exact (GoMap.lookup_of_lookup_erase hm).2
    exact
      { h with
        names := fun m rec hm => h.names m rec (hLookup m rec hm)
        live := by
          intro m
          rw [isLive, removeName, Finmap.mem_erase]
          split
          · rename_i hEq
            simp [hEq]
          · rename_i hne
            rw [h.live m]
            exact ⟨fun hm => ⟨Ne.symm hne, hm⟩, fun hm => hm.2⟩
        newest := by
          intro m rec hm
          obtain ⟨a, hNew, hRest⟩ := h.newest m rec (hLookup m rec hm)
          exact ⟨a, ⟨hNew.mem, hNew.name, hNew.max⟩, hRest⟩ }
  · exact h

/-- A pass whose pending entry does not change may be replaced. -/
theorem setPass (i : Nat) (p : Option Pass)
    (hCopies : ∀ q, p = some q → ∀ rec ∈ q.remaining, Registrable rec.name)
    (hPending : (p.bind (·.pending)) = (s.passes.lookup i).bind (·.pending)) :
    RegistrarInv (s.setPass i p) where
  __ := h
  copies := by
    intro j q hq
    rw [lookup_setPass] at hq
    split at hq
    · exact hCopies q hq
    · exact h.copies j q hq
  pending := by
    intro j q n v hq hv
    rw [lookup_setPass] at hq
    split at hq
    · rw [hq, Option.bind_some, hv] at hPending
      obtain ⟨q', hq', hv'⟩ := Option.bind_eq_some_iff.mp hPending.symm
      exact h.pending i q' n v hq' hv'
    · exact h.pending j q n v hq hv
  newest := by
    intro n rec hn
    obtain ⟨a, hNew, hRoot, hVer⟩ := h.newest n rec hn
    refine ⟨a, hNew, hRoot, hVer.imp_right ?_⟩
    rintro ⟨j, q, hq, hv⟩
    by_cases hji : j = i
    · subst hji
      rw [hq, Option.bind_some, hv] at hPending
      obtain ⟨q', hq', hv'⟩ := Option.bind_eq_some_iff.mp hPending
      exact ⟨j, q', by rw [lookup_setPass, if_pos rfl, hq'], hv'⟩
    · exact ⟨j, q, by rw [lookup_setPass, if_neg hji, hq], hv⟩

/-- A pass publishes a copy that still has the registered root. -/
theorem publishNext {i : Nat} (hNow : s.clock < now)
    (hPass : s.passes.lookup i = some ⟨rec :: rest, none⟩)
    (hRoot : idFromHex rec.root = some root) (hLive : s.registry.lookup rec.name = some live)
    (hSame : idFromHex live.root = idFromHex rec.root) :
    RegistrarInv ({ s with
      history := .published ⟨rec.name, root, now⟩ :: s.history
      clock := now }.setPass i (some ⟨rest, some (rec.name, now)⟩)) where
  __ := h
  noGhost := ⟨(h.live rec.name).mpr (Finmap.mem_of_lookup_eq_some hLive), h.noGhost⟩
  clock := by
    intro a ha
    rcases mem_cons.mp ha with rfl | ha
    · exact le_rfl
    · exact (h.clock a ha).trans (le_of_lt hNow)
  copies := by
    intro j q hq
    rw [lookup_setPass] at hq
    split at hq
    · cases hq
      exact fun r hr => h.copies i _ hPass r (mem_cons_of_mem _ hr)
    · exact h.copies j q hq
  pending := by
    intro j q n v hq hv
    rw [lookup_setPass] at hq
    split at hq
    · cases hq
      cases hv
      exact ⟨_, mem_cons_self, rfl, rfl⟩
    · obtain ⟨a, ha, hEq⟩ := h.pending j q n v hq hv
      exact ⟨a, mem_cons_of_mem _ ha, hEq⟩
  newest := by
    intro n r hn
    have hFresh : ∀ b ∈ announced s.history, b.version < now :=
      fun b hb => lt_of_le_of_lt (h.clock b hb) hNow
    by_cases hName : n = rec.name
    · subst hName
      obtain rfl : r = live := Option.some.inj (hn.symm.trans hLive)
      exact ⟨⟨rec.name, root, now⟩, Newest.fresh (a := ⟨rec.name, root, now⟩) hFresh,
        hSame.trans hRoot,
        .inr ⟨i, ⟨rest, some (rec.name, now)⟩, by rw [lookup_setPass, if_pos rfl], rfl⟩⟩
    · obtain ⟨a, hNew, hRoot', hVer⟩ := h.newest n r hn
      refine ⟨a, hNew.other (Ne.symm hName), hRoot', hVer.imp_right ?_⟩
      rintro ⟨j, q, hq, hv⟩
      -- the pass that has `n` pending is not the one that just published
      have hji : j ≠ i := by
        rintro rfl
        rw [hPass] at hq
        cases hq
        cases hv
      exact ⟨j, q, by rw [lookup_setPass, if_neg hji, hq], hv⟩

/-- A pending version that is not older than the registered one may be entered
into the registry. -/
theorem bumpVersion {i updatedAt : Nat}
    (hPass : s.passes.lookup i = some ⟨rest, some (n, version)⟩)
    (hLive : s.registry.lookup n = some live) (hNot : live.version ≤ version) :
    RegistrarInv { s with registry := s.registry.insert n { live with version, updatedAt } } where
  __ := h
  names := by
    intro m r hm
    rcases GoMap.lookup_insert_cases hm with ⟨rfl, rfl⟩ | ⟨-, hm⟩
    · exact h.names m live hLive
    · exact h.names m r hm
  live := by
    intro m
    rw [Finmap.mem_insert]
    exact h.live_of_lookup hLive m
  newest := by
    intro m r hm
    rcases GoMap.lookup_insert_cases hm with ⟨rfl, rfl⟩ | ⟨-, hm⟩
    · obtain ⟨a, hNew, hRoot, hVer⟩ := h.newest m live hLive
      obtain ⟨b, hb, hbName, hbVer⟩ := h.pending i _ m version hPass rfl
      have hLe : version ≤ a.version := hbVer ▸ hNew.le hb hbName
      refine ⟨a, hNew, hRoot, ?_⟩
      -- the newest record is the pending one, or a newer one pending elsewhere
      rcases hVer with hVer | hVer
      · exact .inl (by dsimp only; omega)
      · exact .inr hVer
    · exact h.newest m r hm

/-- A pending entry may go once the registry has its version, or has the name
no longer. -/
theorem clearPending {i : Nat}
    (hPass : s.passes.lookup i = some ⟨rest, some (n, version)⟩)
    (hDone : ∀ live, s.registry.lookup n = some live → live.version = version) :
    RegistrarInv (s.setPass i (some ⟨rest, none⟩)) where
  __ := h
  copies := by
    intro j q hq
    rw [lookup_setPass] at hq
    split at hq
    · cases hq
      exact h.copies i ⟨rest, some (n, version)⟩ hPass
    · exact h.copies j q hq
  pending := by
    intro j q m v hq hv
    rw [lookup_setPass] at hq
    split at hq
    · cases hq
      cases hv
    · exact h.pending j q m v hq hv
  newest := by
    intro m r hm
    obtain ⟨a, hNew, hRoot, hVer | ⟨j, q, hq, hv⟩⟩ := h.newest m r hm
    · exact ⟨a, hNew, hRoot, .inl hVer⟩
    · by_cases hji : j = i
      · -- the entry that goes was the reason: the registry has its version now
        subst hji
        rw [hPass] at hq
        cases hq
        cases hv
        exact ⟨a, hNew, hRoot, .inl (hDone r hm).symm⟩
      · exact ⟨a, hNew, hRoot, .inr ⟨j, q, by rw [lookup_setPass, if_neg hji, hq], hv⟩⟩

/-! ## One step -/

theorem register {req : RegisterRequest}
    (hStep : s.next (.register req now) = some t) : RegistrarInv t := by
  obtain ⟨hNow, hStep⟩ := Option.ite_none_right_eq_some.mp hStep
  rcases handleRegister_cases s.registry req now with
    ⟨-, hNone⟩ | ⟨n, rec, root, hn, -, hName, hRoot, hVer, hReg, hSome⟩
  · split at hStep
    · rename_i hEq
      rw [hEq] at hNone
      cases hNone
    · cases hStep
      exact h.tick hNow
  · split at hStep
    · rename_i reg _ a hEq
      rw [hEq] at hReg hSome
      cases hSome
      obtain rfl : reg = s.registry.insert n rec := hReg
      cases hStep
      refine h.announce (.registered n :: s.history) hNow hn hName hRoot hVer rfl ?_ h.noGhost
      intro m
      rw [isLive, ← h.live m]
      split
      · rename_i hEq
        simp [hEq]
      · rename_i hne
        simp [Ne.symm hne]
    · rename_i hEq
      rw [hEq] at hSome
      cases hSome

theorem update {req : UpdateRequest}
    (hStep : s.next (.update req now) = some t) : RegistrarInv t := by
  obtain ⟨hNow, hStep⟩ := Option.ite_none_right_eq_some.mp hStep
  have hNames : ∀ n, n ∈ s.registry → Registrable n := by
    intro n hn
    obtain ⟨rec, hRec⟩ := Finmap.mem_iff.mp hn
    exact (h.names n rec hRec).1
  rcases handleUpdate_cases s.registry req now hNames with
    ⟨-, hNone⟩ | ⟨n, old, rec, root, hOld, hName, hRoot, hVer, hReg, hSome⟩
  · split at hStep
    · rename_i hEq
      rw [hEq] at hNone
      cases hNone
    · cases hStep
      exact h.tick hNow
  · split at hStep
    · rename_i reg _ a hEq
      rw [hEq] at hReg hSome
      cases hSome
      obtain rfl : reg = s.registry.insert n rec := hReg
      cases hStep
      obtain ⟨hn, hOldName⟩ := h.names n old hOld
      exact h.announce s.history hNow hn (hName.trans hOldName) hRoot hVer rfl
        (h.live_of_lookup hOld) h.noGhost
    · rename_i hEq
      rw [hEq] at hSome
      cases hSome

/-- A pass publishes its next copy, or skips one that has no root. -/
theorem nextCopy {i : Nat} (hStep : s.next (.publishNext i now) = some t)
    (hGood : undisturbed s (.publishNext i now) = true) : RegistrarInv t := by
  obtain ⟨hNow, hStep⟩ := Option.ite_none_right_eq_some.mp hStep
  split at hStep
  · rename_i rec rest hPass
    simp only [undisturbed, hPass, Option.any_eq_true, decide_eq_true_eq] at hGood
    obtain ⟨live, hLive, hSame⟩ := hGood
    split at hStep
    · cases hStep
      refine h.setPass i _ ?_ (by rw [hPass]; rfl)
      rintro q ⟨⟩ r hr
      exact h.copies i _ hPass r (mem_cons_of_mem _ hr)
    · rename_i root hRoot
      have hReg := h.copies i _ hPass rec mem_cons_self
      rw [hReg.publish root now] at hStep
      cases hStep
      exact h.publishNext hNow hPass hRoot hLive hSame
  · cases hStep

/-- A pass enters its pending version, if the name is still registered. -/
theorem writeBack {i : Nat} (hStep : s.next (.writeBack i now) = some t)
    (hGood : undisturbed s (.writeBack i now) = true) : RegistrarInv t := by
  obtain ⟨hNow, hStep⟩ := Option.ite_none_right_eq_some.mp hStep
  split at hStep
  · rename_i rest n version hPass
    cases hLive : s.registry.lookup n with
    | none =>
      rw [hLive] at hStep
      cases hStep
      refine (h.tick hNow).clearPending hPass fun live hEq => ?_
      rw [hLive] at hEq
      cases hEq
    | some live =>
      rw [hLive] at hStep
      cases hStep
      simp only [undisturbed, hPass, hLive, Option.all_some, decide_eq_true_eq] at hGood
      refine ((h.tick hNow).bumpVersion hPass hLive hGood).clearPending hPass fun live' hEq => ?_
      rw [Finmap.lookup_insert] at hEq
      cases hEq
      rfl
  · cases hStep

end RegistrarInv

/-- **One step.** Every undisturbed step keeps the invariant. -/
theorem registrar_step {s t : RegistrarState} {a : RegAction} (h : RegistrarInv s)
    (hStep : registrarStep s a t) (hGood : undisturbed s a = true) : RegistrarInv t := by
  have hNext : s.next a = some t := hStep
  cases a with
  | register req now => exact h.register hNext
  | update req now => exact h.update hNext
  | unregister name =>
    cases hNext
    exact h.remove name
  | revoke name =>
    cases hNext
    exact h.remove name
  | snapshot i order =>
    obtain ⟨hGuard, ⟨⟩⟩ := Option.ite_none_right_eq_some.mp hNext
    refine h.setPass i _ ?_ (by rw [hGuard.1]; rfl)
    rintro q ⟨⟩ rec hRec
    exact (h.names rec.name rec (hGuard.2.2.2 rec hRec)).1
  | publishNext i now => exact h.nextCopy hNext hGood
  | writeBack i now => exact h.writeBack hNext hGood
  | finish i =>
    unfold RegistrarState.next at hNext
    dsimp only at hNext
    split at hNext
    · rename_i hPass
      cases hNext
      exact h.setPass i none (by simp) (by rw [hPass]; rfl)
    · cases hNext

/-- The invariant says more than what is wanted. -/
theorem RegistrarInv.consistent {s : RegistrarState} (h : RegistrarInv s) : Consistent s where
  settled := by
    intro hIdle n rec hn
    obtain ⟨a, hNew, hRoot, hVer | ⟨i, p, hp, -⟩⟩ := h.newest n rec hn
    · exact ⟨a, hNew, hRoot, hVer⟩
    · rw [hIdle, Finmap.lookup_empty] at hp
      cases hp
  noGhost := h.noGhost

/-! ## Whole runs -/

/-- **Republishing undoes nothing in undisturbed runs.** In every state that a
run of undisturbed steps from an empty registry reaches, no record has been
published for a name that was not registered, and whenever no pass is under
way the newest record of every registered name has the registered root and
version. -/
theorem republish_consistent {as : List RegAction} {s : RegistrarState}
    (hRun : Exec (guarded registrarStep fun s a => undisturbed s a = true)
      RegistrarState.new as s) : Consistent s :=
  (hRun.invariant (I := RegistrarInv) RegistrarInv.init
    fun h hStep => registrar_step h hStep.1 hStep.2).consistent

/-- A registration, and a pass of `republishAll` that has copied it. -/
def registerThenCopy : List RegAction :=
  [.register ⟨"a.alt".toList, (fill 1).hex, []⟩ 1,
   .snapshot 0 [⟨"a.alt".toList, (fill 1).hex, [], 0, 0, 1⟩]]

/-- The theorem on a registration that is copied, published again and written
back without a change in between. -/
theorem republish_consistent_single :
    ∃ s, Exec (guarded registrarStep fun s a => undisturbed s a = true) RegistrarState.new
        (registerThenCopy ++ [.publishNext 0 2, .writeBack 0 3, .finish 0]) s ∧ Consistent s := by
  refine Exec.exists_of_checked (p := fun _ => True) RegistrarState.next undisturbed
    (fun hNext hOk => ⟨hNext, hOk⟩) (by decide +kernel) ?_
  exact fun s hRun _ => republish_consistent hRun

/-- Republishing does undo changes. With an update between the copy and its
publication, the registry ends with the new root while the newest record has
the old one; with a removal there, a record is published for a name that is
not registered. -/
theorem republish_undoes_changes :
    (∃ s, Exec registrarStep RegistrarState.new
        (registerThenCopy ++ [.update ⟨"a.alt".toList, (fill 2).hex⟩ 2,
          .publishNext 0 3, .writeBack 0 4, .finish 0]) s ∧
      s.passes = ∅ ∧ (s.registry.lookup "a.alt".toList).map (·.root) = some (fill 2).hex ∧
      (announced s.history).head? = some ⟨"a.alt".toList, fill 1, 3⟩ ∧ ¬ Consistent s) ∧
    ∃ s, Exec registrarStep RegistrarState.new
        (registerThenCopy ++ [.unregister "a.alt".toList, .publishNext 0 2]) s ∧
      s.registry = ∅ ∧ ¬ Consistent s := by
  constructor
  · refine Exec.exists_of_runFrom (p := fun s => s.passes = ∅ ∧
        s.registry = Finmap.singleton "a.alt".toList
          ⟨"a.alt".toList, (fill 2).hex, [], 0, 0, 3⟩ ∧
        s.history = [.published ⟨"a.alt".toList, fill 1, 3⟩,
          .published ⟨"a.alt".toList, fill 2, 2⟩,
          .published ⟨"a.alt".toList, fill 1, 1⟩, .registered "a.alt".toList])
      (by decide +kernel) ?_
    rintro s - ⟨hPasses, hReg, hHist⟩
    refine ⟨hPasses, by rw [hReg]; decide +kernel, by rw [hHist]; rfl, ?_⟩
    intro hCons
    obtain ⟨a, hNew, hRoot, -⟩ := hCons.settled hPasses "a.alt".toList
      ⟨"a.alt".toList, (fill 2).hex, [], 0, 0, 3⟩ (by rw [hReg]; decide +kernel)
    rw [hHist] at hNew
    rw [idFromHex_hex, Option.some.injEq] at hRoot
    -- version 3, with the first root, is above every other record
    have hLe := hNew.le (b := ⟨"a.alt".toList, fill 1, 3⟩) (by decide +kernel) rfl
    have hMem := hNew.mem
    simp only [announced, filterMap_cons, filterMap_nil, mem_cons,
      not_mem_nil, or_false] at hMem
    rcases hMem with rfl | rfl | rfl
    · exact absurd hRoot (by decide)
    · exact absurd hLe (by decide)
    · exact absurd hLe (by decide)
  · refine Exec.exists_of_runFrom (p := fun s => s.registry = ∅ ∧
        s.history = [.published ⟨"a.alt".toList, fill 1, 2⟩, .removed "a.alt".toList,
          .published ⟨"a.alt".toList, fill 1, 1⟩, .registered "a.alt".toList])
      (by decide +kernel) ?_
    rintro s - ⟨hReg, hHist⟩
    refine ⟨hReg, fun hCons => ?_⟩
    have hGhost := hCons.noGhost
    rw [hHist] at hGhost
    exact absurd hGhost.1 (by decide +kernel)

end AltNet
