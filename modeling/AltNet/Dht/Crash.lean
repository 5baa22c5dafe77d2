import AltNet.Dht.DiskMirror

/-!
# AltNet — a crash in the middle of an operation

The process may end after any file operation; what a restart then finds is what
`loadFromDisk` makes of the directory. An entry that was there before the
operation and would be there after it is to be found with the one value or the
other, and nothing is to be found that was neither before nor after.

The temporary file is never loaded, and a file gets the name of a key only when
it is complete. So it all depends on the files that an operation removes. An
evicted entry is gone after the operation, and so its file may go at any time,
except for one: when the eviction of a `put` reaches the entry that this `put`
overwrites, the old file goes before the new one has its name.

Main results:

* `DiskStore.Progress.file` — until its file operation, a name still has the
  file from before;
* `crash_consistent_iff` — a crash is harmless at every point of an operation
  exactly when the operation does not evict the entry that it overwrites;
* `crash_loses_overwritten` — an entry that a crash loses.
-/

namespace AltNet

open List

open NodeID (fill)

/-- What a restart may find after a crash. -/
structure Recovered (before after found : GoMap GoString Bytes) : Prop where
  kept : ∀ x ∈ before, x ∈ after →
    found.lookup x = before.lookup x ∨ found.lookup x = after.lookup x
  no_new : ∀ x value, found.lookup x = some value →
    before.lookup x = some value ∨ after.lookup x = some value

/-- A write that evicts the entry that it overwrites. -/
def StoreOp.EvictsOwn (s : LocalStore) : StoreOp → Prop
  | .put key value peerID _ order =>
    s.admits key.hex value.length peerID = true ∧ key.hex ∈ s.data ∧
      s.Evicts key value order key.hex
  | .get _ _ => False
  | .delete _ => False

/-- A write is of a size that `loadFromDisk` accepts. -/
def StoreOp.Fits : StoreOp → Prop
  | .put _ value _ _ _ => value.length ≤ maxValueSize
  | .get _ _ => True
  | .delete _ => True

def DiskAction.Fits : DiskAction → Prop
  | .enter op => op.Fits
  | .file _ _ => True

/-- One operation after the other. -/
def DiskStore.Sequential (s : DiskStore) : DiskAction → Prop
  | .enter _ => s.idle = true
  | .file _ _ => True

/-! ## The files of an eviction, once more -/

namespace LocalStore

variable {s : LocalStore} {key : NodeID} {value : Bytes} {order : List GoString} {x : GoString}

theorem mem_putFiles_iff :
    x ∈ s.putFiles key value order ↔ x ∈ s.data ∧ x ∉ (s.evicted key value order).data := by
  rw [← Finmap.lookup_eq_none, evicted_lookup]
  constructor
  · exact fun h => ⟨mem_putFiles h, if_pos h⟩
  · rintro ⟨hMem, hNone⟩
    by_contra hNot
    rw [if_neg hNot] at hNone
    exact Finmap.lookup_eq_none.mp hNone hMem

theorem nodup_evictLoopFiles {cap : Int} : (evictLoopFiles cap order s).Nodup := by
  induction order generalizing s with
  | nil => exact nodup_nil
  | cons hex rest ih =>
    rw [evictLoopFiles]
    split
    · exact nodup_nil
    split
    · -- an entry that has been dropped is not evicted again
      refine nodup_cons.mpr ⟨fun hMem => ?_, ih⟩
      have hOld := mem_evictLoopFiles hMem
      rw [dropEntry_data, Finmap.mem_erase] at hOld
      exact hOld.1 rfl
    · exact ih

theorem nodup_putFiles : (s.putFiles key value order).Nodup := by
  unfold putFiles evictToFitFiles
  split
  · exact nodup_nil
  unfold evictUntilUnderFiles
  split
  · exact nodup_nil
  · split
    · exact nodup_nil
    · exact nodup_evictLoopFiles

/-- Unless a write evicts the entry that it overwrites, an operation works on
each name once. -/
theorem nodup_callOf {op : StoreOp} (hValid : op.Valid s) (hOwn : ¬ op.EvictsOwn s) :
    (s.callOf op).names.Nodup := by
  cases op with
  | get key now => exact nodup_nil
  | delete key =>
    rw [callOf]
    split
    · exact nodup_singleton _
    · exact nodup_nil
  | put key value peerID now order =>
    rw [callOf]
    split
    case isTrue hAdmit =>
      refine nodup_cons.mpr ⟨fun hMem => ?_, nodup_putFiles⟩
      obtain ⟨hOld, hGone⟩ := mem_putFiles_iff.mp hMem
      rw [mem_evicted_iff hValid] at hGone
      exact hOwn ⟨hAdmit, hOld, by_contra fun hKept => hGone ⟨hOld, hKept⟩⟩
    case isFalse => exact nodup_nil

end LocalStore

open LocalStore

/-! ## The operation in progress -/

namespace DiskStore

variable {s t : DiskStore} {call call' : DiskCall} {before : GoMap GoString Bytes}

/-- The operation in progress is call `c`. Where it is still at work, the files
are those from before. -/
structure Progress (before : GoMap GoString Bytes) (c : Nat) (s : DiskStore) : Prop where
  alone : ∀ (i : Nat) call, s.calls[i]? = some call → i ≠ c → call = .done
  once : ∀ call, s.calls[c]? = some call → call.names.Nodup
  read : ∀ call, s.calls[c]? = some call → ∀ x ∈ call.names, s.dir.read x = before.lookup x

/-- What a file operation does to the names that it leaves to later ones. -/
theorem Inv.work_keeps (h : s.Inv) {c : Nat} {D' : Dir} (hCall : s.calls[c]? = some call)
    (hOnce : call.names.Nodup) (hWorks : call.Works s.dir D' call') :
    call'.names.Sublist call.names ∧ ∀ x ∈ call'.names, D'.read x = s.dir.read x := by
  have hDue := h.due c call hCall
  have hNamed := h.named c call hCall
  cases hWorks with
  | @evict name todo hex value =>
    refine ⟨(sublist_cons_self name todo).cons_cons hex,
      fun x hx => (Dir.keeps_remove ?_).read⟩
    -- no other entry of the list has this name
    rintro rfl
    obtain ⟨hHex, hTodo⟩ := nodup_cons.mp hOnce
    rcases mem_cons.mp hx with rfl | hx
    · exact hHex mem_cons_self
    · exact (nodup_cons.mp hTodo).1 hx
  | unlock => exact ⟨List.Sublist.refl _, fun _ _ => rfl⟩
  | create =>
    refine ⟨List.Sublist.refl _, fun x hx => (Dir.keeps_openTrunc ?_).read⟩
    exact ne_tmpName (hNamed x hx) _
  | write =>
    refine ⟨List.Sublist.refl _, fun x hx => (Dir.keeps_writeAt hDue.2.1 ?_).read⟩
    exact ne_tmpName (hNamed x hx) _
  | rename | remove => exact ⟨nil_sublist _, nofun⟩

theorem eq_done_of_idle (h : s.idle = true) (hCall : call ∈ s.calls) : call = .done :=
  of_decide_eq_true (all_eq_true.mp h call hCall)

theorem Sequential.apart {a : DiskAction} (h : s.Sequential a) : s.Apart a := by
  cases a with
  | file c n => trivial
  | enter op =>
    intro call hCall x hx
    rw [eq_done_of_idle h hCall] at hx
    cases hx

/-- An operation begins. -/
theorem Progress.enter (h : s.Inv) (hIdle : s.idle = true) {op : StoreOp}
    (hValid : op.Valid s.mem) (hOwn : ¬ op.EvictsOwn s.mem) :
    Progress s.mem.data s.calls.length
      { s with mem := op.apply s.mem, calls := s.calls ++ [s.mem.callOf op] } where
  alone := by
    intro i call hCall hNe
    rcases pool_append_cases hCall with ⟨rfl, -⟩ | ⟨-, hOld⟩
    · exact absurd rfl hNe
    · exact eq_done_of_idle hIdle (mem_of_getElem? hOld)
  once := by
    intro call hCall
    cases pool_append_self.symm.trans hCall
    exact nodup_callOf hValid hOwn
  read := by
    intro call hCall x hx
    cases pool_append_self.symm.trans hCall
    exact (h.mirrors hIdle).files x (hexNamed_callOf h.keys op x hx)

/-- **A file operation** of the operation in progress. -/
theorem Progress.file {c c' n : Nat} (hP : Progress before c s) (h : s.Inv)
    (hStep : s.next (.file c' n) = some t) : Progress before c t ∧ t.mem = s.mem := by
  rcases next_cases hStep with ⟨op, hEq, -⟩ | ⟨_, _, call, dir, call', hEq, hCall, hWorks, rfl⟩
  · cases hEq
  obtain ⟨rfl, rfl⟩ := DiskAction.file.inj hEq
  by_cases hIndex : c' = c
  · subst hIndex
    obtain ⟨hSub, hRead⟩ := h.work_keeps hCall (hP.once call hCall) hWorks
    have hNew : (s.calls.set c' call')[c']? = some call' := pool_set_self hCall
    refine ⟨⟨?_, ?_, ?_⟩, rfl⟩
    · intro i other hOther hNe
      rcases pool_set_cases hOther with ⟨rfl, -⟩ | ⟨-, hOld⟩
      · exact absurd rfl hNe
      · exact hP.alone i other hOld hNe
    · intro other hOther
      cases hNew.symm.trans hOther
      exact (hP.once call hCall).sublist hSub
    · intro other hOther x hx
      cases hNew.symm.trans hOther
      exact (hRead x hx).trans (hP.read call hCall x (hSub.subset hx))
  · -- the other calls are done
    rw [hP.alone c' call hCall hIndex] at hWorks
    cases hWorks

/-- The file operations of an operation, up to the crash. -/
theorem Progress.files {c : Nat} {ops : List (Nat × Nat)} (hP : Progress before c s) (h : s.Inv)
    (hRun : Exec diskStep s (ops.map fun p => .file p.1 p.2) t) :
    Progress before c t ∧ t.mem = s.mem ∧ t.Inv := by
  induction ops generalizing s with
  | nil =>
    obtain rfl := hRun.nil_inv
    exact ⟨hP, rfl, h⟩
  | cons p ops ih =>
    obtain ⟨u, hFirst, hRest⟩ := hRun.cons_inv
    obtain ⟨hNext, hMem⟩ := hP.file h hFirst.2
    have hApart : s.Apart (.file p.1 p.2) := trivial
    obtain ⟨hEnd, hMem', hInv⟩ := ih hNext (h.step hApart hFirst.2) hRest
    exact ⟨hEnd, hMem'.trans hMem, hInv⟩

/-! ## Sizes -/

/-- Every value has a size that `loadFromDisk` accepts. -/
def Fitting (s : DiskStore) : Prop :=
  ∀ x value, s.mem.data.lookup x = some value → value.length ≤ maxValueSize

end DiskStore

/-- Every value after an operation is an old one or the one that was put. -/
theorem StoreOp.Fits.apply {s : LocalStore} {op : StoreOp} (hFit : op.Fits)
    (h : ∀ x value, s.data.lookup x = some value → value.length ≤ maxValueSize) (x : GoString)
    (value : Bytes) (hLookup : (op.apply s).data.lookup x = some value) :
    value.length ≤ maxValueSize := by
  cases op with
  | get key now =>
    have hOld : (s.get key now).1.data.lookup x = some value := hLookup
    rw [get_data] at hOld
    exact h x value hOld
  | delete key =>
    have hOld : (s.dropEntry key.hex).data.lookup x = some value := hLookup
    rw [dropEntry_data] at hOld
    exact h x value (GoMap.lookup_of_lookup_erase hOld).2
  | put key new peerID now order =>
    rcases put_entry hLookup with ⟨hOld, -⟩ | ⟨-, rfl, -⟩
    · exact h x value hOld
    · exact hFit

namespace DiskStore

variable {s t : DiskStore} {D : Dir}

theorem Fitting.step (h : s.Fitting) {a : DiskAction} (hFit : a.Fits) (hStep : s.next a = some t) :
    t.Fitting := by
  rcases next_cases hStep with ⟨op, rfl, rfl⟩ | ⟨_, _, _, _, _, rfl, -, -, rfl⟩
  · exact hFit.apply h
  · exact h

theorem Fitting.open {mtime : GoString → Time} {order : List GoString}
    {maxBytes perPeerMax : Int} : (DiskStore.open D mtime order maxBytes perPeerMax).Fitting := by
  intro x value hLookup
  have hFound := evictUntilUnder_lookup_files.symm.trans hLookup
  split at hFound
  case isTrue => cases hFound
  case isFalse =>
    rw [lookup_loadFromDisk] at hFound
    exact (loadable_iff.mp (Option.filter_eq_some_iff.mp hFound).2).2

end DiskStore

/-! ## What a restart finds -/

namespace DiskStore

variable {s t : DiskStore}

/-- In the middle of an operation that works on each name once, the directory
is a mixture of before and after. -/
theorem Progress.consistent {c : Nat} {before : GoMap GoString Bytes} {mtime : GoString → Time}
    {maxBytes perPeerMax : Int} (hP : Progress before c t) (h : t.Inv)
    (hKeys : ∀ x ∈ before, hexNamed x = true)
    (hBefore : ∀ x value, before.lookup x = some value → value.length ≤ maxValueSize)
    (hAfter : t.Fitting) :
    Recovered before t.mem.data (loadFromDisk t.dir mtime maxBytes perPeerMax).data := by
  have hRead : ∀ x, hexNamed x = true →
      t.dir.read x = before.lookup x ∨ t.dir.read x = t.mem.data.lookup x := by
    intro x hx
    by_cases hWork : ∃ call ∈ t.calls, x ∈ call.names
    · obtain ⟨call, hCall, hMem⟩ := hWork
      obtain ⟨i, hi⟩ := mem_iff_getElem?.mp hCall
      by_cases hIndex : i = c
      · subst hIndex
        exact .inl (hP.read call hi x hMem)
      · rw [hP.alone i call hi hIndex] at hMem
        cases hMem
    · exact .inr (h.settled x hx fun call hCall hMem => hWork ⟨call, hCall, hMem⟩)
  have hSize : ∀ x value, hexNamed x = true → t.dir.read x = some value →
      value.length ≤ maxValueSize := by
    intro x value hx hValue
    rcases hRead x hx with hEq | hEq
    · exact hBefore x value (hEq.symm.trans hValue)
    · exact hAfter x value (hEq.symm.trans hValue)
  have hFound : ∀ x, hexNamed x = true →
      (loadFromDisk t.dir mtime maxBytes perPeerMax).data.lookup x = t.dir.read x := by
    intro x hx
    rw [lookup_loadFromDisk]
    cases hValue : t.dir.read x with
    | none => rfl
    | some value => rw [Option.filter_some, if_pos (loadable_iff.mpr ⟨hx, hSize x value hx hValue⟩)]
  refine ⟨fun x hOld _ => ?_, fun x value hValue => ?_⟩
  · rw [hFound x (hKeys x hOld)]
    exact hRead x (hKeys x hOld)
  · have hx : hexNamed x = true := by
      rw [lookup_loadFromDisk] at hValue
      exact (loadable_iff.mp (Option.filter_eq_some_iff.mp hValue).2).1
    rw [hFound x hx] at hValue
    exact (hRead x hx).imp (fun hEq => hEq.symm.trans hValue) fun hEq => hEq.symm.trans hValue

/-- The eviction comes to the file of a name. -/
theorem evict_reaches {c : Nat} {hex : GoString} {value : Bytes} {x : GoString} :
    ∀ {todo : List GoString} {s : DiskStore},
      s.calls[c]? = some (.evicting todo hex value) → x ∈ todo →
      ∃ (ops : List (Nat × Nat)) (t : DiskStore),
        Exec diskStep s (ops.map fun p => .file p.1 p.2) t ∧ t.dir.read x = none
  | name :: todo, s, hCall, hMem => by
    let u : DiskStore := { s with
      dir := s.dir.remove name
      calls := s.calls.set c (.evicting todo hex value) }
    have hStep : diskStep s (.file c 0) u := by
      refine ⟨trivial, ?_⟩
      rw [DiskStore.next, hCall]
      rfl
    by_cases hx : x = name
    · subst hx
      exact ⟨[(c, 0)], u, .single hStep, Dir.read_remove⟩
    have hRest : x ∈ todo := (mem_cons.mp hMem).resolve_left hx
    have hNext : u.calls[c]? = some (.evicting todo hex value) := pool_set_self hCall
    obtain ⟨ops, t, hRun, hGone⟩ := evict_reaches hNext hRest
    exact ⟨(c, 0) :: ops, t, .cons hStep hRun, hGone⟩

theorem unlocked_of_idle (h : s.idle = true) : s.locked = false := by
  rw [DiskStore.locked, any_eq_false]
  intro call hCall
  rw [eq_done_of_idle h hCall]
  exact Bool.false_ne_true

/-- An operation can begin when no other is in progress. -/
theorem next_enter (hIdle : s.idle = true) (op : StoreOp) :
    s.next (.enter op) =
      some { s with mem := op.apply s.mem, calls := s.calls ++ [s.mem.callOf op] } := by
  rw [DiskStore.next, unlocked_of_idle hIdle]
  rfl

end DiskStore

/-- **A crash is harmless** at every point of an operation, in any run of
operations one after the other, exactly when the operation does not evict the
entry that it overwrites. -/
theorem crash_consistent_iff {D : Dir} {mtime : GoString → Time} {order : List GoString}
    {maxBytes perPeerMax : Int} {as : List DiskAction} {s : DiskStore} {op : StoreOp}
    (hSizes : ∀ name value, hexNamed name = true → D.read name = some value →
      value.length ≤ maxValueSize)
    (hRun : Exec (guarded diskStep fun s a => s.Sequential a ∧ a.Fits)
      (DiskStore.open D mtime order maxBytes perPeerMax) as s)
    (hIdle : s.idle = true) (hValid : op.Valid s.mem) (hFit : op.Fits) :
    (∀ (ops : List (Nat × Nat)) (t : DiskStore) (mtime' : GoString → Time),
        Exec diskStep s (.enter op :: ops.map fun p => .file p.1 p.2) t →
        Recovered s.mem.data (op.apply s.mem).data
          (loadFromDisk t.dir mtime' maxBytes perPeerMax).data) ↔
      ¬ op.EvictsOwn s.mem := by
  have hAll : s.Inv ∧ s.Fitting := by
    refine hRun.invariant (I := fun s => s.Inv ∧ s.Fitting) ⟨.open hSizes, .open⟩ ?_
    rintro u a v ⟨hInv, hFitting⟩ ⟨hStep, hSequential, hFit⟩
    exact ⟨hInv.step hSequential.apart hStep.2, hFitting.step hFit hStep.2⟩
  obtain ⟨hInv, hFitting⟩ := hAll
  constructor
  · intro hHarmless hOwn
    cases op with
    | get key now => exact hOwn
    | delete key => exact hOwn
    | put key value peerID now order =>
      obtain ⟨hAdmit, hMem, hGone⟩ := hOwn
      have hFile := mem_putFiles_iff.mpr
        ⟨hMem, fun hKept => ((mem_evicted_iff hValid).mp hKept).2 hGone⟩
      -- run the eviction up to the file of the key itself, and crash there
      have hEnter := DiskStore.next_enter hIdle (.put key value peerID now order)
      have hCall : s.mem.callOf (.put key value peerID now order) =
          .evicting (s.mem.putFiles key value order) key.hex value := if_pos hAdmit
      rw [hCall] at hEnter
      obtain ⟨ops, t, hOps, hNone⟩ := DiskStore.evict_reaches
        (s := { s with
          mem := StoreOp.apply s.mem (.put key value peerID now order)
          calls := s.calls ++ [.evicting (s.mem.putFiles key value order) key.hex value] })
        pool_append_self hFile
      have hAfter : (s.mem.put order key value peerID now).1.data.lookup key.hex = some value :=
        put_lookup_self hAdmit
      have hFound := (hHarmless ops t mtime (.cons ⟨hValid, hEnter⟩ hOps)).kept key.hex hMem
        (Finmap.mem_of_lookup_eq_some hAfter)
      rw [lookup_loadFromDisk, hNone] at hFound
      rcases hFound with hOld | hNew
      · exact Finmap.lookup_eq_none.mp hOld.symm hMem
      · cases hNew.trans hAfter
  · intro hOwn ops t mtime' hOps
    obtain ⟨u, hFirst, hRest⟩ := hOps.cons_inv
    cases (DiskStore.next_enter hIdle op).symm.trans hFirst.2
    have hApart : s.Apart (.enter op) := DiskStore.Sequential.apart hIdle
    obtain ⟨hProgress, hMem, hEnd⟩ :=
      (DiskStore.Progress.enter hInv hIdle hValid hOwn).files (hInv.step hApart hFirst.2) hRest
    have hMem : t.mem = op.apply s.mem := hMem
    have hAfter : t.Fitting := by
      rw [DiskStore.Fitting, hMem]
      exact hFit.apply hFitting
    rw [← hMem]
    exact hProgress.consistent hEnd hInv.keys hFitting hAfter

instance (s : DiskStore) (a : DiskAction) : Decidable (s.Sequential a ∧ a.Fits) :=
  match a with
  | .enter (.put _ value _ _ _) =>
    inferInstanceAs (Decidable (s.idle = true ∧ value.length ≤ maxValueSize))
  | .enter (.get _ _) | .enter (.delete _) => inferInstanceAs (Decidable (s.idle = true ∧ True))
  | .file _ _ => .isTrue ⟨trivial, trivial⟩

/-- The steps of an orderly run, as a check. -/
theorem DiskAction.step_of_decide {s t : DiskStore} {a : DiskAction} (hNext : s.next a = some t)
    (hOk : decide (a.Valid s ∧ s.Sequential a ∧ a.Fits) = true) :
    guarded diskStep (fun s a => s.Sequential a ∧ a.Fits) s a t := by
  obtain ⟨hValid, hOrderly⟩ := of_decide_eq_true hOk
  exact ⟨⟨hValid, hNext⟩, hOrderly⟩

/-- A store in an empty directory, with room for ten bytes. -/
def smallStore : DiskStore := DiskStore.open Dir.empty (fun _ => 0) [] 10 0

/-- Two entries of five bytes. -/
def fullRun : List DiskAction :=
  .enter (.put (fill 1) (replicate 5 0) [] 1 []) :: writeRun 0 5 ++
  .enter (.put (fill 2) (replicate 5 0) [] 2 [(fill 1).hex]) :: writeRun 1 5

/-- The older entry is overwritten by a shorter value, which needs no
eviction. -/
theorem crash_consistent_iff_fullRun :
    ∃ s, Exec (guarded diskStep fun s a => s.Sequential a ∧ a.Fits) smallStore fullRun s ∧
      ∀ (ops : List (Nat × Nat)) (t : DiskStore) (mtime' : GoString → Time),
        Exec diskStep s (.enter (.put (fill 1) [1] [] 3 s.mem.lruOrder) ::
          ops.map fun p => .file p.1 p.2) t →
        Recovered s.mem.data (s.mem.put s.mem.lruOrder (fill 1) [1] [] 3).1.data
          (loadFromDisk t.dir mtime' 10 0).data := by
  refine Exec.exists_of_checked (p := fun s => s.idle = true ∧
      s.mem.total - s.mem.lenAt (fill 1).hex ≤ s.mem.evictTarget 1)
    DiskStore.next (fun s a => decide (a.Valid s ∧ s.Sequential a ∧ a.Fits))
    DiskAction.step_of_decide (by decide +kernel) ?_
  rintro s hRun ⟨hIdle, hRoom⟩
  have hOwn : ¬ StoreOp.EvictsOwn s.mem (.put (fill 1) [1] [] 3 s.mem.lruOrder) := by
    rintro ⟨-, -, -, hGone⟩
    -- the refunded total is within the room already
    have hBefore := s.mem.bytesBefore_nonneg (fill 1).hex s.mem.lruOrder
    change s.mem.evictTarget 1 < _ at hGone
    omega
  have hNoFiles : ∀ name value, hexNamed name = true → Dir.empty.read name = some value →
      value.length ≤ maxValueSize := nofun
  have hValid : StoreOp.Valid s.mem (.put (fill 1) [1] [] 3 s.mem.lruOrder) :=
    s.mem.lruOrder_spec
  have hFit : StoreOp.Fits (.put (fill 1) [1] [] 3 s.mem.lruOrder) := by
    show 1 ≤ maxValueSize
    decide
  exact (crash_consistent_iff hNoFiles hRun hIdle hValid hFit).mpr hOwn

/-- The older entry is overwritten by a value that takes the whole budget, and
the process ends after the first file operation. -/
def bigPut : StoreOp :=
  .put (fill 1) (replicate 10 0) [] 3 [(fill 1).hex, (fill 2).hex]

theorem crash_loses_overwritten :
    ∃ s t, Exec (guarded diskStep fun s a => s.Sequential a ∧ a.Fits) smallStore fullRun s ∧
      s.idle = true ∧ Exec diskStep s [.enter bigPut, .file 2 0] t ∧
      s.mem.data.lookup (fill 1).hex = some (replicate 5 0) ∧
      (bigPut.apply s.mem).data.lookup (fill 1).hex = some (replicate 10 0) ∧
      (loadFromDisk t.dir (fun _ => 0) 10 0).data.lookup (fill 1).hex = none ∧
      ¬ Recovered s.mem.data (bigPut.apply s.mem).data
        (loadFromDisk t.dir (fun _ => 0) 10 0).data := by
  obtain ⟨s, hRun, hIdle, hBefore, hAfter, hCrash⟩ := Exec.exists_of_checked
    (p := fun s : DiskStore => s.idle = true ∧
      s.mem.data.lookup (fill 1).hex = some (replicate 5 0) ∧
      (bigPut.apply s.mem).data.lookup (fill 1).hex = some (replicate 10 0) ∧
      (runFrom (fun s a => if decide (a.Valid s) then s.next a else none) s
        [.enter bigPut, .file 2 0]).any (fun t => decide
          ((loadFromDisk t.dir (fun _ => 0) 10 0).data.lookup (fill 1).hex = none)) = true)
    DiskStore.next (fun s a => decide (a.Valid s ∧ s.Sequential a ∧ a.Fits))
    DiskAction.step_of_decide (by decide +kernel) (fun _ (_ : Exec _ smallStore fullRun _) h => h)
  obtain ⟨t, ht, hFound⟩ := (Option.any_eq_true _ _).mp hCrash
  have hOps : Exec diskStep s [.enter bigPut, .file 2 0] t :=
    .of_checked (fun hNext hOk => ⟨of_decide_eq_true hOk, hNext⟩) ht
  have hFound := of_decide_eq_true hFound
  refine ⟨s, t, hRun, hIdle, hOps, hBefore, hAfter, hFound, fun hConsistent => ?_⟩
  have hKept := hConsistent.kept _ (Finmap.mem_of_lookup_eq_some hBefore)
    (Finmap.mem_of_lookup_eq_some hAfter)
  rw [hFound, hBefore, hAfter] at hKept
  rcases hKept with hEq | hEq <;> cases hEq

end AltNet
