import AltNet.Lib.Pool
import AltNet.Dht.Disk

/-!
# AltNet — the directory mirrors the store

When no call is in flight, the files named by keys are to be the entries of the
store. They are as long as the calls keep apart: none of them writes, evicts or
deletes an entry while another one still has a file to write or to remove for
it. Otherwise the files of two calls may be written in another order than the
entries were, and the directory keeps what memory has replaced or deleted.

While a call is in flight, memory is ahead of the directory exactly at the
names that the call still has to work on; `Due` says what is missing there.

Main results:

* `DiskStore.Inv.step` — one step of calls that keep apart;
* `disk_mirrors_memory` — whenever no call is in flight, the directory mirrors
  the store;
* `two_puts_diverge` — two writes of one key that do not keep apart.
-/

namespace AltNet

open List LocalStore Dir

open NodeID (fill)

/-- The names that a call still has files to write or to remove for. -/
def DiskCall.names : DiskCall → List GoString
  | .evicting todo hex _ => hex :: todo
  | .opening hex _ => [hex]
  | .writing hex _ _ _ => [hex]
  | .removing hex => [hex]
  | .done => []

namespace DiskStore

/-- The files named by keys are the entries. -/
structure Mirrors (s : DiskStore) : Prop where
  keys : ∀ name ∈ s.mem.data, hexNamed name = true
  files : ∀ name, hexNamed name = true → s.dir.read name = s.mem.data.lookup name

/-- A call takes the lock only when no other call has still files to write or
to remove for an entry that it will write, evict or delete. -/
def Apart (s : DiskStore) : DiskAction → Prop
  | .enter op => ∀ call ∈ s.calls, call.names.Disjoint (s.mem.callOf op).names
  | .file _ _ => True

end DiskStore

/-! ## What is due -/

/-- What a call has still to bring to the directory, and what it has prepared. -/
def Due (data : GoMap GoString Bytes) (D : Dir) : DiskCall → Prop
  | .evicting todo hex value =>
    data.lookup hex = some value ∧ ∀ x ∈ todo, x ≠ hex → data.lookup x = none
  | .opening hex value => data.lookup hex = some value
  | .writing hex value file off =>
    data.lookup hex = some value ∧ D.names.lookup (tmpName hex) = some file ∧
      D.read (tmpName hex) = some (value.take off)
  | .removing hex => data.lookup hex = none
  | .done => True

variable {data data' : GoMap GoString Bytes} {D D' : Dir} {call call' : DiskCall}

/-- It depends on the names of the call and on its temporary file only. -/
theorem Due.congr (h : Due data D call) (hData : ∀ x ∈ call.names, data'.lookup x = data.lookup x)
    (hDir : ∀ x ∈ call.names, Dir.Keeps D D' (tmpName x)) : Due data' D' call := by
  cases call with
  | evicting todo hex value =>
    refine ⟨(hData hex mem_cons_self).trans h.1, fun x hx hNe => ?_⟩
    exact (hData x (mem_cons_of_mem hex hx)).trans (h.2 x hx hNe)
  | opening hex value => exact (hData hex mem_cons_self).trans h
  | writing hex value file off =>
    have hKeeps := hDir hex mem_cons_self
    exact ⟨(hData hex mem_cons_self).trans h.1, hKeeps.file.trans h.2.1,
      hKeeps.read.trans h.2.2⟩
  | removing hex => exact (hData hex mem_cons_self).trans h
  | done => exact h

/-- What memory does is due in the directory. -/
theorem due_callOf (s : LocalStore) (op : StoreOp) (D : Dir) :
    Due (op.apply s).data D (s.callOf op) := by
  cases op with
  | get key now => trivial
  | delete key =>
    rw [callOf]
    split
    case isTrue => exact dropEntry_lookup_self
    case isFalse => trivial
  | put key value peerID now order =>
    rw [callOf]
    split
    case isFalse => trivial
    case isTrue hAdmit =>
      refine ⟨put_lookup_self hAdmit, fun x hx hNe => ?_⟩
      exact (put_lookup hAdmit hNe).trans (if_pos hx)

/-- Memory changes at the names of the call only. -/
theorem apply_lookup {s : LocalStore} {op : StoreOp} {x : GoString}
    (h : x ∉ (s.callOf op).names) : (op.apply s).data.lookup x = s.data.lookup x := by
  cases op with
  | get key now =>
    show (s.get key now).1.data.lookup x = _
    rw [get_data]
  | delete key =>
    show (s.dropEntry key.hex).data.lookup x = _
    rw [callOf] at h
    split at h
    case isTrue => exact dropEntry_lookup_ne fun hEq => h (hEq ▸ mem_cons_self)
    case isFalse hMem => rw [dropEntry_of_none (Finmap.lookup_eq_none.mpr hMem)]
  | put key value peerID now order =>
    show (s.put order key value peerID now).1.data.lookup x = _
    rw [callOf] at h
    split at h
    case isTrue hAdmit =>
      have hNe : x ≠ key.hex := fun hEq => h (hEq ▸ mem_cons_self)
      have hFiles : x ∉ s.putFiles key value order := fun hx => h (mem_cons_of_mem _ hx)
      exact (put_lookup hAdmit hNe).trans (if_neg hFiles)
    case isFalse hAdmit => rw [put_false (Bool.not_eq_true _ ▸ hAdmit)]

/-- A call works on names that are keys. -/
theorem hexNamed_callOf {s : LocalStore} (hKeys : ∀ name ∈ s.data, hexNamed name = true)
    (op : StoreOp) : ∀ x ∈ (s.callOf op).names, hexNamed x = true := by
  intro x hx
  cases op with
  | get key now => cases hx
  | delete key =>
    rw [callOf] at hx
    split at hx
    case isTrue => exact mem_singleton.mp hx ▸ hexNamed_hex key
    case isFalse => cases hx
  | put key value peerID now order =>
    rw [callOf] at hx
    split at hx
    case isTrue =>
      rcases mem_cons.mp hx with rfl | hFile
      · exact hexNamed_hex key
      · exact hKeys x (mem_putFiles hFile)
    case isFalse => cases hx

/-! ## The invariant -/

namespace DiskStore

/-- Calls that keep apart. The directory is behind memory where a call is still
at work, and nowhere else. -/
structure Inv (s : DiskStore) : Prop where
  keys : ∀ name ∈ s.mem.data, hexNamed name = true
  named : ∀ (i : Nat) call, s.calls[i]? = some call → ∀ x ∈ call.names, hexNamed x = true
  apart : ∀ (i j : Nat) a b, s.calls[i]? = some a → s.calls[j]? = some b → i ≠ j →
    a.names.Disjoint b.names
  settled : ∀ x, hexNamed x = true → (∀ call ∈ s.calls, x ∉ call.names) →
    s.dir.read x = s.mem.data.lookup x
  due : ∀ (i : Nat) call, s.calls[i]? = some call → Due s.mem.data s.dir call

variable {s t : DiskStore}

theorem Inv.mirrors (h : s.Inv) (hIdle : s.idle = true) : s.Mirrors := by
  refine ⟨h.keys, fun name hName => h.settled name hName fun call hCall hMem => ?_⟩
  have hDone := of_decide_eq_true (all_eq_true.mp hIdle call hCall)
  rw [hDone] at hMem
  cases hMem

/-- A call takes the lock. -/
theorem Inv.enter (h : s.Inv) {op : StoreOp} (hApart : s.Apart (.enter op)) :
    Inv { s with mem := op.apply s.mem, calls := s.calls ++ [s.mem.callOf op] } where
  keys := by
    intro name hMem
    by_cases hName : name ∈ (s.mem.callOf op).names
    · exact hexNamed_callOf h.keys op name hName
    apply h.keys
    rw [← Finmap.lookup_isSome] at hMem ⊢
    rw [← apply_lookup hName]
    exact hMem
  named := forall_pool_append h.named (hexNamed_callOf h.keys op)
  apart := by
    intro i j a b ha hb hNe
    rcases pool_append_cases ha with ⟨rfl, rfl⟩ | ⟨-, ha⟩
    · rcases pool_append_cases hb with ⟨rfl, -⟩ | ⟨-, hb⟩
      · exact absurd rfl hNe
      · exact (hApart b (mem_of_getElem? hb)).symm
    · rcases pool_append_cases hb with ⟨rfl, rfl⟩ | ⟨-, hb⟩
      · exact hApart a (mem_of_getElem? ha)
      · exact h.apart i j a b ha hb hNe
  settled := by
    intro x hx hFree
    have hNew : x ∉ (s.mem.callOf op).names :=
      hFree _ (mem_append_right _ mem_cons_self)
    rw [apply_lookup hNew]
    exact h.settled x hx fun call hCall => hFree call (mem_append_left _ hCall)
  due := by
    refine forall_pool_append (fun i call hCall => ?_) (due_callOf s.mem op s.dir)
    refine (h.due i call hCall).congr (fun x hx => ?_) fun x _ => ⟨rfl, rfl⟩
    exact apply_lookup (hApart call (mem_of_getElem? hCall) hx)

/-- What a file operation of a call has to show. -/
theorem Inv.file (h : s.Inv) {c : Nat} (hCall : s.calls[c]? = some call)
    (hNames : ∀ x ∈ call'.names, x ∈ call.names)
    (hKeeps : ∀ x, x ∉ call.names → x ∉ call.names.map tmpName → Dir.Keeps s.dir D' x)
    (hDue : Due s.mem.data D' call')
    (hDone : ∀ x ∈ call.names, x ∉ call'.names → D'.read x = s.mem.data.lookup x) :
    Inv { s with dir := D', calls := s.calls.set c call' } where
  keys := h.keys
  named := forall_pool_set h.named fun x hx => h.named c call hCall x (hNames x hx)
  apart := by
    intro i j a b ha hb hNe
    rcases pool_set_cases ha with ⟨rfl, rfl⟩ | ⟨-, hOld⟩
    · rcases pool_set_cases hb with ⟨rfl, -⟩ | ⟨-, hOld⟩
      · exact absurd rfl hNe
      · exact fun x hx => h.apart i j call b hCall hOld hNe (hNames x hx)
    · rcases pool_set_cases hb with ⟨rfl, rfl⟩ | ⟨-, hOld'⟩
      · exact fun x hx hx' => h.apart i j a call hOld hCall hNe hx (hNames x hx')
      · exact h.apart i j a b hOld hOld' hNe
  settled := by
    intro x hx hFree
    have hNew : x ∉ call'.names := hFree call' (mem_of_getElem? (pool_set_self hCall))
    by_cases hOld : x ∈ call.names
    · exact hDone x hOld hNew
    have hTmp : x ∉ call.names.map tmpName := by
      intro hMem
      obtain ⟨y, -, hEq⟩ := mem_map.mp hMem
      exact ne_tmpName hx y hEq.symm
    rw [(hKeeps x hOld hTmp).read]
    refine h.settled x hx fun other hOther hMem => ?_
    obtain ⟨j, hj⟩ := mem_iff_getElem?.mp hOther
    by_cases hIndex : j = c
    · subst hIndex
      cases hj.symm.trans hCall
      exact hOld hMem
    · exact hFree other (mem_of_getElem? (pool_set_other hIndex hj)) hMem
  due := by
    intro j other hOther
    rcases pool_set_cases hOther with ⟨rfl, rfl⟩ | ⟨hIndex, hOther⟩
    · exact hDue
    -- the temporary files of the others are different ones
    refine (h.due j other hOther).congr (fun _ _ => rfl) fun x hx => hKeeps _ ?_ ?_
    · intro hMem
      exact ne_tmpName (h.named c call hCall _ hMem) x rfl
    · intro hMem
      obtain ⟨y, hy, hEq⟩ := mem_map.mp hMem
      obtain rfl := tmpName_injective hEq
      exact h.apart j c other call hOther hCall hIndex hx hy

/-- **A file operation.** -/
theorem Inv.work (h : s.Inv) {c : Nat} (hCall : s.calls[c]? = some call)
    (hWorks : call.Works s.dir D' call') :
    Inv { s with dir := D', calls := s.calls.set c call' } := by
  have hDue := h.due c call hCall
  cases hWorks with
  | @evict name todo hex value =>
    refine h.file hCall ?_ ?_ ⟨hDue.1, fun x hx => hDue.2 x (mem_cons_of_mem _ hx)⟩ ?_
    · intro x hx
      rcases mem_cons.mp hx with rfl | hx
      · exact mem_cons_self
      · exact mem_cons_of_mem _ (mem_cons_of_mem _ hx)
    · intro x hx _
      refine keeps_remove ?_
      rintro rfl
      exact hx (mem_cons_of_mem _ mem_cons_self)
    · -- the file that goes is that of an entry that is gone
      intro x hx hNew
      have hNe : x ≠ hex := fun hEq => hNew (hEq ▸ mem_cons_self)
      rcases mem_cons.mp hx with hEq | hx
      · exact absurd hEq hNe
      · rcases mem_cons.mp hx with rfl | hx
        · exact read_remove.trans (hDue.2 x mem_cons_self hNe).symm
        · exact absurd (mem_cons_of_mem _ hx) hNew
  | unlock =>
    exact h.file hCall (fun _ => id) (fun _ _ _ => ⟨rfl, rfl⟩) hDue.1
      fun x hx hNew => absurd hx hNew
  | @create hex value =>
    obtain ⟨hFile, hEmpty⟩ := s.dir.openTrunc_spec (tmpName hex)
    refine h.file hCall (fun _ => id) ?_ ⟨hDue, hFile, hEmpty⟩ fun x hx hNew => absurd hx hNew
    intro x _ hTmp
    exact keeps_openTrunc fun hEq => hTmp (hEq ▸ mem_cons_self)
  | write hLess =>
    obtain ⟨hData, hFile, hRead⟩ := hDue
    refine h.file hCall (fun _ => id) ?_ ⟨hData, hFile, ?_⟩ fun x hx hNew => absurd hx hNew
    · intro x _ hTmp
      exact keeps_writeAt hFile fun hEq => hTmp (hEq ▸ mem_cons_self)
    · rw [writeAt_spec hFile hRead, overwrite_take (Nat.le_of_lt hLess),
        take_eq_take_min]
  | rename hFull hRename =>
    obtain ⟨hData, -, hRead⟩ := hDue
    refine h.file hCall (fun _ hx => by cases hx) ?_ trivial ?_
    · intro x hx hTmp
      exact keeps_rename hRename (fun hEq => hTmp (hEq ▸ mem_cons_self))
        fun hEq => hx (hEq ▸ mem_cons_self)
    · -- the file is complete when it gets its name
      intro x hx _
      obtain rfl := mem_singleton.mp hx
      rw [rename_spec hRename, hRead, hData, take_of_length_le hFull]
  | remove =>
    refine h.file hCall (fun _ hx => by cases hx) ?_ trivial ?_
    · intro x hx _
      exact keeps_remove fun hEq => hx (hEq ▸ mem_cons_self)
    · intro x hx _
      obtain rfl := mem_singleton.mp hx
      exact read_remove.trans hDue.symm

/-- **One step** of calls that keep apart. -/
theorem Inv.step (h : s.Inv) {a : DiskAction} (hApart : s.Apart a) (hStep : s.next a = some t) :
    t.Inv := by
  rcases next_cases hStep with ⟨op, rfl, rfl⟩ | ⟨c, n, call, dir, call', rfl, hCall, hWorks, rfl⟩
  · exact h.enter hApart
  · exact h.work hCall hWorks

/-! ## Opening -/

theorem read_foldl_remove {names : List GoString} {x : GoString} :
    (names.foldl remove D).read x = if x ∈ names then none else D.read x := by
  induction names generalizing D with
  | nil => rfl
  | cons name rest ih =>
    rw [foldl_cons, ih]
    by_cases hx : x = name
    · have hMem : x ∈ name :: rest := hx ▸ mem_cons_self
      rw [if_pos hMem, hx, read_remove, ite_self]
    · rw [(keeps_remove hx).read]
      simp only [mem_cons, hx, false_or]

theorem loadable_iff {name : GoString} {value : Bytes} :
    loadable name value = true ↔ hexNamed name = true ∧ value.length ≤ maxValueSize := by
  unfold loadable
  rw [Bool.and_eq_true, Bool.and_eq_true, decide_eq_true_eq, Bool.not_eq_true']
  refine ⟨fun h => ⟨h.1.2, h.2⟩, fun h => ⟨⟨?_, h.1⟩, h.2⟩⟩
  rw [← Bool.not_eq_true, isSuffixOf_iff_suffix]
  rintro ⟨hex, rfl⟩
  exact ne_tmpName h.1 hex rfl

/-- A store that is opened on a directory without files that are too large. -/
theorem Inv.open {mtime : GoString → Time} {order : List GoString} {maxBytes perPeerMax : Int}
    (hSizes : ∀ name value, hexNamed name = true → D.read name = some value →
      value.length ≤ maxValueSize) :
    (DiskStore.open D mtime order maxBytes perPeerMax).Inv where
  keys := by
    intro name hMem
    obtain ⟨value, hLookup⟩ := Finmap.mem_iff.mp hMem
    have hFound := evictUntilUnder_lookup_files.symm.trans hLookup
    split at hFound
    case isTrue => cases hFound
    case isFalse =>
      rw [lookup_loadFromDisk] at hFound
      exact (loadable_iff.mp (Option.filter_eq_some_iff.mp hFound).2).1
  named := nofun
  apart := nofun
  settled := by
    intro x hx _
    show (List.foldl remove D _).read x = _
    rw [read_foldl_remove]
    refine Eq.trans ?_ evictUntilUnder_lookup_files.symm
    rw [lookup_loadFromDisk]
    refine if_congr Iff.rfl rfl ?_
    cases hRead : D.read x with
    | none => rfl
    | some value =>
      rw [Option.filter_some, if_pos (loadable_iff.mpr ⟨hx, hSizes x value hx hRead⟩)]
  due := nofun

end DiskStore

/-! ## The directory mirrors the store -/

/-- **The directory mirrors the store** whenever no call is in flight, in every
run of any number of concurrent calls that keep apart. -/
theorem disk_mirrors_memory {mtime : GoString → Time} {order : List GoString}
    {maxBytes perPeerMax : Int} {as : List DiskAction} {x : DiskStore}
    (hSizes : ∀ name value, hexNamed name = true → D.read name = some value →
      value.length ≤ maxValueSize)
    (hRun : Exec (guarded diskStep DiskStore.Apart)
      (DiskStore.open D mtime order maxBytes perPeerMax) as x)
    (hIdle : x.idle = true) : x.Mirrors := by
  have hInv : x.Inv :=
    hRun.invariant (DiskStore.Inv.open hSizes) fun hInv hStep => hInv.step hStep.2 hStep.1.2
  exact hInv.mirrors hIdle

instance (s : DiskStore) (a : DiskAction) : Decidable (s.Apart a) :=
  match a with
  | .enter op => inferInstanceAs
    (Decidable (∀ call ∈ s.calls, ∀ x ∈ call.names, x ∉ (s.mem.callOf op).names))
  | .file _ _ => .isTrue trivial

/-- A store in an empty directory, without a budget. -/
def emptyStore : DiskStore := DiskStore.open Dir.empty (fun _ => 0) [] 0 0

/-- The file operations of a write of `n` bytes that evicts nothing. -/
def writeRun (c n : Nat) : List DiskAction := [.file c 0, .file c 0, .file c n, .file c 0]

/-- Two writes of different keys at the same time; the first key is deleted
while the second file is still open. -/
def apartRun : List DiskAction :=
  [.enter (.put (fill 1) [1] [] 1 []), .file 0 0,
    .enter (.put (fill 2) [2] [] 2 [(fill 1).hex]), .file 1 0, .file 1 0] ++
  (writeRun 0 1).drop 1 ++ [.enter (.delete (fill 1))] ++ (writeRun 1 1).drop 2 ++
  [.file 2 0]

theorem disk_mirrors_memory_apartRun :
    ∃ x, Exec (guarded diskStep DiskStore.Apart) emptyStore apartRun x ∧
      x.mem.data.lookup (fill 2).hex = some [2] ∧ x.Mirrors := by
  refine Exec.exists_of_checked
    (p := fun x => x.idle = true ∧ x.mem.data.lookup (fill 2).hex = some [2])
    DiskStore.next (fun s a => decide (a.Valid s ∧ s.Apart a))
    (fun hNext hOk => ⟨⟨(of_decide_eq_true hOk).1, hNext⟩, (of_decide_eq_true hOk).2⟩)
    (by decide +kernel) ?_
  rintro x hRun ⟨hIdle, hData⟩
  have hNoFiles : ∀ name value, hexNamed name = true → empty.read name = some value →
      value.length ≤ maxValueSize := nofun
  exact ⟨hData, disk_mirrors_memory hNoFiles hRun hIdle⟩

/-- Two writes of one key; the first one gets to its file only after the second
one is through. -/
def twoPutsRun : List DiskAction :=
  [.enter (.put (fill 1) [1] [] 1 []), .file 0 0,
    .enter (.put (fill 1) [2] [] 2 [(fill 1).hex])] ++
  writeRun 1 1 ++ (writeRun 0 1).drop 1

theorem two_puts_diverge :
    ∃ x, Exec diskStep emptyStore twoPutsRun x ∧ x.idle = true ∧
      x.mem.data.lookup (fill 1).hex = some [2] ∧
      x.dir.read (fill 1).hex = some [1] ∧ ¬ x.Mirrors := by
  refine Exec.exists_of_checked (p := fun x => x.idle = true ∧
      x.mem.data.lookup (fill 1).hex = some [2] ∧
      x.dir.read (fill 1).hex = some [1])
    DiskStore.next (fun s a => decide (a.Valid s))
    (fun hNext hOk => ⟨of_decide_eq_true hOk, hNext⟩)
    (by decide +kernel) ?_
  rintro x - ⟨hIdle, hData, hFile⟩
  refine ⟨hIdle, hData, hFile, fun hMirrors => ?_⟩
  have hEq := hMirrors.files (fill 1).hex (hexNamed_hex _)
  rw [hData, hFile] at hEq
  cases hEq

end AltNet
