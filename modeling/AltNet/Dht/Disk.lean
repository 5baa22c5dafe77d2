import AltNet.Lib.Dir
import AltNet.Dht.Node

/-!
# AltNet — the store on disk (`core/dht/store.go`)

A store with a directory mirrors its entries in files named by the keys. `put`
writes its file after it has released the lock, through a temporary file that
is renamed; `Delete` removes its file after it has released the lock; and
`evictUntilUnder` removes the files of the entries it evicts while it holds
the lock. What memory does is `Dht/Store.lean`; here it happens at once, when a
call takes the lock, and the file operations follow one by one, in any
interleaving with those of other calls.

A write reaches the file in pieces of any size. `os.Remove` of a file that does
not exist does nothing; its error is not looked at.

Main results:

* `LocalStore.mem_putFiles`, `LocalStore.put_lookup` — the files that a write
  removes are those of the entries it evicts;
* `DiskStore.next_cases` — what a step can do;
* `lookup_loadFromDisk` — what a restart finds.
-/

namespace AltNet

open Finmap

/-! ## The files of an eviction -/

namespace LocalStore

/-- The files that the loop of `evictUntilUnder` removes, in this order. -/
def evictLoopFiles (cap : Int) : List GoString → LocalStore → List GoString
  | [], _ => []
  | hex :: rest, s =>
    if s.total ≤ cap then []
    else if hex ∈ s.data then hex :: evictLoopFiles cap rest (s.dropEntry hex)
    else evictLoopFiles cap rest s

def evictUntilUnderFiles (order : List GoString) (cap : Int) (s : LocalStore) : List GoString :=
  if cap ≤ 0 ∧ s.maxBytes ≤ 0 then []
  else if s.total ≤ cap then []
  else evictLoopFiles cap order s

def evictToFitFiles (order : List GoString) (needed : Int) (s : LocalStore) : List GoString :=
  if s.maxBytes ≤ 0 then [] else evictUntilUnderFiles order (s.evictTarget needed) s

/-- The files that an accepted `put` removes. -/
def putFiles (s : LocalStore) (key : NodeID) (value : Bytes) (order : List GoString) :
    List GoString :=
  evictToFitFiles order value.length (s.refundOverwritten key.hex)

end LocalStore

/-! ## The calls -/

/-- The name of the file that `writeAtomic` writes and then renames. -/
def tmpName (hex : GoString) : GoString := hex ++ ".tmp".toList

/-- Where a call stands. -/
inductive DiskCall where
  /-- `put` in its critical section, about to remove the files of the entries
  that it has evicted -/
  | evicting (todo : List GoString) (hex : GoString) (value : Bytes)
  /-- `writeAtomic`: about to open the temporary file -/
  | opening (hex : GoString) (value : Bytes)
  /-- about to write to it at an offset, or to rename it -/
  | writing (hex : GoString) (value : Bytes) (file off : Nat)
  /-- `Delete`: about to remove the file -/
  | removing (hex : GoString)
  | done
  deriving DecidableEq

def DiskCall.holdsLock : DiskCall → Bool
  | .evicting _ _ _ => true
  | _ => false

/-- A store with its directory and the calls on it. -/
structure DiskStore where
  mem : LocalStore
  dir : Dir
  calls : List DiskCall

inductive DiskAction where
  /-- a call takes the lock -/
  | enter (op : StoreOp)
  /-- call `c` goes on; a write takes `n` bytes to the file -/
  | file (c n : Nat)
  deriving DecidableEq

/-- What a call is left with after its critical section. A refused `put` and a
`Delete` of nothing return at once. -/
def LocalStore.callOf (s : LocalStore) : StoreOp → DiskCall
  | .put key value peerID _ order =>
    if s.admits key.hex value.length peerID then
      .evicting (s.putFiles key value order) key.hex value
    else .done
  | .get _ _ => .done
  | .delete key => if key.hex ∈ s.data then .removing key.hex else .done

namespace DiskStore

variable (s : DiskStore)

/-- Whether a call holds the lock. -/
def locked : Bool := s.calls.any (·.holdsLock)

/-- No call is in flight. -/
def idle : Bool := s.calls.all (· = .done)

/-- Call `c` takes its next step; `none` when it cannot. -/
def work (c n : Nat) : DiskCall → Option DiskStore
  | .evicting (name :: todo) hex value =>
    some { s with
      dir := s.dir.remove name
      calls := s.calls.set c (.evicting todo hex value) }
  -- here the lock is released
  | .evicting [] hex value => some { s with calls := s.calls.set c (.opening hex value) }
  | .opening hex value =>
    some { s with
      dir := (s.dir.openTrunc (tmpName hex)).1
      calls := s.calls.set c (.writing hex value (s.dir.openTrunc (tmpName hex)).2 0) }
  | .writing hex value file off =>
    if off < value.length then
      if n = 0 then none
      else some { s with
        dir := s.dir.writeAt file off ((value.drop off).take n)
        calls := s.calls.set c (.writing hex value file (min (off + n) value.length)) }
    else
      match s.dir.rename (tmpName hex) hex with
      | none => none
      | some dir => some { s with dir, calls := s.calls.set c .done }
  | .removing hex => some { s with dir := s.dir.remove hex, calls := s.calls.set c .done }
  | .done => none

/-- The next state. -/
def next : DiskAction → Option DiskStore
  | .enter op =>
    if s.locked then none
    else some { s with mem := op.apply s.mem, calls := s.calls ++ [s.mem.callOf op] }
  | .file c n =>
    match s.calls[c]? with
    | none => none
    | some call => s.work c n call

end DiskStore

/-- The order a write brings is one the code can produce. -/
def DiskAction.Valid (s : DiskStore) : DiskAction → Prop
  | .enter op => op.Valid s.mem
  | .file _ _ => True

instance (s : DiskStore) (a : DiskAction) : Decidable (a.Valid s) :=
  match a with
  | .enter op => inferInstanceAs (Decidable (op.Valid s.mem))
  | .file _ _ => .isTrue trivial

/-- One step of a store on disk. -/
def diskStep (s : DiskStore) (a : DiskAction) (t : DiskStore) : Prop :=
  a.Valid s ∧ s.next a = some t

/-! ## What a step can do -/

/-- All that a step of a call can do to the directory, and where it leaves the
call. -/
inductive DiskCall.Works (D : Dir) : DiskCall → Dir → DiskCall → Prop
  | evict {name todo hex value} :
      Works D (.evicting (name :: todo) hex value) (D.remove name) (.evicting todo hex value)
  | unlock {hex value} : Works D (.evicting [] hex value) D (.opening hex value)
  | create {hex value} : Works D (.opening hex value) (D.openTrunc (tmpName hex)).1
      (.writing hex value (D.openTrunc (tmpName hex)).2 0)
  | write {hex value file off n} : off < value.length → n ≠ 0 →
      Works D (.writing hex value file off) (D.writeAt file off ((value.drop off).take n))
        (.writing hex value file (min (off + n) value.length))
  | rename {hex value file off D'} : value.length ≤ off →
      D.rename (tmpName hex) hex = some D' → Works D (.writing hex value file off) D' .done
  | remove {hex} : Works D (.removing hex) (D.remove hex) .done

namespace DiskStore

variable {s t : DiskStore}

theorem work_works {c n : Nat} {call : DiskCall} (hStep : s.work c n call = some t) :
    ∃ dir call', call.Works s.dir dir call' ∧
      t = { s with dir, calls := s.calls.set c call' } := by
  unfold work at hStep
  split at hStep
  case h_1 =>
    cases hStep
    exact ⟨_, _, .evict, rfl⟩
  case h_2 =>
    cases hStep
    exact ⟨_, _, .unlock, rfl⟩
  case h_3 =>
    cases hStep
    exact ⟨_, _, .create, rfl⟩
  case h_4 =>
    split at hStep
    case isTrue hLess =>
      obtain ⟨hSome, ⟨⟩⟩ := Option.ite_none_left_eq_some.mp hStep
      exact ⟨_, _, .write hLess hSome, rfl⟩
    case isFalse hFull =>
      split at hStep
      case h_1 => cases hStep
      case h_2 dir hRename =>
        cases hStep
        exact ⟨_, _, .rename (Nat.le_of_not_lt hFull) hRename, rfl⟩
  case h_5 =>
    cases hStep
    exact ⟨_, _, .remove, rfl⟩
  case h_6 => cases hStep

/-- A step is the part of an operation under the lock, or a file operation. -/
theorem next_cases {a : DiskAction} (hStep : s.next a = some t) :
    (∃ op, a = .enter op ∧
      t = { s with mem := op.apply s.mem, calls := s.calls ++ [s.mem.callOf op] }) ∨
    ∃ c n call dir call', a = .file c n ∧ s.calls[c]? = some call ∧
      call.Works s.dir dir call' ∧ t = { s with dir, calls := s.calls.set c call' } := by
  unfold next at hStep
  split at hStep
  case h_1 op =>
    obtain ⟨-, ⟨⟩⟩ := Option.ite_none_left_eq_some.mp hStep
    exact .inl ⟨op, rfl, rfl⟩
  case h_2 c n =>
    split at hStep
    case h_1 => cases hStep
    case h_2 call hCall =>
      obtain ⟨dir, call', hWorks, rfl⟩ := work_works hStep
      exact .inr ⟨c, n, call, dir, call', rfl, hCall, hWorks, rfl⟩

end DiskStore

/-! ## Opening a store -/

/-- Whether a name is the text of a key. -/
def hexNamed (name : GoString) : Bool := (idFromHex name).isSome

/-- The checks of `loadFromDisk`. -/
def loadable (name : GoString) (data : Bytes) : Bool :=
  !(".tmp".toList.isSuffixOf name) && hexNamed name && decide (data.length ≤ maxValueSize)

/-- One file in the loop of `loadFromDisk`; the time is that of its last
modification. -/
def loadEntry (dir : Dir) (mtime : GoString → Time) (s : LocalStore) (name : GoString) :
    LocalStore :=
  match dir.read name with
  | none => s
  | some data =>
    if loadable name data then
      { s with
        data := s.data.insert name data
        total := s.total + data.length
        access := s.access.insert name (mtime name) }
    else s

/-- `loadFromDisk`, into an empty store. `os.ReadDir` sorts by name. -/
def loadFromDisk (dir : Dir) (mtime : GoString → Time) (maxBytes perPeerMax : Int) : LocalStore :=
  (sortedStrings dir.names.keys).foldl (loadEntry dir mtime) (LocalStore.new maxBytes perPeerMax)

/-- `newLocalStoreWithLimit` on a directory, and `SetPerPeerMax`. When there is
more than the budget allows, the oldest files go. -/
def DiskStore.open (dir : Dir) (mtime : GoString → Time) (order : List GoString)
    (maxBytes perPeerMax : Int) : DiskStore :=
  let s := loadFromDisk dir mtime maxBytes perPeerMax
  { mem := s.evictUntilUnder order maxBytes
    dir := (s.evictUntilUnderFiles order maxBytes).foldl Dir.remove dir
    calls := [] }

/-! ## What an eviction removes -/

namespace LocalStore

variable {s : LocalStore} {x : GoString} {order : List GoString} {cap : Int} {peerID : GoString}

theorem mem_evictLoopFiles (h : x ∈ evictLoopFiles cap order s) : x ∈ s.data := by
  induction order generalizing s with
  | nil => cases h
  | cons hex rest ih =>
    rw [evictLoopFiles] at h
    split at h
    case isTrue => cases h
    case isFalse =>
      split at h
      case isTrue hMem =>
        rcases List.mem_cons.mp h with rfl | hRest
        · exact hMem
        · have hOld := ih hRest
          rw [dropEntry_data, mem_erase] at hOld
          exact hOld.2
      case isFalse => exact ih h

/-- The loop removes the entries whose files it removes, and no others. -/
theorem evictLoop_lookup_files :
    (evictLoop cap order s).data.lookup x =
      if x ∈ evictLoopFiles cap order s then none else s.data.lookup x := by
  induction order generalizing s with
  | nil => rfl
  | cons hex rest ih =>
    rw [evictLoop, evictLoopFiles]
    split
    case isTrue => rfl
    case isFalse =>
      split
      case isTrue =>
        rw [ih]
        by_cases hx : x = hex
        · rw [hx, if_pos List.mem_cons_self, dropEntry_lookup_self, ite_self]
        · rw [dropEntry_lookup_ne hx]
          simp only [List.mem_cons, hx, false_or]
      case isFalse hMem => rw [dropEntry_of_none (lookup_eq_none.mpr hMem), ih]

theorem mem_evictUntilUnderFiles (h : x ∈ s.evictUntilUnderFiles order cap) : x ∈ s.data := by
  unfold evictUntilUnderFiles at h
  split at h
  · cases h
  · split at h
    · cases h
    · exact mem_evictLoopFiles h

theorem evictUntilUnder_lookup_files :
    (s.evictUntilUnder order cap).data.lookup x =
      if x ∈ s.evictUntilUnderFiles order cap then none else s.data.lookup x := by
  unfold evictUntilUnder evictUntilUnderFiles
  split
  · rfl
  · split
    · rfl
    · exact evictLoop_lookup_files

theorem evictToFit_lookup_files {needed : Int} :
    (s.evictToFit order needed).data.lookup x =
      if x ∈ s.evictToFitFiles order needed then none else s.data.lookup x := by
  unfold evictToFit evictToFitFiles
  split
  · rfl
  · exact evictUntilUnder_lookup_files

variable {key : NodeID} {value : Bytes}

theorem mem_putFiles (h : x ∈ s.putFiles key value order) : x ∈ s.data := by
  unfold putFiles evictToFitFiles at h
  split at h
  · cases h
  · exact refundOverwritten_data (s := s) ▸ mem_evictUntilUnderFiles h

theorem evicted_lookup :
    (s.evicted key value order).data.lookup x =
      if x ∈ s.putFiles key value order then none else s.data.lookup x := by
  rw [evicted, evictToFit_lookup_files, refundOverwritten_data]
  rfl

theorem put_lookup {now : Time} (hAdmit : s.admits key.hex value.length peerID = true)
    (hNe : x ≠ key.hex) :
    (s.put order key value peerID now).1.data.lookup x =
      if x ∈ s.putFiles key value order then none else s.data.lookup x := by
  rw [put_true hAdmit, install_data, lookup_insert_of_ne _ hNe, evicted_lookup]

theorem put_lookup_self {now : Time} (hAdmit : s.admits key.hex value.length peerID = true) :
    (s.put order key value peerID now).1.data.lookup key.hex = some value := by
  rw [put_true hAdmit, install_data, lookup_insert]

end LocalStore

/-! ## Names -/

theorem hexNamed_hex (key : NodeID) : hexNamed key.hex = true := by
  rw [hexNamed, idFromHex_hex]
  rfl

/-- A temporary file is not named by a key. -/
theorem hexNamed_tmpName (hex : GoString) : hexNamed (tmpName hex) = false := by
  rw [← Bool.not_eq_true]
  intro hNamed
  obtain ⟨id, hID⟩ := Option.isSome_iff_exists.mp hNamed
  have hDot : '.' ∈ tmpName hex := List.mem_append_right _ List.mem_cons_self
  cases hexDecode_digits (idFromHex_hexDecode hID) '.' hDot

variable {dir : Dir} {mtime : GoString → Time} {name : GoString} {s : LocalStore}

theorem ne_tmpName (h : hexNamed name = true) (hex : GoString) : name ≠ tmpName hex := by
  rintro rfl
  rw [hexNamed_tmpName] at h
  cases h

theorem tmpName_injective : Function.Injective tmpName := fun _ _ h => List.append_cancel_right h

/-! ## What a restart finds -/

theorem loadEntry_lookup {x : GoString} :
    (loadEntry dir mtime s name).data.lookup x =
      if x = name then ((dir.read x).filter (loadable x)).or (s.data.lookup x)
      else s.data.lookup x := by
  unfold loadEntry
  split
  case h_1 hRead =>
    split
    case isTrue hx => rw [hx, hRead]; rfl
    case isFalse => rfl
  case h_2 data hRead =>
    split
    case isTrue hLoad =>
      split
      case isTrue hx =>
        rw [hx, hRead, Option.filter_some, if_pos hLoad]
        exact lookup_insert _
      case isFalse hx => exact lookup_insert_of_ne _ hx
    case isFalse hLoad =>
      split
      case isTrue hx => rw [hx, hRead, Option.filter_some, if_neg hLoad]; rfl
      case isFalse => rfl

theorem foldl_loadEntry_lookup {names : List GoString} {x : GoString} :
    (names.foldl (loadEntry dir mtime) s).data.lookup x =
      if x ∈ names then ((dir.read x).filter (loadable x)).or (s.data.lookup x)
      else s.data.lookup x := by
  induction names generalizing s with
  | nil => rfl
  | cons name rest ih =>
    rw [List.foldl_cons, ih, loadEntry_lookup]
    by_cases hx : x = name
    · have hMem : x ∈ name :: rest := hx ▸ List.mem_cons_self
      rw [if_pos hx, if_pos hMem]
      split
      · rw [← Option.or_assoc, Option.or_self]
      · rfl
    · rw [if_neg hx]
      simp only [List.mem_cons, hx, false_or]

/-- Under a name that is a key, a restart finds the content of the file, unless
it is too large. -/
theorem lookup_loadFromDisk {maxBytes perPeerMax : Int} :
    (loadFromDisk dir mtime maxBytes perPeerMax).data.lookup name =
      (dir.read name).filter (loadable name) := by
  have hNew : (LocalStore.new maxBytes perPeerMax).data.lookup name = none :=
    lookup_empty name
  rw [loadFromDisk, foldl_loadEntry_lookup, hNew, Option.or_none]
  split
  case isTrue => rfl
  case isFalse hMem =>
    rw [mem_sortedStrings, mem_keys, ← lookup_eq_none] at hMem
    rw [Dir.read, hMem]
    rfl

end AltNet
