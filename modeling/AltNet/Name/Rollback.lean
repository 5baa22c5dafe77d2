import AltNet.Dht.Node
import AltNet.Name.Signing

/-!
# AltNet — versions of a name record across the network

Any number of nodes hold at most one blob each under the key of a name. The
owner publishes records of increasing version: a local write, then `dht_store`
messages. Every holder republishes now and then: it reads its copy and, some
time later, stores what it read, locally and by messages. No write looks at
the version of what it replaces; the last one wins.

So the greatest version held anywhere can fall: a holder that read version 1
before version 2 was published writes version 1 back (`version_rolls_back`).
What does hold is stated by `no_rollback_once_flushed`:

* nothing but published records is ever held, in flight or in hand;
* a publish makes its version the greatest held, at that moment;
* once every older copy is gone from the stores, from the messages and from
  the hands of the nodes, it never falls below that version again.

The nodes have no byte budget and no blocklist here, so entries are neither
evicted nor refused for being blocked.
-/

namespace AltNet

open LocalStore List Function Option

open NodeID (fill)

namespace DHT

/-- A node that never evicts and blocks nothing. -/
structure Open (d : DHT) : Prop where
  unlimited : d.store.maxBytes ≤ 0
  unblocked : d.blocklist = none

instance (d : DHT) : Decidable d.Open :=
  decidable_of_iff (d.store.maxBytes ≤ 0 ∧ d.blocklist = none)
    ⟨fun h => ⟨h.1, h.2⟩, fun h => ⟨h.1, h.2⟩⟩

theorem Open.isBlocked {d : DHT} (h : d.Open) (key : NodeID) : d.isBlocked key = false := by
  rw [DHT.isBlocked, h.unblocked]

/-- What `StoreLocal` does at such a node: the value is stored. -/
theorem storeLocal_open {d d' : DHT} {key : NodeID} {value : Bytes} {order : List GoString}
    {now : Time} (h : d.Open) (hOk : d.storeLocal key value order now = .ok d') :
    d'.Open ∧ d'.store.data = d.store.data.insert key.hex value := by
  simp only [storeLocal, h.isBlocked, Bool.false_eq_true, if_false] at hOk
  split at hOk
  · cases hOk
  cases hOk
  have hAdmit : d.store.admits key.hex value.length [] = true := by simp [LocalStore.admits]
  refine ⟨⟨?_, h.unblocked⟩, ?_⟩
  · rw [put_maxBytes]
    exact h.unlimited
  · rw [put_data_unlimited h.unlimited, if_pos hAdmit]

/-- What a `dht_store` does at such a node: the value is stored or, for its
size or its sender's quota, dropped. -/
theorem handleStore_open {d : DHT} (h : d.Open) (key : NodeID) (value : Bytes)
    (sender : GoString) (order : List GoString) (now : Time) :
    (d.handleStore ⟨key.hex, value⟩ sender order now).1.Open ∧
      ((d.handleStore ⟨key.hex, value⟩ sender order now).1.store.data = d.store.data ∨
        (d.handleStore ⟨key.hex, value⟩ sender order now).1.store.data =
          d.store.data.insert key.hex value) := by
  have hFst : (d.handleStore ⟨key.hex, value⟩ sender order now).1 =
      if maxValueSize < value.length then d
      else { d with store := (d.store.put order key value sender now).1 } := by
    simp only [handleStore, idFromHex_hex, h.isBlocked, Bool.false_eq_true, if_false]
    split
    · rfl
    · split <;> rfl
  rw [hFst]
  split
  · exact ⟨h, .inl rfl⟩
  refine ⟨⟨?_, h.unblocked⟩, ?_⟩
  · rw [put_maxBytes]
    exact h.unlimited
  · rw [put_data_unlimited h.unlimited]
    split
    · exact .inr rfl
    · exact .inl rfl

end DHT

/-! ## The network -/

/-- The nodes, the `dht_store` messages in flight (destination, blob, sender
field), the blobs that republishing nodes have read and not yet stored, the
blobs that nodes are pushing out, and the versions published so far. -/
structure Network (ι : Type) where
  node : ι → DHT
  flight : List (ι × Bytes × GoString)
  reading : List (ι × Bytes)
  pushing : List (ι × Bytes)
  published : List Int

/-- The steps, for one key. `other` is anything a node does that leaves its
entry under the key alone. -/
inductive NetAction (ι : Type) where
  | publish (owner : ι) (blob : Bytes) (order : List GoString) (now : Time)
  | push (i : ι) (blob : Bytes) (dest : ι) (sender : GoString)
  | pushed (i : ι) (blob : Bytes)
  | deliver (dest : ι) (blob : Bytes) (sender : GoString) (order : List GoString) (now : Time)
  | lose (dest : ι) (blob : Bytes) (sender : GoString)
  | read (i : ι) (now : Time)
  | write (i : ι) (blob : Bytes) (order : List GoString) (now : Time)
  | other (i : ι) (d : DHT)

namespace Network

variable {ι : Type}

/-- The blob a node holds under the key. -/
def entry (key : NodeID) (s : Network ι) (i : ι) : Option Bytes :=
  (s.node i).store.data.lookup key.hex

/-- No message, no republish in progress, nothing published, and every node
open and without an entry under the key. -/
structure Initial (key : NodeID) (s : Network ι) : Prop where
  open_ : ∀ i, (s.node i).Open
  empty : ∀ i, s.entry key i = none
  flight : s.flight = []
  reading : s.reading = []
  pushing : s.pushing = []
  published : s.published = []

end Network

/-- The version of an entry, `⊥` when it is not a valid record. -/
def versionOf (ver : Bytes → Option Int) : Option Bytes → WithBot Int
  | none => ⊥
  | some blob =>
    match ver blob with
    | none => ⊥
    | some v => v

/-- The greatest version of a valid record in some node's store. -/
def greatestVersion {ι : Type} [Fintype ι] (ver : Bytes → Option Int) (key : NodeID)
    (s : Network ι) : WithBot Int :=
  Finset.univ.sup fun i => versionOf ver (s.entry key i)

section Steps

variable {ι : Type} [DecidableEq ι] (ver : Bytes → Option Int) (key : NodeID)

/-- One step. `publish` is `Publish`: a version above all earlier ones, and
`StoreLocal` at the owner's node, which is then pushing the blob; `push` is one
`dht_store` message of a push under way, and with `pushed` it ends; `deliver`
and `lose` are the two fates of a message; `read` and `write` are the `Get` and
the `Store` of a node's `republishAll`. -/
def Network.next (s : Network ι) : NetAction ι → Option (Network ι)
  | .publish owner blob order now =>
    match ver blob, (s.node owner).storeLocal key blob order now with
    | some v, .ok d =>
      if ∀ w ∈ s.published, w < v then
        some { s with
          node := update s.node owner d
          pushing := (owner, blob) :: s.pushing
          published := v :: s.published }
      else none
    | _, _ => none
  | .push i blob dest sender =>
    if (i, blob) ∈ s.pushing then
      some { s with flight := (dest, blob, sender) :: s.flight }
    else none
  | .pushed i blob =>
    if (i, blob) ∈ s.pushing then some { s with pushing := s.pushing.erase (i, blob) } else none
  | .deliver dest blob sender order now =>
    if (dest, blob, sender) ∈ s.flight then
      some { s with
        node := update s.node dest
          ((s.node dest).handleStore ⟨key.hex, blob⟩ sender order now).1
        flight := s.flight.erase (dest, blob, sender) }
    else none
  | .lose dest blob sender =>
    if (dest, blob, sender) ∈ s.flight then
      some { s with flight := s.flight.erase (dest, blob, sender) }
    else none
  | .read i now =>
    match ((s.node i).store.get key now).2 with
    | none => none
    | some blob =>
      some { s with
        node := update s.node i
          { s.node i with store := ((s.node i).store.get key now).1 }
        reading := (i, blob) :: s.reading }
  | .write i blob order now =>
    if (i, blob) ∈ s.reading then
      match (s.node i).storeLocal key blob order now with
      | .error _ => some { s with reading := s.reading.erase (i, blob) }
      | .ok d =>
        some { s with
          node := update s.node i d
          reading := s.reading.erase (i, blob)
          pushing := (i, blob) :: s.pushing }
    else none
  | .other i d =>
    if d.Open ∧ d.store.data.lookup key.hex = s.entry key i then
      some { s with node := update s.node i d }
    else none

/-- Every blob that is held, in flight, in hand or being pushed has the property. -/
structure AllBlobs (P : Bytes → Prop) (s : Network ι) : Prop where
  held : ∀ i blob, s.entry key i = some blob → P blob
  flight : ∀ m ∈ s.flight, P m.2.1
  reading : ∀ r ∈ s.reading, P r.2
  pushing : ∀ r ∈ s.pushing, P r.2

/-- The version `v` was published, and nothing older is left anywhere. -/
structure Flushed (v : Int) (s : Network ι) : Prop where
  published : v ∈ s.published
  newer : AllBlobs key (fun blob => ∃ w, v ≤ w ∧ ver blob = some w) s

/-- The nodes stay open, and an entry stays what it is or becomes a blob with the
property. -/
structure Writes (P : Bytes → Prop) (s t : Network ι) : Prop where
  open_ : ∀ i, (t.node i).Open
  entry : ∀ i, t.entry key i = s.entry key i ∨ ∃ blob, P blob ∧ t.entry key i = some blob

variable {ver key} {s t : Network ι} {a : NetAction ι} {P : Bytes → Prop}

/-! ## What a step can do -/

/-- One node changes. -/
theorem Writes.update {i : ι} {d : DHT} (hOpen : ∀ i, (s.node i).Open)
    (hNode : t.node = update s.node i d) (hd : d.Open)
    (hData : d.store.data.lookup key.hex = s.entry key i ∨
      ∃ blob, P blob ∧ d.store.data.lookup key.hex = some blob) : Writes key P s t where
  open_ j := by
    rw [hNode, update_apply]
    split
    · exact hd
    · exact hOpen j
  entry j := by
    unfold Network.entry
    rw [hNode, update_apply]
    split
    · rename_i hj
      rw [hj]
      exact hData
    · exact .inl rfl

omit [DecidableEq ι] in
theorem Writes.held (h : Writes key P s t) (hAll : AllBlobs key P s) (i : ι) (blob : Bytes)
    (hEntry : t.entry key i = some blob) : P blob := by
  rcases h.entry i with hSame | ⟨b, hb, hNew⟩
  · exact hAll.held i blob (hSame ▸ hEntry)
  · cases hNew.symm.trans hEntry
    exact hb

omit [DecidableEq ι] in
/-- An entry is never lost. -/
theorem Writes.isSome (h : Writes key P s t) {i : ι} (hi : (s.entry key i).isSome = true) :
    (t.entry key i).isSome = true := by
  rcases h.entry i with hSame | ⟨blob, -, hNew⟩
  · rw [hSame]
    exact hi
  · rw [hNew]
    rfl

theorem next_publish {owner : ι} {blob : Bytes} {order : List GoString} {now : Time}
    (hStep : s.next ver key (.publish owner blob order now) = some t) :
    ∃ v d, ver blob = some v ∧ (∀ w ∈ s.published, w < v) ∧
      (s.node owner).storeLocal key blob order now = .ok d ∧
      t = { s with
        node := update s.node owner d
        pushing := (owner, blob) :: s.pushing
        published := v :: s.published } := by
  simp only [Network.next] at hStep
  split at hStep
  · rename_i v d hVer hOk
    obtain ⟨hNew, ⟨⟩⟩ := ite_none_right_eq_some.mp hStep
    exact ⟨v, d, hVer, hNew, hOk, rfl⟩
  · cases hStep

/-- The step changes one node. -/
theorem AllBlobs.write {i : ι} {d : DHT} (hAll : AllBlobs key P s) (hOpen : ∀ i, (s.node i).Open)
    (hNode : t.node = update s.node i d) (hd : d.Open)
    (hData : d.store.data.lookup key.hex = s.entry key i ∨
      ∃ blob, P blob ∧ d.store.data.lookup key.hex = some blob)
    (hFlight : ∀ m ∈ t.flight, P m.2.1) (hReading : ∀ r ∈ t.reading, P r.2)
    (hPushing : ∀ r ∈ t.pushing, P r.2) : Writes key P s t ∧ AllBlobs key P t := by
  have hWrites := Writes.update hOpen hNode hd hData
  exact ⟨hWrites, hWrites.held hAll, hFlight, hReading, hPushing⟩

/-- **One step.** A blob that is nowhere yet comes by `publish` only. -/
theorem AllBlobs.next (hOpen : ∀ i, (s.node i).Open) (hAll : AllBlobs key P s)
    (hNew : ∀ owner blob order now, a = .publish owner blob order now → P blob)
    (hStep : s.next ver key a = some t) : Writes key P s t ∧ AllBlobs key P t := by
  cases a with
  | publish owner blob order now =>
    obtain ⟨v, d, -, -, hOk, rfl⟩ := next_publish hStep
    obtain ⟨hd, hData⟩ := DHT.storeLocal_open (hOpen owner) hOk
    have hBlob := hNew _ _ _ _ rfl
    exact hAll.write hOpen rfl hd (.inr ⟨blob, hBlob, by rw [hData]; exact Finmap.lookup_insert _⟩)
      hAll.flight hAll.reading (forall_mem_cons.mpr ⟨hBlob, hAll.pushing⟩)
  | push i blob dest sender =>
    obtain ⟨hPush, ⟨⟩⟩ := ite_none_right_eq_some.mp hStep
    exact ⟨⟨hOpen, fun _ => .inl rfl⟩, hAll.held,
      forall_mem_cons.mpr ⟨hAll.pushing _ hPush, hAll.flight⟩, hAll.reading, hAll.pushing⟩
  | pushed i blob =>
    obtain ⟨-, ⟨⟩⟩ := ite_none_right_eq_some.mp hStep
    exact ⟨⟨hOpen, fun _ => .inl rfl⟩, hAll.held, hAll.flight, hAll.reading,
      fun r hr => hAll.pushing r (mem_of_mem_erase hr)⟩
  | deliver dest blob sender order now =>
    obtain ⟨hFlight, ⟨⟩⟩ := ite_none_right_eq_some.mp hStep
    obtain ⟨hd, hData⟩ := DHT.handleStore_open (hOpen dest) key blob sender order now
    refine hAll.write hOpen rfl hd ?_ (fun m hm => hAll.flight m (mem_of_mem_erase hm))
      hAll.reading hAll.pushing
    rcases hData with hData | hData
    · rw [hData]
      exact .inl rfl
    · rw [hData]
      exact .inr ⟨blob, hAll.flight _ hFlight, Finmap.lookup_insert _⟩
  | lose dest blob sender =>
    obtain ⟨-, ⟨⟩⟩ := ite_none_right_eq_some.mp hStep
    exact ⟨⟨hOpen, fun _ => .inl rfl⟩, hAll.held,
      fun m hm => hAll.flight m (mem_of_mem_erase hm), hAll.reading, hAll.pushing⟩
  | read i now =>
    simp only [Network.next] at hStep
    split at hStep
    · cases hStep
    rename_i blob hGet
    cases hStep
    have hBlob := hAll.held i blob (get_snd.symm.trans hGet)
    refine hAll.write hOpen rfl ⟨?_, (hOpen i).unblocked⟩ (.inl (by rw [get_data]; rfl)) hAll.flight
      (forall_mem_cons.mpr ⟨hBlob, hAll.reading⟩) hAll.pushing
    rw [get_maxBytes]
    exact (hOpen i).unlimited
  | write i blob order now =>
    obtain ⟨hRead, hStore⟩ := ite_none_right_eq_some.mp hStep
    have hReading : ∀ r ∈ s.reading.erase (i, blob), P r.2 :=
      fun r hr => hAll.reading r (mem_of_mem_erase hr)
    split at hStore
    · cases hStore
      exact ⟨⟨hOpen, fun _ => .inl rfl⟩, hAll.held, hAll.flight, hReading, hAll.pushing⟩
    rename_i d hOk
    cases hStore
    obtain ⟨hd, hData⟩ := DHT.storeLocal_open (hOpen i) hOk
    have hBlob := hAll.reading _ hRead
    exact hAll.write hOpen rfl hd (.inr ⟨blob, hBlob, by rw [hData]; exact Finmap.lookup_insert _⟩)
      hAll.flight hReading (forall_mem_cons.mpr ⟨hBlob, hAll.pushing⟩)
  | other i d =>
    obtain ⟨⟨hd, hData⟩, ⟨⟩⟩ := ite_none_right_eq_some.mp hStep
    exact hAll.write hOpen rfl hd (.inl hData) hAll.flight hAll.reading hAll.pushing

/-- The versions published: only a `publish` adds one, above all others, and it
enters its blob at the owner's node. -/
theorem next_published (hOpen : ∀ i, (s.node i).Open) (hStep : s.next ver key a = some t) :
    t.published = s.published ∧ (∀ owner blob order now, a ≠ .publish owner blob order now) ∨
      ∃ owner blob order now v, a = .publish owner blob order now ∧ ver blob = some v ∧
        (∀ w ∈ s.published, w < v) ∧ t.published = v :: s.published ∧
        t.entry key owner = some blob := by
  cases a with
  | publish owner blob order now =>
    obtain ⟨v, d, hVer, hNew, hOk, rfl⟩ := next_publish hStep
    refine .inr ⟨owner, blob, order, now, v, rfl, hVer, hNew, rfl, ?_⟩
    simp [Network.entry, (DHT.storeLocal_open (hOpen owner) hOk).2]
  | push | pushed | deliver | lose | other =>
    obtain ⟨-, ⟨⟩⟩ := ite_none_right_eq_some.mp hStep
    exact .inl ⟨rfl, by simp⟩
  | read =>
    simp only [Network.next] at hStep
    split at hStep <;> cases hStep
    exact .inl ⟨rfl, by simp⟩
  | write =>
    obtain ⟨-, hStore⟩ := ite_none_right_eq_some.mp hStep
    split at hStore <;> cases hStore <;> exact .inl ⟨rfl, by simp⟩

/-! ## Invariants -/

omit [DecidableEq ι] in
theorem AllBlobs.mono {Q : Bytes → Prop} (h : AllBlobs key P s) (hPQ : ∀ blob, P blob → Q blob) :
    AllBlobs key Q s where
  held i blob hb := hPQ _ (h.held i blob hb)
  flight m hm := hPQ _ (h.flight m hm)
  reading r hr := hPQ _ (h.reading r hr)
  pushing r hr := hPQ _ (h.pushing r hr)

/-- Every blob is a published record, and where one was published one is held. -/
structure Genuine (ver : Bytes → Option Int) (key : NodeID) (s : Network ι) : Prop where
  open_ : ∀ i, (s.node i).Open
  blobs : AllBlobs key (fun blob => ∃ w ∈ s.published, ver blob = some w) s
  holder : s.published ≠ [] → ∃ i, (s.entry key i).isSome = true

theorem Genuine.step (h : Genuine ver key s) (hStep : s.next ver key a = some t) :
    Genuine ver key t := by
  rcases next_published h.open_ hStep with ⟨hSame, hOther⟩ |
    ⟨owner, blob, order, now, v, rfl, hVer, -, hPub, hEntry⟩
  · obtain ⟨hWrites, hBlobs⟩ :=
      h.blobs.next h.open_ (fun _ _ _ _ hEq => absurd hEq (hOther _ _ _ _)) hStep
    refine ⟨hWrites.open_, hSame ▸ hBlobs, fun hNe => ?_⟩
    obtain ⟨i, hi⟩ := h.holder (hSame ▸ hNe)
    exact ⟨i, hWrites.isSome hi⟩
  · have hOld : AllBlobs key (fun blob => ∃ w ∈ t.published, ver blob = some w) s := by
      refine h.blobs.mono fun b ⟨w, hw, hEq⟩ => ⟨w, ?_, hEq⟩
      rw [hPub]
      exact mem_cons_of_mem _ hw
    obtain ⟨hWrites, hBlobs⟩ := hOld.next h.open_ (by
      rintro _ _ _ _ ⟨⟩
      exact ⟨v, hPub ▸ mem_cons_self, hVer⟩) hStep
    exact ⟨hWrites.open_, hBlobs, fun _ => ⟨owner, by rw [hEntry]; rfl⟩⟩

omit [DecidableEq ι] in
theorem genuine_initial (h : s.Initial key) : Genuine ver key s where
  open_ := h.open_
  blobs := by
    refine ⟨fun i blob hb => ?_, ?_, ?_, ?_⟩
    · rw [h.empty i] at hb
      cases hb
    all_goals simp [h.flight, h.reading, h.pushing]
  holder := fun hNe => absurd h.published hNe

theorem Flushed.step {v : Int} (hOpen : ∀ i, (s.node i).Open) (h : Flushed ver key v s)
    (hStep : s.next ver key a = some t) : Flushed ver key v t := by
  rcases next_published hOpen hStep with ⟨hSame, hOther⟩ |
    ⟨owner, blob, order, now, w, rfl, hVer, hNew, hPub, -⟩
  · refine ⟨hSame ▸ h.published, (h.newer.next hOpen (fun _ _ _ _ hEq => ?_) hStep).2⟩
    exact absurd hEq (hOther _ _ _ _)
  · refine ⟨hPub ▸ mem_cons_of_mem _ h.published, (h.newer.next hOpen ?_ hStep).2⟩
    rintro _ _ _ _ ⟨⟩
    exact ⟨w, le_of_lt (hNew v h.published), hVer⟩

end Steps

/-! ## Whole runs -/

section Greatest

variable {ι : Type} [Fintype ι] {ver : Bytes → Option Int} {key : NodeID} {s : Network ι}

theorem versionOf_le_greatest {i : ι} {blob : Bytes} {v : Int} (hEntry : s.entry key i = some blob)
    (hVer : ver blob = some v) : (v : WithBot Int) ≤ greatestVersion ver key s := by
  have hAt : versionOf ver (s.entry key i) = v := by simp [versionOf, hEntry, hVer]
  rw [← hAt]
  exact Finset.le_sup (f := fun i => versionOf ver (s.entry key i)) (Finset.mem_univ i)

/-- What bounds the versions of all records held bounds the greatest. -/
theorem greatest_le {v : Int}
    (h : ∀ i blob, s.entry key i = some blob → ∃ w ≤ v, ver blob = some w) :
    greatestVersion ver key s ≤ v := by
  refine Finset.sup_le fun i _ => ?_
  cases hEntry : s.entry key i with
  | none => exact bot_le
  | some blob =>
    obtain ⟨w, hw, hVer⟩ := h i blob hEntry
    simpa [versionOf, hVer] using hw

end Greatest

/-- **No rollback once older copies are flushed.** In every run from an empty
network, at any point `s`: all that is held or in transit was published; a
publish at `s` makes its version, which is above all earlier ones, the greatest
held; and if `v` was published and nothing older is left anywhere at `s`, then
at every later point `t` the greatest version held is at least `v`. -/
theorem no_rollback_once_flushed {ι : Type} [Fintype ι] [DecidableEq ι]
    (ver : Bytes → Option Int) (key : NodeID) {init s : Network ι}
    {as : List (NetAction ι)} (hInit : init.Initial key)
    (hPast : Exec (stepOf (Network.next ver key)) init as s) :
    AllBlobs key (fun blob => ∃ w ∈ s.published, ver blob = some w) s ∧
      (∀ owner blob order now t, s.next ver key (.publish owner blob order now) = some t →
        ∃ v : Int, ver blob = some v ∧ (∀ w ∈ s.published, w < v) ∧
          greatestVersion ver key t = v) ∧
      ∀ v, Flushed ver key v s → ∀ bs t, Exec (stepOf (Network.next ver key)) s bs t →
        (v : WithBot Int) ≤ greatestVersion ver key t := by
  have hGen : Genuine ver key s :=
    hPast.invariant (genuine_initial hInit) fun h hStep => h.step hStep
  refine ⟨hGen.blobs, fun owner blob order now t hStep => ?_, fun v hFlushed bs t hRun => ?_⟩
  · rcases next_published hGen.open_ hStep with ⟨-, hOther⟩ |
      ⟨_, _, _, _, v, hEq, hVer, hNew, hPub, hEntry⟩
    · exact absurd rfl (hOther _ _ _ _)
    cases hEq
    refine ⟨v, hVer, hNew, le_antisymm (greatest_le fun i b hb => ?_)
      (versionOf_le_greatest hEntry hVer)⟩
    obtain ⟨w, hw, hEq⟩ := (hGen.step hStep).blobs.held i b hb
    rw [hPub] at hw
    rcases mem_cons.mp hw with rfl | hOld
    · exact ⟨w, le_rfl, hEq⟩
    · exact ⟨w, le_of_lt (hNew w hOld), hEq⟩
  · have hInv := hRun.invariant
      (I := fun u => Genuine ver key u ∧ Flushed ver key v u) ⟨hGen, hFlushed⟩
      fun {u a u'} hu hStep => ⟨hu.1.step hStep, hu.2.step hu.1.open_ hStep⟩
    obtain ⟨i, hi⟩ := hInv.1.holder (ne_nil_of_mem hInv.2.published)
    obtain ⟨blob, hEntry⟩ := isSome_iff_exists.mp hi
    obtain ⟨w, hw, hVer⟩ := hInv.2.newer.held i blob hEntry
    exact (WithBot.coe_le_coe.mpr hw).trans (versionOf_le_greatest hEntry hVer)

/-! ## A rollback -/

/-- A signed record for `a.alt`. -/
def recordBlob (version : Int) : Bytes :=
  goRecords.marshal (NameRecord.sign goRecords sampleIdentity
    ⟨"a.alt".toList, [], (fill 2).hex, version, 0, 0, []⟩)

/-- The versions of the signed records for `a.alt`. -/
def sampleVersion : Bytes → Option Int := recordVersion firstByte goRecords ∅ "a.alt".toList

theorem sampleVersion_recordBlob {version : Int} (h : IsInt64 version) :
    sampleVersion (recordBlob version) = some version := by
  have hRead : goRecords.unmarshal (recordBlob version) = some (NameRecord.sign goRecords
      sampleIdentity ⟨"a.alt".toList, [], (fill 2).hex, version, 0, 0, []⟩) :=
    goRecords_unmarshal_marshal ⟨h, show IsInt64 0 by decide, show IsInt64 0 by decide⟩
  rw [sampleVersion, recordVersion, signedRecord, hRead]
  simp only [NameRecord.verify_sign, registrarAllowed, if_true]
  rfl

/-- Nodes with nothing stored. -/
def emptyNetwork (ι : Type) : Network ι where
  node := fun _ => DHT.new (fill 0) 0 0
  flight := []
  reading := []
  pushing := []
  published := []

theorem emptyNetwork_initial (ι : Type) (key : NodeID) : (emptyNetwork ι).Initial key where
  open_ := fun _ => ⟨le_rfl, rfl⟩
  empty := fun _ => rfl
  flight := rfl
  reading := rfl
  pushing := rfl
  published := rfl

/-- Version 1 is published and read by the republish loop, then version 2 is
published. -/
def publishTwice : List (NetAction Unit) :=
  [.publish () (recordBlob 1) [] 1, .read () 2, .publish () (recordBlob 2) [] 3]

/-- The greatest version held can fall: the republish loop stores the version
1 that it read before version 2 was published. -/
theorem version_rolls_back :
    ∃ s : Network Unit,
      Exec (stepOf (Network.next sampleVersion (fill 7))) (emptyNetwork Unit)
        publishTwice s ∧
      greatestVersion sampleVersion (fill 7) s = (2 : Int) ∧
      ∃ t, s.next sampleVersion (fill 7) (.write () (recordBlob 1) [] 4) = some t ∧
        greatestVersion sampleVersion (fill 7) t = (1 : Int) := by
  refine Exec.exists_of_runFrom (p := fun s =>
      greatestVersion sampleVersion (fill 7) s = (2 : Int) ∧
      (s.next sampleVersion (fill 7) (.write () (recordBlob 1) [] 4)).any
        (fun t => greatestVersion sampleVersion (fill 7) t = (1 : Int)) = true)
    (by decide +kernel) ?_
  rintro s - ⟨hTwo, hWrite⟩
  obtain ⟨t, hNext, hOne⟩ := (any_eq_true _ _).mp hWrite
  exact ⟨hTwo, t, hNext, of_decide_eq_true hOne⟩

/-- Version 1 is published and stored at another node, then version 2. -/
def publishAndPush : List (NetAction Bool) :=
  [.publish false (recordBlob 1) [] 1, .push false (recordBlob 1) true [],
   .deliver true (recordBlob 1) [] [] 2, .pushed false (recordBlob 1),
   .publish false (recordBlob 2) [] 3, .push false (recordBlob 2) true [],
   .deliver true (recordBlob 2) [] [] 4, .pushed false (recordBlob 2)]

/-- The other node republishes. -/
def republishOnce : List (NetAction Bool) :=
  [.read true 5, .write true (recordBlob 2) [] 6, .push true (recordBlob 2) false [],
   .deliver false (recordBlob 2) [] [] 7]

/-- The theorem on two nodes: when the second version has replaced the first at
both and the pushes have ended, nothing older is left, and a republish keeps the
greatest version at 2. -/
theorem no_rollback_two_versions :
    ∃ s t : Network Bool,
      Exec (stepOf (Network.next sampleVersion (fill 7))) (emptyNetwork Bool)
        publishAndPush s ∧
      Exec (stepOf (Network.next sampleVersion (fill 7))) s republishOnce t ∧
      s.published = [2, 1] ∧ Flushed sampleVersion (fill 7) 2 s ∧
      ((2 : Int) : WithBot Int) ≤ greatestVersion sampleVersion (fill 7) t := by
  have hRun : ∃ s, Exec (stepOf (Network.next sampleVersion (fill 7))) (emptyNetwork Bool)
      publishAndPush s ∧ s.published = [2, 1] ∧ s.flight = [] ∧ s.reading = [] ∧ s.pushing = [] ∧
      (∀ i, s.entry (fill 7) i = some (recordBlob 2)) ∧
      (runFrom (Network.next sampleVersion (fill 7)) s republishOnce).isSome = true :=
    Exec.exists_of_runFrom (by decide +kernel) fun _ _ h => h
  obtain ⟨s, hPast, hPub, hFlight, hReading, hPushing, hEntry, hMore⟩ := hRun
  obtain ⟨t, ht⟩ := isSome_iff_exists.mp hMore
  have hFlushed : Flushed sampleVersion (fill 7) 2 s := by
    refine ⟨by simp [hPub], fun i blob h => ?_, ?_, ?_, ?_⟩
    · rw [hEntry] at h
      cases h
      exact ⟨2, le_rfl, sampleVersion_recordBlob (by decide)⟩
    all_goals simp [hFlight, hReading, hPushing]
  exact ⟨s, t, hPast, .of_runFrom ht, hPub, hFlushed, (no_rollback_once_flushed sampleVersion
    (fill 7) (emptyNetwork_initial _ _) hPast).2.2 2 hFlushed _ t (.of_runFrom ht)⟩

end AltNet
