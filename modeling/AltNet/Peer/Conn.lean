import AltNet.Lib.GoMap
import AltNet.Lib.Text

/-!
# AltNet — the connection maps of a peer (`core/peer/peer.go`)

A peer keeps its connections in two maps: `peersByID`, at most one connection
for each authenticated peer id, and `peers`, from every address under which a
connection can be used. `registerConn` installs a new connection, or makes its
address an alias of the connection that is already there; `removeConn` takes a
connection and its aliases out again.

A Go pointer to a `peerConn` is a value of a type `κ` of connections. What the
pointer leads to and what changes is kept in the table: the list of addresses.
The peer id of a connection is set before it is registered and does not
change.

Main results:

* `registerConn_result` — a connection is refused exactly when another one
  with the same peer id is installed, and it is that one that is returned;
* `registerConn_byID`, `removeConn_byID` — what the two calls do to
  `peersByID`, entry by entry;
* `Sound.addAlias`, `Sound.setByID`, `Sound.removeConn` — every connection in
  `peersByID` is there under its own id, and every alias in `peers` is listed by
  the connection it leads to.
-/

namespace AltNet

/-- `appendUnique`. -/
def appendUnique (slice : List GoString) (s : GoString) : List GoString :=
  if s ∈ slice then slice else slice ++ [s]

/-- The connection maps of a `Peer`, with the fields of each `peerConn` that
they use. -/
structure ConnTable (κ : Type) where
  remoteID : κ → GoString
  peers : GoMap GoString κ
  peersByID : GoMap GoString κ
  addresses : κ → List GoString

namespace ConnTable

variable {κ : Type} [DecidableEq κ]

/-- The maps of a `Peer` without connections. -/
def new (remoteID : κ → GoString) : ConnTable κ where
  remoteID := remoteID
  peers := ∅
  peersByID := ∅
  addresses := fun _ => []

/-- The two lines that make `addr` an alias of `pc`. -/
def addAlias (t : ConnTable κ) (pc : κ) (addr : GoString) : ConnTable κ :=
  { t with
    peers := t.peers.insert addr pc
    addresses := Function.update t.addresses pc (appendUnique (t.addresses pc) addr) }

/-- The line that makes `pc` the connection of its peer id. -/
def setByID (t : ConnTable κ) (pc : κ) : ConnTable κ :=
  { t with peersByID := t.peersByID.insert (t.remoteID pc) pc }

/-- `registerConn`. -/
def registerConn (t : ConnTable κ) (pc : κ) (addr : GoString) : ConnTable κ × Option κ :=
  if t.remoteID pc ≠ [] then
    match t.peersByID.lookup (t.remoteID pc) with
    | some cur =>
      if cur ≠ pc then (t.addAlias cur addr, some cur)
      else ((t.setByID pc).addAlias pc addr, none)
    | none => ((t.setByID pc).addAlias pc addr, none)
  else (t.addAlias pc addr, none)

/-- The loop of `removeConn` over the addresses of the connection. -/
def dropAliases (pc : κ) (addresses : List GoString) (peers : GoMap GoString κ) :
    GoMap GoString κ :=
  addresses.foldl (fun m a => if m.lookup a = some pc then m.erase a else m) peers

/-- `removeConn`. -/
def removeConn (t : ConnTable κ) (pc : κ) : ConnTable κ :=
  { t with
    peersByID :=
      if t.remoteID pc ≠ [] ∧ t.peersByID.lookup (t.remoteID pc) = some pc
      then t.peersByID.erase (t.remoteID pc) else t.peersByID
    peers := dropAliases pc (t.addresses pc) t.peers }

/-- `AddPeerAddress`. -/
def addPeerAddress (t : ConnTable κ) (peerID addr : GoString) : ConnTable κ × Bool :=
  match t.peersByID.lookup peerID with
  | none => (t, false)
  | some pc => if t.peers.lookup addr = some pc then (t, false) else (t.addAlias pc addr, true)

/-! ## The map by peer id -/

variable {t : ConnTable κ} {pc : κ} {addr : GoString}

theorem addPeerAddress_byID (t : ConnTable κ) (peerID addr : GoString) :
    (t.addPeerAddress peerID addr).1.peersByID = t.peersByID := by
  unfold addPeerAddress
  split
  · rfl
  · split <;> rfl

theorem addPeerAddress_remoteID (t : ConnTable κ) (peerID addr : GoString) :
    (t.addPeerAddress peerID addr).1.remoteID = t.remoteID := by
  unfold addPeerAddress
  split
  · rfl
  · split <;> rfl

@[simp] theorem registerConn_remoteID : (t.registerConn pc addr).1.remoteID = t.remoteID := by
  unfold registerConn
  split
  · split
    · split <;> rfl
    · rfl
  · rfl

/-- A connection is refused exactly when another one with its peer id is
installed. -/
theorem registerConn_result {cur : κ} :
    (t.registerConn pc addr).2 = some cur ↔
      t.remoteID pc ≠ [] ∧ t.peersByID.lookup (t.remoteID pc) = some cur ∧ cur ≠ pc := by
  unfold registerConn
  by_cases hID : t.remoteID pc = []
  · simp [hID]
  rw [if_pos hID]
  cases hCur : t.peersByID.lookup (t.remoteID pc) with
  | none => simp
  | some c =>
    by_cases hc : c = pc
    · subst hc
      simp only [ne_eq, not_true_eq_false, if_false, reduceCtorEq, false_iff, not_and, not_not]
      intro _ hEq
      exact (Option.some.inj hEq).symm
    · simp only [ne_eq, hc, not_false_eq_true, if_true, Option.some.injEq, hID, true_and]
      constructor
      · rintro rfl
        exact ⟨rfl, hc⟩
      · exact fun h => h.1

/-- `registerConn` writes at most the entry of the connection's own id, and
only when it accepts the connection. -/
theorem registerConn_byID (hID : t.remoteID pc ≠ []) (addr x : GoString) :
    (t.registerConn pc addr).1.peersByID.lookup x =
      if x = t.remoteID pc ∧ (t.registerConn pc addr).2 = none then some pc
      else t.peersByID.lookup x := by
  have hSet : ((t.setByID pc).addAlias pc addr).peersByID.lookup x =
      if x = t.remoteID pc then some pc else t.peersByID.lookup x := by
    show (t.peersByID.insert (t.remoteID pc) pc).lookup x = _
    by_cases hx : x = t.remoteID pc
    · rw [if_pos hx, hx, Finmap.lookup_insert]
    · rw [if_neg hx, Finmap.lookup_insert_of_ne _ hx]
  unfold registerConn
  rw [if_pos hID]
  cases hCur : t.peersByID.lookup (t.remoteID pc) with
  | none => simpa using hSet
  | some c =>
    by_cases hc : c = pc
    · subst hc
      simpa using hSet
    · simp [hc, addAlias]

/-- `removeConn` takes out the entry of the connection's own id, when it is
the connection's. -/
theorem removeConn_byID (hID : t.remoteID pc ≠ []) (x : GoString) :
    (t.removeConn pc).peersByID.lookup x =
      if x = t.remoteID pc ∧ t.peersByID.lookup x = some pc then none
      else t.peersByID.lookup x := by
  show Finmap.lookup x (if _ then _ else _) = _
  by_cases hx : x = t.remoteID pc
  · subst hx
    by_cases hCur : t.peersByID.lookup (t.remoteID pc) = some pc
    · simp only [hID, hCur, ne_eq, not_false_eq_true, and_self, if_true, Finmap.lookup_erase]
    · simp only [hCur, and_false, if_false]
  · simp only [hx, false_and, if_false]
    split
    · exact Finmap.lookup_erase_ne hx
    · rfl

/-! ## The maps as a whole -/

/-- Every connection stands in `peersByID` under its own id only, and every
alias in `peers` is listed by the connection it leads to. -/
structure Sound (t : ConnTable κ) : Prop where
  byID : ∀ x pc, t.peersByID.lookup x = some pc → t.remoteID pc = x
  listed : ∀ a pc, t.peers.lookup a = some pc → a ∈ t.addresses pc

theorem mem_appendUnique {slice : List GoString} {s x : GoString} :
    x ∈ appendUnique slice s ↔ x ∈ slice ∨ x = s := by
  unfold appendUnique
  split
  · rename_i h
    constructor
    · exact Or.inl
    · rintro (hx | rfl)
      · exact hx
      · exact h
  · simp

omit [DecidableEq κ] in
theorem sound_new (remoteID : κ → GoString) : (new remoteID).Sound where
  byID := by
    intro x pc h
    cases h
  listed := by
    intro a pc h
    cases h

theorem Sound.addAlias (h : t.Sound) (pc : κ) (addr : GoString) : (t.addAlias pc addr).Sound where
  byID := h.byID
  listed := by
    intro a c hLookup
    change (t.peers.insert addr pc).lookup a = some c at hLookup
    show a ∈ Function.update t.addresses pc (appendUnique (t.addresses pc) addr) c
    rcases GoMap.lookup_insert_cases hLookup with ⟨rfl, rfl⟩ | ⟨-, hLookup⟩
    · rw [Function.update_self, mem_appendUnique]
      exact Or.inr rfl
    have hOld := h.listed a c hLookup
    by_cases hc : c = pc
    · subst hc
      rw [Function.update_self, mem_appendUnique]
      exact Or.inl hOld
    · rwa [Function.update_of_ne hc]

omit [DecidableEq κ] in
theorem Sound.setByID (h : t.Sound) (pc : κ) : (t.setByID pc).Sound where
  byID := by
    intro x c hLookup
    change (t.peersByID.insert (t.remoteID pc) pc).lookup x = some c at hLookup
    rcases GoMap.lookup_insert_cases hLookup with ⟨rfl, rfl⟩ | ⟨-, hLookup⟩
    · rfl
    · exact h.byID x c hLookup
  listed := h.listed

/-- The loop of `removeConn` only takes entries out, and leaves none that
leads to the connection from one of the addresses it visits. -/
theorem dropAliases_lookup {as : List GoString} {m : GoMap GoString κ} {a : GoString} {c : κ}
    (h : (dropAliases pc as m).lookup a = some c) :
    m.lookup a = some c ∧ ¬ (a ∈ as ∧ c = pc) := by
  induction as generalizing m with
  | nil => exact ⟨h, fun hMem => absurd hMem.1 List.not_mem_nil⟩
  | cons b bs ih =>
    have hRest := ih (m := if m.lookup b = some pc then m.erase b else m) h
    by_cases hb : m.lookup b = some pc
    · rw [if_pos hb] at hRest
      have hne : a ≠ b := by
        rintro rfl
        rw [Finmap.lookup_erase] at hRest
        cases hRest.1
      rw [Finmap.lookup_erase_ne hne] at hRest
      refine ⟨hRest.1, fun hMem => hRest.2 ⟨?_, hMem.2⟩⟩
      exact (List.mem_cons.mp hMem.1).resolve_left hne
    · rw [if_neg hb] at hRest
      refine ⟨hRest.1, fun hMem => ?_⟩
      rcases List.mem_cons.mp hMem.1 with rfl | hIn
      · rw [hMem.2] at hRest
        exact hb hRest.1
      · exact hRest.2 ⟨hIn, hMem.2⟩

theorem Sound.removeConn (h : t.Sound) (pc : κ) : (t.removeConn pc).Sound where
  byID := by
    intro x c hLookup
    refine h.byID x c ?_
    unfold ConnTable.removeConn at hLookup
    dsimp only at hLookup
    split at hLookup
    · exact (GoMap.lookup_of_lookup_erase hLookup).2
    · exact hLookup
  listed := fun a c hLookup => h.listed a c (dropAliases_lookup hLookup).1

/-- After `removeConn` no address leads to the connection any more. -/
theorem Sound.removeConn_gone (h : t.Sound) (pc : κ) (a : GoString) :
    (t.removeConn pc).peers.lookup a ≠ some pc := by
  intro hLookup
  obtain ⟨hOld, hNot⟩ := dropAliases_lookup hLookup
  exact hNot ⟨h.listed a pc hOld, rfl⟩

end ConnTable

end AltNet
