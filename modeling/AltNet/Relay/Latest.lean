import AltNet.Relay.TunnelSteps

/-!
# AltNet — the latest registration (`core/relay/server.go`)

A peer that registers again replaces its registration, and the connection of
the old one is closed. The goroutine of that connection notices later and drops
its registration then, when others may have been entered in the meantime. The
map is to have the last registration that was entered for a peer, unless that
very registration was dropped.

Main results:

* `Server.step_table` — what one step does to the map, and the mark it leaves;
* `latest_registration_wins` — in every run the map has the latest
  registrations that have not been dropped, and nobody finds another one.
-/

namespace AltNet.Relay

open List Recorded

/-- The registration, if the mark says that one was entered for this peer. -/
def Mark.insertedFor (peerID : GoString) : Mark → Option Nat
  | .inserted peerID' r => if peerID' = peerID then some r else none
  | _ => none

/-- The registration that was entered last for this peer. -/
def latest (log : List Mark) (peerID : GoString) : Option Nat :=
  (log.filterMap (Mark.insertedFor peerID)).getLast?

/-- This registration was entered last for this peer, and it was not dropped. -/
def Current (log : List Mark) (peerID : GoString) (r : Nat) : Prop :=
  latest log peerID = some r ∧ .dropped r ∉ log

namespace Server

/-- All that a step can do to the map of registrations, with its marks. -/
inductive Table (s : Server) : List Mark → Server → Prop
  | quiet {ms s'} : s'.registrations = s.registrations → s'.regs.length = s.regs.length →
      (ms = [] ∨ ∃ m, ms = [m] ∧ m.ofToken = true) → Table s ms s'
  | find {c peerID r s'} : s.registrations.lookup peerID = some r →
      s'.registrations = s.registrations → s'.regs.length = s.regs.length →
      Table s [.found c peerID r] s'
  | insert {peerID s'} : s'.registrations = s.registrations.insert peerID s.regs.length →
      s'.regs.length = s.regs.length + 1 → Table s [.inserted peerID s.regs.length] s'
  | drop {r f s'} : s.faces[r]? = some f →
      s'.registrations = (if s.registrations.lookup f.peerID = some r then
        s.registrations.erase f.peerID else s.registrations) →
      s'.regs.length = s.regs.length → Table s [.dropped r] s'

variable {s s' : Server} {a : Action} {c r : Nat} {e : Event} {h h' : Handler}

theorem handle_table {line : GoString} : Table s [] (s.handle c line) := by
  unfold handle
  split
  · exact .quiet rfl rfl (.inl rfl)
  · exact .quiet rfl rfl (.inl rfl)

theorem register_table {peerID : GoString} :
    Table s [.inserted peerID s.regs.length] (s.register c peerID) :=
  .insert rfl length_append

theorem drop_table (hOwner : ∃ g, s.regs[r]? = some g) :
    Table s [.dropped r] ((s.dropRegistration r).goto c h') := by
  obtain ⟨g, hReg⟩ := hOwner
  rw [dropRegistration_eq hReg]
  refine .drop (faces_of_regs hReg) ?_ ?_
  · show _ = if s.registrations.lookup g.peerID = some r then _ else _
    split
    · rfl
    · rfl
  · split
    · rfl
    · rfl

theorem Acts.table (hOwner : ∀ r, h.owns = some r → ∃ g, s.regs[r]? = some g)
    (hAt : s.handlers[c]? = some h) (hActs : s.Acts c h e s') :
    Table s (s.marks (.handler c e)) s' := by
  simp only [marks, hAt]
  cases hActs with
  | handle => exact handle_table
  | register => exact register_table
  | giveUp | drop => exact drop_table (hOwner _ rfl)
  | find hFound =>
    simp only [hFound]
    exact .find hFound rfl rfl
  -- a registration changes
  | greet | close | push => exact .quiet rfl (length_set ..) (.inl rfl)
  -- a mark about a token
  | pend | badToken | present => exact .quiet rfl rfl (.inr ⟨_, rfl, rfl⟩)
  | handOver hChan hSent =>
    simp only [hChan, hSent]
    exact .quiet rfl rfl (.inr ⟨_, rfl, rfl⟩)
  -- no mark
  | miss hNone =>
    simp only [hNone]
    exact .quiet rfl rfl (.inl rfl)
  | race hChan hFull =>
    simp only [hChan, hFull]
    exact .quiet rfl rfl (.inl rfl)
  | gone | greetFails | listen | lose | closeAgain | join | noRandom | pushFull | pushLate
  | receive | timeout | answer | answerFails | confirm | confirmFails | pipeEnd | leave =>
    exact .quiet rfl rfl (.inl rfl)

/-- `dropRegistration` takes away no other registration. -/
theorem lookup_of_drop {id peerID : GoString} {r' : Nat} (hOther : r' ≠ r)
    (hOld : s.registrations.lookup id = some r') :
    (if s.registrations.lookup peerID = some r then s.registrations.erase peerID
      else s.registrations).lookup id = some r' := by
  split
  case isTrue hCurrent =>
    rw [Finmap.lookup_erase_ne]
    · exact hOld
    · rintro rfl
      exact hOther (Option.some.inj (hOld.symm.trans hCurrent))
  case isFalse => exact hOld

/-- **One step** of the relay, as far as the registrations go. -/
theorem step_table (hInv : s.roster.Inv) (hStep : s.next a = some s') : Table s (s.marks a) s' := by
  cases step_steps (next_eq_some.mp hStep).2 with
  | @handler c h e _ hAt hActs =>
    refine hActs.table (fun r hOwns => ?_) hAt
    obtain ⟨f, hFace, -, -⟩ := hInv.owner c h r hAt (.inl hOwns)
    obtain ⟨g, hReg, -⟩ := regs_of_faces hFace
    exact ⟨g, hReg⟩
  | take | ended | write | writeFails => exact .quiet rfl (length_set ..) (.inl rfl)
  | accept | stopAgain | stop | stopListener | stopConn => exact .quiet rfl rfl (.inl rfl)

end Server

/-! ## The map and the log -/

variable {log : List Mark} {m : Mark} {peerID : GoString} {r : Nat}

theorem latest_append :
    latest (log ++ [m]) peerID = (m.insertedFor peerID).or (latest log peerID) := by
  unfold latest
  rw [filterMap_append]
  cases hMark : m.insertedFor peerID with
  | none => simp [hMark]
  | some r => simp [hMark]

/-- A mark that neither enters nor drops a registration. -/
theorem current_append (hInserted : ∀ id n, m ≠ .inserted id n) (hDropped : ∀ n, m ≠ .dropped n) :
    Current (log ++ [m]) peerID r ↔ Current log peerID r := by
  have hNone : m.insertedFor peerID = none := by
    cases m with
    | inserted id n => exact absurd rfl (hInserted id n)
    | _ => rfl
  unfold Current
  rw [latest_append, hNone, Option.none_or, mem_append, mem_singleton,
    or_iff_left fun hEq => hDropped r hEq.symm]

/-- The map has the current registrations, and only current ones were found. -/
structure Kept (x : Recorded) : Prop where
  table : ∀ peerID r, x.server.registrations.lookup peerID = some r ↔ Current x.log peerID r
  bound : ∀ r, .dropped r ∈ x.log → r < x.server.regs.length
  found : ∀ before c peerID r, before ++ [.found c peerID r] <+: x.log → Current before peerID r

theorem Kept.init : Kept init where
  table := by
    intro peerID r
    exact ⟨nofun, fun h => nomatch h.1⟩
  bound := nofun
  found := by
    intro before c peerID r hPre
    exact absurd (prefix_nil.mp hPre) (by simp)

theorem Kept.quiet {x y : Recorded} (hKept : Kept x)
    (hTable : y.server.registrations = x.server.registrations)
    (hLength : y.server.regs.length = x.server.regs.length) (hLog : y.log = x.log ++ [m])
    (hInserted : ∀ id n, m ≠ .inserted id n) (hDropped : ∀ n, m ≠ .dropped n)
    (hFound : ∀ c peerID r, m = .found c peerID r →
      x.server.registrations.lookup peerID = some r) : Kept y := by
  refine ⟨?_, ?_, ?_⟩
  · intro peerID r
    rw [hTable, hLog, current_append hInserted hDropped]
    exact hKept.table peerID r
  · intro r hMem
    rw [hLog, mem_append, mem_singleton] at hMem
    rw [hLength]
    exact hKept.bound r (hMem.resolve_right fun hEq => hDropped r hEq.symm)
  · intro before c peerID r hPre
    rw [hLog, prefix_concat_iff] at hPre
    rcases hPre with hEq | hOld
    · obtain ⟨rfl, hMark⟩ := append_inj' hEq rfl
      exact (hKept.table peerID r).mp (hFound c peerID r (singleton_inj.mp hMark).symm)
    · exact hKept.found before c peerID r hOld

/-- What was found stays found in time when the log grows by another mark. -/
theorem Kept.found_append {x : Recorded} (hKept : Kept x)
    (hFound : ∀ c peerID r, m ≠ .found c peerID r) :
    ∀ before c peerID r, before ++ [.found c peerID r] <+: x.log ++ [m] →
      Current before peerID r := by
  intro before c peerID r hPre
  rcases prefix_concat_iff.mp hPre with hEq | hOld
  · obtain ⟨-, hMark⟩ := append_inj' hEq rfl
    exact absurd (singleton_inj.mp hMark).symm (hFound c peerID r)
  · exact hKept.found before c peerID r hOld

theorem Kept.insert {x y : Recorded} (hKept : Kept x)
    (hTable : y.server.registrations =
      x.server.registrations.insert peerID x.server.regs.length)
    (hLength : y.server.regs.length = x.server.regs.length + 1)
    (hLog : y.log = x.log ++ [.inserted peerID x.server.regs.length]) : Kept y := by
  have hDropped : ∀ n, Mark.dropped n ∈ x.log ++ [.inserted peerID x.server.regs.length] ↔
      .dropped n ∈ x.log := by
    intro n
    rw [mem_append, mem_singleton, or_iff_left nofun]
  refine ⟨?_, ?_, ?_⟩
  · intro id r
    unfold Current
    rw [hTable, hLog, latest_append, hDropped]
    by_cases hSame : peerID = id
    · -- the new one, which nobody can have dropped
      subst hSame
      rw [Finmap.lookup_insert, Mark.insertedFor, if_pos rfl, Option.some_or]
      refine ⟨?_, fun h => h.1⟩
      intro hEq
      cases hEq
      exact ⟨rfl, fun hMem => Nat.lt_irrefl _ (hKept.bound _ hMem)⟩
    · rw [Finmap.lookup_insert_of_ne _ (fun hEq => hSame hEq.symm), Mark.insertedFor,
        if_neg hSame, Option.none_or]
      exact hKept.table id r
  · intro r hMem
    rw [hLog, hDropped] at hMem
    have hLt := hKept.bound r hMem
    omega
  · rw [hLog]
    exact hKept.found_append nofun

theorem Kept.drop {x y : Recorded} {f : Face} (hKept : Kept x) (hInv : x.server.roster.Inv)
    (hFace : x.server.faces[r]? = some f)
    (hTable : y.server.registrations = if x.server.registrations.lookup f.peerID = some r then
      x.server.registrations.erase f.peerID else x.server.registrations)
    (hLength : y.server.regs.length = x.server.regs.length)
    (hLog : y.log = x.log ++ [.dropped r]) : Kept y := by
  refine ⟨?_, ?_, ?_⟩
  · intro id r'
    unfold Current
    have hNone : (Mark.dropped r).insertedFor id = none := rfl
    rw [hTable, hLog, latest_append, hNone, Option.none_or, mem_append, mem_singleton,
      not_or]
    constructor
    · intro hFound
      obtain ⟨hOld, hOther⟩ := hInv.dropped hFace hFound
      obtain ⟨hLatest, hNot⟩ := (hKept.table id r').mp hOld
      exact ⟨hLatest, hNot, fun hEq => hOther (Mark.dropped.inj hEq)⟩
    · rintro ⟨hLatest, hNot, hOther⟩
      exact Server.lookup_of_drop (fun hEq => hOther (congrArg Mark.dropped hEq))
        ((hKept.table id r').mpr ⟨hLatest, hNot⟩)
  · intro r' hMem
    rw [hLog, mem_append, mem_singleton] at hMem
    rw [hLength]
    rcases hMem with hOld | hNew
    · exact hKept.bound r' hOld
    · obtain rfl := Mark.dropped.inj hNew
      obtain ⟨g, hReg, -⟩ := Server.regs_of_faces hFace
      exact (List.getElem?_eq_some_iff.mp hReg).1
  · rw [hLog]
    exact hKept.found_append nofun

/-- **One step.** -/
theorem Kept.step {x y : Recorded} {a : Action} (hKept : Kept x) (hInv : x.server.roster.Inv)
    (hStep : x.next a = some y) : Kept y := by
  obtain ⟨hNext, hLog⟩ := next_eq_some.mp hStep
  have hTable := Server.step_table hInv hNext
  generalize x.server.marks a = ms at hTable hLog
  cases hTable with
  | quiet hSame hLength hMarks =>
    rcases hMarks with rfl | ⟨m, rfl, hKind⟩
    · rw [append_nil] at hLog
      refine ⟨?_, ?_, ?_⟩
      · rw [hSame, hLog]
        exact hKept.table
      · rw [hLength, hLog]
        exact hKept.bound
      · rw [hLog]
        exact hKept.found
    · refine hKept.quiet hSame hLength hLog ?_ ?_ ?_
      · rintro id n rfl
        cases hKind
      · rintro n rfl
        cases hKind
      · rintro c peerID r rfl
        cases hKind
  | find hFound hSame hLength =>
    refine hKept.quiet hSame hLength hLog nofun nofun ?_
    intro c peerID r hEq
    obtain ⟨-, rfl, rfl⟩ := Mark.found.inj hEq
    exact hFound
  | insert hSame hLength => exact hKept.insert hSame hLength hLog
  | drop hFace hSame hLength => exact hKept.drop hInv hFace hSame hLength hLog

/-- **Latest registration wins.** In every run of the relay the map has under an
identifier exactly the registration that was entered last for it, if that was
not dropped; a teardown takes away no other registration than its own; and a
`DIAL` finds what was current when it looked. -/
theorem latest_registration_wins {as : List Action} {x : Recorded}
    (hRun : Exec (stepOf next) init as x) :
    (∀ peerID r, x.server.registrations.lookup peerID = some r ↔ Current x.log peerID r) ∧
    (∀ a y r, x.next a = some y → .dropped r ∈ x.server.marks a →
      ∀ peerID r', r' ≠ r → x.server.registrations.lookup peerID = some r' →
        y.server.registrations.lookup peerID = some r') ∧
    ∀ before c peerID r, before ++ [.found c peerID r] <+: x.log → Current before peerID r := by
  have hAll : x.server.roster.Inv ∧ Kept x := by
    refine hRun.invariant (I := fun x => x.server.roster.Inv ∧ Kept x) ⟨.init, .init⟩ ?_
    rintro y a z ⟨hInv, hKept⟩ hStep
    exact ⟨hInv.step (hInv.change (next_eq_some.mp hStep).1), hKept.step hInv hStep⟩
  obtain ⟨hInv, hKept⟩ := hAll
  refine ⟨hKept.table, ?_, hKept.found⟩
  intro a y r hStep hMark peerID r' hOther hFound
  have hTable := Server.step_table hInv (next_eq_some.mp hStep).1
  generalize x.server.marks a = ms at hTable hMark
  cases hTable with
  | quiet _ _ hMarks =>
    rcases hMarks with rfl | ⟨m, rfl, hKind⟩
    · cases hMark
    · rw [← mem_singleton.mp hMark] at hKind
      cases hKind
  | find => cases mem_singleton.mp hMark
  | insert => cases mem_singleton.mp hMark
  | drop hFace hSame =>
    obtain rfl := Mark.dropped.inj (mem_singleton.mp hMark)
    rw [hSame]
    exact Server.lookup_of_drop hOther hFound

/-- The peer registers, and again before the first connection is gone; that one
is then torn down, and the peer is dialed. -/
def replacedRun : List Action :=
  registerRun 0 ++ registerRun 1 ++ (goneRun 0 0).take 3 ++ (dialRun 2).take 3

theorem latest_registration_wins_replacedRun :
    ∃ x, Exec (stepOf next) init replacedRun x ∧
      x.log = [.inserted samplePeer 0, .inserted samplePeer 1, .dropped 0, .found 2 samplePeer 1] ∧
      Current x.log samplePeer 1 := by
  refine Exec.exists_of_runFrom (p := fun x => x.log = [.inserted samplePeer 0,
      .inserted samplePeer 1, .dropped 0, .found 2 samplePeer 1] ∧
    x.server.registrations.lookup samplePeer = some 1) (by decide +kernel) ?_
  rintro x hRun ⟨hLog, hFound⟩
  exact ⟨hLog, ((latest_registration_wins hRun).1 samplePeer 1).mp hFound⟩

end AltNet.Relay
