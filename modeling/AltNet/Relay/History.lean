import AltNet.Relay.ControlQueue

/-!
# AltNet — what has happened at the relay (`core/relay/server.go`)

The maps of the relay forget: a registration that has been replaced is gone
from them, and so is a token when its `handleDial` returns. What is meant to
hold of registrations and tokens speaks about the past, so a run is followed
here together with a log of the steps that concern the two maps. The log has no
influence on the run.

Main results:

* `Recorded.next_eq_some` — a recorded step is a step of the relay, with its
  marks added to the log;
* `Recorded.exec_server` — a recorded run is a run of the relay.
-/

namespace AltNet.Relay

/-- What is remembered of a step. -/
inductive Mark where
  /-- `handleRegister` has entered registration `r` -/
  | inserted (peerID : GoString) (r : Nat)
  /-- `dropRegistration` was called with `r` -/
  | dropped (r : Nat)
  /-- the `handleDial` of connection `c` has found `r` -/
  | found (c : Nat) (peerID : GoString) (r : Nat)
  /-- the `handleDial` of connection `c` has entered its token and channel -/
  | entered (c : Nat) (token : GoString) (ch : Nat)
  /-- the `handleTunnel` of connection `t` has looked up a token -/
  | presented (t : Nat) (token : GoString)
  /-- the `handleTunnel` of connection `t` has handed it over -/
  | handed (t ch : Nat)
  deriving DecidableEq

/-- The marks that a step leaves, if it can be taken. -/
def Server.marks (s : Server) : Action → List Mark
  | .handler c e =>
    match s.handlers[c]?, e with
    | some (.registering peerID), .run => [.inserted peerID s.regs.length]
    | some (.refused r), .run => [.dropped r]
    | some (.dropping r), .run => [.dropped r]
    | some (.dialing peerID), .run =>
      match s.registrations.lookup peerID with
      | some r => [.found c peerID r]
      | none => []
    | some (.found _), .random (some bytes) => [.entered c (hexEncode bytes) s.tunnels.length]
    | some (.tunnelling token), .run => [.presented c token]
    | some (.handing ch), .run =>
      match s.tunnels[ch]? with
      | some tunnelCh =>
        match tunnelCh.trySend c with
        | .sent _ => [.handed c ch]
        | _ => []
      | none => []
    | _, _ => []
  | _ => []

/-- A token is made of the random bytes that the step was given. -/
theorem Server.marks_entered {s : Server} {a : Action} {c ch : Nat} {token : GoString}
    (hMark : .entered c token ch ∈ s.marks a) :
    ∃ bytes, a = .handler c (.random (some bytes)) ∧ token = hexEncode bytes := by
  unfold marks at hMark
  split at hMark
  case h_1 c' e =>
    split at hMark
    case h_5 r bytes _ =>
      obtain ⟨rfl, rfl, -⟩ := Mark.entered.inj (List.mem_singleton.mp hMark)
      exact ⟨bytes, rfl, rfl⟩
    case h_1 | h_2 | h_3 | h_6 => cases List.mem_singleton.mp hMark
    case h_4 =>
      split at hMark
      · cases List.mem_singleton.mp hMark
      · cases hMark
    case h_7 =>
      split at hMark
      · split at hMark
        · cases List.mem_singleton.mp hMark
        · cases hMark
      · cases hMark
    case h_8 => cases hMark
  case h_2 => cases hMark

/-- A relay and its log. -/
structure Recorded where
  server : Server
  log : List Mark

namespace Recorded

def init : Recorded := ⟨.init, []⟩

def next (x : Recorded) (a : Action) : Option Recorded :=
  (x.server.next a).map fun s => ⟨s, x.log ++ x.server.marks a⟩

theorem next_eq_some {x y : Recorded} {a : Action} :
    x.next a = some y ↔
      x.server.next a = some y.server ∧ y.log = x.log ++ x.server.marks a := by
  unfold next
  rw [Option.map_eq_some_iff]
  constructor
  · rintro ⟨s, hStep, rfl⟩
    exact ⟨hStep, rfl⟩
  · rintro ⟨hStep, hLog⟩
    exact ⟨y.server, hStep, by rw [← hLog]⟩

theorem exec_server {x y : Recorded} {as : List Action} (hRun : Exec (stepOf next) x as y) :
    Exec (stepOf Server.next) x.server as y.server := by
  induction hRun with
  | nil => exact .nil _
  | snoc _ hLast ih => exact ih.snoc (next_eq_some.mp hLast).1

end Recorded

end AltNet.Relay
