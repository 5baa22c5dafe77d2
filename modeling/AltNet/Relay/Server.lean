import AltNet.Lib.Trace
import AltNet.Lib.GoMap
import AltNet.Lib.Pool
import AltNet.Lib.Chan
import AltNet.Lib.Hex

/-!
# AltNet — the relay server (`core/relay/server.go`)

Each connection that the relay accepts has a goroutine, `handle`, which reads
one line and then becomes `handleRegister`, `handleDial` or `handleTunnel`. A
registered peer has a second one, which writes the lines of its queue to the
peer. They meet in two maps behind one lock, in the queues, and in the channels
through which `handleTunnel` hands its connection to a `handleDial`.

A goroutine is the place in its code where it is about to go on. A step takes
it from one critical section, channel operation, read or write to the next;
what it does in between concerns nobody else. What a read or a write brings,
and whether it fails, is up to the network; on a connection that the relay
itself has closed a write always fails.

A send on a closed channel and the closing of a closed channel panic, and with
the goroutine the whole relay.

Main results:

* `Server.step_steps` — the steps of the relay one by one, each with the checks
  that led to it; what holds in every run is proved from these.
-/

namespace AltNet.Relay

open Option

/-! ## The lines -/

def cmdRegister : GoString := "REGISTER".toList

def cmdDial : GoString := "DIAL".toList

def cmdTunnel : GoString := "TUNNEL".toList

def respOK : GoString := "OK".toList

def respErr : GoString := "ERR".toList

def pushOpen : GoString := "OPEN".toList

/-- The reasons for which the relay refuses a connection. -/
inductive Refusal where
  | emptyCommand
  | usageRegister
  | usageDial
  | usageTunnel
  | unknownCommand
  | badPeerID
  | peerNotRegistered
  | internal
  | peerQueueFull
  | timeout
  | badToken
  | race
  deriving DecidableEq

def Refusal.message : Refusal → GoString
  | .emptyCommand      => "empty command".toList
  | .usageRegister     => "usage: REGISTER <peer-id>".toList
  | .usageDial         => "usage: DIAL <peer-id>".toList
  | .usageTunnel       => "usage: TUNNEL <token>".toList
  | .unknownCommand    => "unknown command".toList
  | .badPeerID         => "bad peer-id".toList
  | .peerNotRegistered => "peer not registered".toList
  | .internal          => "internal".toList
  | .peerQueueFull     => "peer queue full".toList
  | .timeout           => "timeout".toList
  | .badToken          => "bad token".toList
  | .race              => "race".toList

def Refusal.line (e : Refusal) : GoString := respErr ++ ' ' :: e.message

/-- `OPEN <token>`. -/
def openLine (token : GoString) : GoString := pushOpen ++ ' ' :: token

/-- `validHexID`. -/
def validHexID (s : GoString) : Bool :=
  s.length = 64 && s.all fun c =>
    ('0' ≤ c && c ≤ '9') || ('a' ≤ c && c ≤ 'f') || ('A' ≤ c && c ≤ 'F')

/-! ## The state -/

/-- Where the goroutine of a connection stands. Registrations, tunnel channels
and connections are pointers: the index under which they were made. -/
inductive Handler where
  /-- `handle`: about to read the first line. -/
  | reading
  /-- `handleRegister`: about to enter the registration. -/
  | registering (peerID : GoString)
  /-- about to write `OK` -/
  | greeting (r : Nat)
  /-- the `OK` failed: about to drop the registration and return -/
  | refused (r : Nat)
  /-- in the loop that reads until the peer is gone -/
  | listening (r : Nat)
  /-- the peer is gone: about to drop the registration -/
  | dropping (r : Nat)
  /-- about to close the queue -/
  | closing (r : Nat)
  /-- about to wait for the writer -/
  | joining (r : Nat)
  /-- `handleDial`: about to look up the peer. -/
  | dialing (peerID : GoString)
  /-- the peer was found: about to make a token and to enter it -/
  | found (r : Nat)
  /-- about to push the `OPEN` -/
  | pushing (r : Nat) (token : GoString) (ch : Nat)
  /-- waiting for the `TUNNEL` -/
  | waiting (token : GoString) (ch : Nat)
  /-- about to write `OK` to the dialer -/
  | answering (token : GoString) (t : Nat)
  /-- about to write `OK` to the other side -/
  | confirming (token : GoString) (t : Nat)
  | piping (token : GoString) (t : Nat)
  /-- about to remove the token and return -/
  | leaving (token : GoString)
  /-- `handleTunnel`: about to look up the token. -/
  | tunnelling (token : GoString)
  /-- about to hand the connection over -/
  | handing (ch : Nat)
  | done
  deriving DecidableEq

/-- Where the writer of a registration stands: not started, about to take the
next line, about to write one, or returned. -/
inductive Writer where
  | idle
  | ranging
  | writing (line : GoString)
  | done
  deriving DecidableEq

/-- A `registration`, with its writer. -/
structure Registration where
  peerID : GoString
  conn : Nat
  out : Chan GoString 16
  writer : Writer

/-- A connection: whether the relay has closed it, and the lines it has
written. The result of writing an `ERR` is not looked at. -/
structure Conn where
  closed : Bool
  written : List GoString

inductive Panic where
  | sendOnClosed (c r : Nat)
  | closeOfClosed (c r : Nat)
  deriving DecidableEq

/-- The `Server`, and the heap and the goroutines around it. -/
structure Server where
  registrations : GoMap GoString Nat
  pending : GoMap GoString Nat
  stopped : Bool
  listening : Bool
  /-- what `Stop` is still to close -/
  stopping : List Nat
  handlers : List Handler
  conns : List Conn
  regs : List Registration
  tunnels : List (Chan Nat 1)
  panic : Option Panic

/-- What the outside contributes to a step: the line that `readLine` returns,
or its error; the success of a write, of a read; the random bytes of a token,
or an error; that the time is up; that one side of the pipe has ended. Most
steps need nothing. -/
inductive Event where
  | run
  | line (line : Option GoString)
  | wrote (ok : Bool)
  | read (ok : Bool)
  | random (bytes : Option Bytes)
  | timeout
  | pipeEnd
  deriving DecidableEq

inductive Action where
  | accept
  | handler (c : Nat) (e : Event)
  | writer (r : Nat) (e : Event)
  /-- `Stop`, with the order in which it comes upon the registrations -/
  | stop (order : List Nat)
  | stopListener
  | stopConn
  deriving DecidableEq

/-! ## The steps -/

namespace Server

variable (s : Server)

/-- `NewServer` and `Start`. -/
def init : Server where
  registrations := ∅
  pending := ∅
  stopped := false
  listening := true
  stopping := []
  handlers := []
  conns := []
  regs := []
  tunnels := []
  panic := none

/-- The goroutine of connection `c` goes on to `h`. -/
def goto (c : Nat) (h : Handler) : Server := { s with handlers := s.handlers.set c h }

def closeConn (c : Nat) : Server :=
  { s with conns := s.conns.modify c fun k => { k with closed := true } }

def writeLine (c : Nat) (line : GoString) : Server :=
  { s with conns := s.conns.modify c fun k => { k with written := k.written ++ [line] } }

/-- Whether the relay has closed connection `c`. -/
def isClosed (c : Nat) : Bool := s.conns[c]?.any (·.closed)

/-- Write an `ERR` and close the connection. -/
def refuse (c : Nat) (e : Refusal) : Server := (s.writeLine c e.line).closeConn c

/-- What `handle` makes of the first line, up to the first critical section. -/
def dispatch (line : GoString) : Except Refusal Handler :=
  match fields line with
  | [] => .error .emptyCommand
  | cmd :: args =>
    if cmd = cmdRegister then
      match args with
      | [peerID] => if validHexID peerID then .ok (.registering peerID) else .error .badPeerID
      | _ => .error .usageRegister
    else if cmd = cmdDial then
      match args with
      | [peerID] => .ok (.dialing peerID)
      | _ => .error .usageDial
    else if cmd = cmdTunnel then
      match args with
      | [token] => .ok (.tunnelling token)
      | _ => .error .usageTunnel
    else .error .unknownCommand

def handle (c : Nat) (line : GoString) : Server :=
  match dispatch line with
  | .ok h => s.goto c h
  | .error e => (s.refuse c e).goto c .done

/-- The critical section of `handleRegister`: an older registration loses its
connection and its place. -/
def register (c : Nat) (peerID : GoString) : Server :=
  let replaced : Server :=
    match s.registrations.lookup peerID with
    | some old =>
      match s.regs[old]? with
      | some g => s.closeConn g.conn
      | none => s
    | none => s
  { replaced with
    regs := s.regs ++ [⟨peerID, c, Chan.make, .idle⟩]
    registrations := s.registrations.insert peerID s.regs.length
    handlers := s.handlers.set c (.greeting s.regs.length) }

/-- `dropRegistration`. -/
def dropRegistration (r : Nat) : Server :=
  match s.regs[r]? with
  | none => s
  | some g =>
    let s' : Server :=
      if s.registrations.lookup g.peerID = some r then
        { s with registrations := s.registrations.erase g.peerID }
      else s
    s'.closeConn g.conn

/-- `close(reg.out)`. -/
def closeQueue (c r : Nat) : Option Server :=
  match s.regs[r]? with
  | none => none
  | some g =>
    match g.out.close with
    | none => some { s with panic := some (.closeOfClosed c r) }
    | some out => some ({ s with regs := s.regs.set r { g with out } }.goto c (.joining r))

/-- `handleDial` enters its token, which is the hexadecimal form of the random
bytes. -/
def pend (c r : Nat) (bytes : Bytes) : Server :=
  { s with
    tunnels := s.tunnels ++ [Chan.make]
    pending := s.pending.insert (hexEncode bytes) s.tunnels.length }.goto c
      (.pushing r (hexEncode bytes) s.tunnels.length)

/-- `handleDial` pushes the `OPEN`. -/
def push (c r : Nat) (token : GoString) (ch : Nat) : Option Server :=
  match s.regs[r]? with
  | none => none
  | some g =>
    match g.out.trySend (openLine token) with
    | .sent out => some ({ s with regs := s.regs.set r { g with out } }.goto c (.waiting token ch))
    | .full => some ((s.refuse c .peerQueueFull).goto c (.leaving token))
    | .panic => some { s with panic := some (.sendOnClosed c r) }

/-- `handleDial` receives the other side's connection. -/
def receive (c : Nat) (token : GoString) (ch : Nat) : Option Server :=
  match s.tunnels[ch]? with
  | none => none
  | some tunnelCh =>
    match tunnelCh.tryReceive with
    | .item t tunnelCh =>
      some ({ s with tunnels := s.tunnels.set ch tunnelCh }.goto c (.answering token t))
    | _ => none

/-- `handleDial` closes both connections. -/
def hangUp (c t : Nat) (token : GoString) : Server :=
  ((s.closeConn c).closeConn t).goto c (.leaving token)

/-- `handleTunnel` hands its connection over. -/
def handOver (c ch : Nat) : Option Server :=
  match s.tunnels[ch]? with
  | none => none
  | some tunnelCh =>
    match tunnelCh.trySend c with
    | .sent tunnelCh => some ({ s with tunnels := s.tunnels.set ch tunnelCh }.goto c .done)
    | .full => some ((s.refuse c .race).goto c .done)
    | .panic => none

/-- The goroutine of connection `c` takes a step; `none` when it cannot. -/
def act (c : Nat) : Handler → Event → Option Server
  | .reading, .line none => some ((s.closeConn c).goto c .done)
  | .reading, .line (some line) => some (s.handle c line)
  | .registering peerID, .run => some (s.register c peerID)
  | .greeting r, .wrote true =>
    match s.regs[r]? with
    | none => none
    | some g =>
      if s.isClosed c then none
      else some (({ s with regs := s.regs.set r { g with writer := .ranging } }.writeLine c
        respOK).goto c (.listening r))
  | .greeting r, .wrote false => some (s.goto c (.refused r))
  | .refused r, .run => some ((s.dropRegistration r).goto c .done)
  | .listening r, .read true => some (s.goto c (.listening r))
  | .listening r, .read false => some (s.goto c (.dropping r))
  | .dropping r, .run => some ((s.dropRegistration r).goto c (.closing r))
  | .closing r, .run => s.closeQueue c r
  | .joining r, .run =>
    if s.regs[r]?.any fun g => g.writer = .done then some (s.goto c .done) else none
  | .dialing peerID, .run =>
    match s.registrations.lookup peerID with
    | none => some ((s.refuse c .peerNotRegistered).goto c .done)
    | some r => some (s.goto c (.found r))
  | .found _, .random none => some ((s.refuse c .internal).goto c .done)
  | .found r, .random (some bytes) => if bytes.length = 16 then some (s.pend c r bytes) else none
  | .pushing r token ch, .run => s.push c r token ch
  | .waiting token ch, .run => s.receive c token ch
  | .waiting token _, .timeout => some ((s.refuse c .timeout).goto c (.leaving token))
  | .answering token t, .wrote true =>
    if s.isClosed c then none else some ((s.writeLine c respOK).goto c (.confirming token t))
  | .answering token t, .wrote false => some (s.hangUp c t token)
  | .confirming token t, .wrote true =>
    if s.isClosed t then none else some ((s.writeLine t respOK).goto c (.piping token t))
  | .confirming token t, .wrote false => some (s.hangUp c t token)
  | .piping token t, .pipeEnd => some (s.hangUp c t token)
  | .leaving token, .run => some ({ s with pending := s.pending.erase token }.goto c .done)
  | .tunnelling token, .run =>
    match s.pending.lookup token with
    | none => some ((s.refuse c .badToken).goto c .done)
    | some ch => some (s.goto c (.handing ch))
  | .handing ch, .run => s.handOver c ch
  | _, _ => none

/-- The writer of a registration takes a step. -/
def write (r : Nat) (e : Event) : Option Server :=
  match s.regs[r]? with
  | none => none
  | some g =>
    match g.writer, e with
    | .ranging, .run =>
      match g.out.tryReceive with
      | .item line out =>
        some { s with regs := s.regs.set r { g with out, writer := .writing line } }
      | .ended => some { s with regs := s.regs.set r { g with writer := .done } }
      | .blocked => none
    | .writing line, .wrote true =>
      if s.isClosed g.conn then none
      else some ({ s with regs := s.regs.set r { g with writer := .ranging } }.writeLine g.conn
        line)
    | .writing _, .wrote false =>
      some { s with regs := s.regs.set r { g with writer := .done } }
    | _, _ => none

/-- The registrations that `Stop` finds. -/
def registered : List Nat :=
  (sortedStrings s.registrations.keys).filterMap s.registrations.lookup

/-- One step of a relay that has not panicked; `none` when it cannot be
taken. -/
def step : Action → Option Server
  | .accept =>
    if s.listening then
      some { s with
        handlers := s.handlers ++ [.reading]
        conns := s.conns ++ [⟨false, []⟩] }
    else none
  | .handler c e =>
    match s.handlers[c]? with
    | none => none
    | some h => s.act c h e
  | .writer r e => s.write r e
  | .stop order =>
    if s.stopped then some s
    else if order.Perm s.registered then some { s with stopped := true, stopping := order }
    else none
  | .stopListener => if s.stopped then some { s with listening := false } else none
  | .stopConn =>
    match s.listening, s.stopping with
    | false, r :: rest =>
      match s.regs[r]? with
      | none => none
      | some g => some ({ s with stopping := rest }.closeConn g.conn)
    | _, _ => none

/-- The next state. After a panic there is none. -/
def next (a : Action) : Option Server := if s.panic.isSome then none else s.step a

/-! ## What a step can do -/

/-- All that the goroutine of connection `c` can do, by the place at which it
stands. -/
inductive Acts (c : Nat) : Handler → Event → Server → Prop
  | gone : Acts c .reading (.line none) ((s.closeConn c).goto c .done)
  | handle {line} : Acts c .reading (.line (some line)) (s.handle c line)
  -- `handleRegister`
  | register {peerID} : Acts c (.registering peerID) .run (s.register c peerID)
  | greet {r g} : s.regs[r]? = some g → s.isClosed c = false →
      Acts c (.greeting r) (.wrote true)
        (({ s with regs := s.regs.set r { g with writer := .ranging } }.writeLine c respOK).goto c
          (.listening r))
  | greetFails {r} : Acts c (.greeting r) (.wrote false) (s.goto c (.refused r))
  | giveUp {r} : Acts c (.refused r) .run ((s.dropRegistration r).goto c .done)
  | listen {r} : Acts c (.listening r) (.read true) (s.goto c (.listening r))
  | lose {r} : Acts c (.listening r) (.read false) (s.goto c (.dropping r))
  | drop {r} : Acts c (.dropping r) .run ((s.dropRegistration r).goto c (.closing r))
  | closeAgain {r g} : s.regs[r]? = some g → g.out.close = none →
      Acts c (.closing r) .run { s with panic := some (.closeOfClosed c r) }
  | close {r g out} : s.regs[r]? = some g → g.out.close = some out →
      Acts c (.closing r) .run ({ s with regs := s.regs.set r { g with out } }.goto c (.joining r))
  | join {r} : (s.regs[r]?.any fun g => g.writer = .done) = true →
      Acts c (.joining r) .run (s.goto c .done)
  -- `handleDial`
  | miss {peerID} : s.registrations.lookup peerID = none →
      Acts c (.dialing peerID) .run ((s.refuse c .peerNotRegistered).goto c .done)
  | find {peerID r} : s.registrations.lookup peerID = some r →
      Acts c (.dialing peerID) .run (s.goto c (.found r))
  | noRandom {r} : Acts c (.found r) (.random none) ((s.refuse c .internal).goto c .done)
  | pend {r bytes} : bytes.length = 16 →
      Acts c (.found r) (.random (some bytes)) (s.pend c r bytes)
  | push {r token ch g out} : s.regs[r]? = some g → g.out.trySend (openLine token) = .sent out →
      Acts c (.pushing r token ch) .run
        ({ s with regs := s.regs.set r { g with out } }.goto c (.waiting token ch))
  | pushFull {r token ch g} : s.regs[r]? = some g → g.out.trySend (openLine token) = .full →
      Acts c (.pushing r token ch) .run ((s.refuse c .peerQueueFull).goto c (.leaving token))
  | pushLate {r token ch g} : s.regs[r]? = some g → g.out.trySend (openLine token) = .panic →
      Acts c (.pushing r token ch) .run { s with panic := some (.sendOnClosed c r) }
  | receive {token ch q t q'} : s.tunnels[ch]? = some q → q.tryReceive = .item t q' →
      Acts c (.waiting token ch) .run
        ({ s with tunnels := s.tunnels.set ch q' }.goto c (.answering token t))
  | timeout {token ch} :
      Acts c (.waiting token ch) .timeout ((s.refuse c .timeout).goto c (.leaving token))
  | answer {token t} : s.isClosed c = false →
      Acts c (.answering token t) (.wrote true)
        ((s.writeLine c respOK).goto c (.confirming token t))
  | answerFails {token t} : Acts c (.answering token t) (.wrote false) (s.hangUp c t token)
  | confirm {token t} : s.isClosed t = false →
      Acts c (.confirming token t) (.wrote true) ((s.writeLine t respOK).goto c (.piping token t))
  | confirmFails {token t} : Acts c (.confirming token t) (.wrote false) (s.hangUp c t token)
  | pipeEnd {token t} : Acts c (.piping token t) .pipeEnd (s.hangUp c t token)
  | leave {token} :
      Acts c (.leaving token) .run ({ s with pending := s.pending.erase token }.goto c .done)
  -- `handleTunnel`
  | badToken {token} : s.pending.lookup token = none →
      Acts c (.tunnelling token) .run ((s.refuse c .badToken).goto c .done)
  | present {token ch} : s.pending.lookup token = some ch →
      Acts c (.tunnelling token) .run (s.goto c (.handing ch))
  | handOver {ch q q'} : s.tunnels[ch]? = some q → q.trySend c = .sent q' →
      Acts c (.handing ch) .run ({ s with tunnels := s.tunnels.set ch q' }.goto c .done)
  | race {ch q} : s.tunnels[ch]? = some q → q.trySend c = .full →
      Acts c (.handing ch) .run ((s.refuse c .race).goto c .done)

/-- All that a step can do. -/
inductive Steps : Action → Server → Prop
  | accept : s.listening = true →
      Steps .accept
        { s with handlers := s.handlers ++ [.reading], conns := s.conns ++ [⟨false, []⟩] }
  | handler {c h e s'} : s.handlers[c]? = some h → s.Acts c h e s' → Steps (.handler c e) s'
  -- the writer of a registration
  | take {r g line out} : s.regs[r]? = some g → g.out.tryReceive = .item line out →
      Steps (.writer r .run)
        { s with regs := s.regs.set r { g with out, writer := .writing line } }
  | ended {r g} : s.regs[r]? = some g → g.out.tryReceive = .ended →
      Steps (.writer r .run) { s with regs := s.regs.set r { g with writer := .done } }
  | write {r g line} : s.regs[r]? = some g → s.isClosed g.conn = false →
      Steps (.writer r (.wrote true))
        ({ s with regs := s.regs.set r { g with writer := .ranging } }.writeLine g.conn line)
  | writeFails {r g} : s.regs[r]? = some g →
      Steps (.writer r (.wrote false)) { s with regs := s.regs.set r { g with writer := .done } }
  -- `Stop`
  | stopAgain {order} : s.stopped = true → Steps (.stop order) s
  | stop {order} : order.Perm s.registered →
      Steps (.stop order) { s with stopped := true, stopping := order }
  | stopListener : s.stopped = true → Steps .stopListener { s with listening := false }
  | stopConn {r rest g} : s.stopping = r :: rest → s.regs[r]? = some g →
      Steps .stopConn ({ s with stopping := rest }.closeConn g.conn)

variable {s} {s' : Server} {a : Action} {c r : Nat} {e : Event} {h : Handler}

theorem closeQueue_acts (hStep : s.closeQueue c r = some s') : s.Acts c (.closing r) .run s' := by
  unfold closeQueue at hStep
  split at hStep
  case h_1 => cases hStep
  case h_2 g hReg =>
    split at hStep
    case h_1 hNone =>
      cases hStep
      exact .closeAgain hReg hNone
    case h_2 out hSome =>
      cases hStep
      exact .close hReg hSome

variable {ch : Nat} {token : GoString}

theorem push_acts (hStep : s.push c r token ch = some s') :
    s.Acts c (.pushing r token ch) .run s' := by
  unfold push at hStep
  split at hStep
  case h_1 => cases hStep
  case h_2 g hReg =>
    split at hStep
    case h_1 out hSent =>
      cases hStep
      exact .push hReg hSent
    case h_2 hFull =>
      cases hStep
      exact .pushFull hReg hFull
    case h_3 hPanic =>
      cases hStep
      exact .pushLate hReg hPanic

theorem receive_acts (hStep : s.receive c token ch = some s') :
    s.Acts c (.waiting token ch) .run s' := by
  unfold receive at hStep
  split at hStep
  case h_1 => cases hStep
  case h_2 q hChan =>
    split at hStep
    case h_1 t q' hItem =>
      cases hStep
      exact .receive hChan hItem
    case h_2 => cases hStep

theorem handOver_acts (hStep : s.handOver c ch = some s') : s.Acts c (.handing ch) .run s' := by
  unfold handOver at hStep
  split at hStep
  case h_1 => cases hStep
  case h_2 q hChan =>
    split at hStep
    case h_1 q' hSent =>
      cases hStep
      exact .handOver hChan hSent
    case h_2 hFull =>
      cases hStep
      exact .race hChan hFull
    case h_3 => cases hStep

theorem act_acts (hStep : s.act c h e = some s') : s.Acts c h e s' := by
  unfold act at hStep
  split at hStep
  case h_10 => exact closeQueue_acts hStep
  case h_15 => exact push_acts hStep
  case h_16 => exact receive_acts hStep
  case h_25 => exact handOver_acts hStep
  case h_26 => cases hStep
  -- steps that cannot be taken at any time
  case h_4 =>
    split at hStep
    case h_1 => cases hStep
    case h_2 g hReg =>
      obtain ⟨hOpen, ⟨⟩⟩ := ite_none_left_eq_some.mp hStep
      exact .greet hReg (Bool.eq_false_of_not_eq_true hOpen)
  case h_11 =>
    obtain ⟨hDone, ⟨⟩⟩ := ite_none_right_eq_some.mp hStep
    exact .join hDone
  case h_14 =>
    obtain ⟨hLength, ⟨⟩⟩ := ite_none_right_eq_some.mp hStep
    exact .pend hLength
  case h_18 =>
    obtain ⟨hOpen, ⟨⟩⟩ := ite_none_left_eq_some.mp hStep
    exact .answer (Bool.eq_false_of_not_eq_true hOpen)
  case h_20 =>
    obtain ⟨hOpen, ⟨⟩⟩ := ite_none_left_eq_some.mp hStep
    exact .confirm (Bool.eq_false_of_not_eq_true hOpen)
  -- the two maps
  case h_12 =>
    split at hStep
    case h_1 hNone =>
      cases hStep
      exact .miss hNone
    case h_2 r hFound =>
      cases hStep
      exact .find hFound
  case h_24 =>
    split at hStep
    case h_1 hNone =>
      cases hStep
      exact .badToken hNone
    case h_2 ch hFound =>
      cases hStep
      exact .present hFound
  -- and all the others
  all_goals
    cases hStep
    constructor

theorem write_steps (hStep : s.write r e = some s') : s.Steps (.writer r e) s' := by
  unfold write at hStep
  split at hStep
  case h_1 => cases hStep
  case h_2 g hReg =>
    split at hStep
    case h_1 =>
      split at hStep
      case h_1 line out hItem =>
        cases hStep
        exact .take hReg hItem
      case h_2 hEnded =>
        cases hStep
        exact .ended hReg hEnded
      case h_3 => cases hStep
    case h_2 =>
      obtain ⟨hOpen, ⟨⟩⟩ := ite_none_left_eq_some.mp hStep
      exact .write hReg (Bool.eq_false_of_not_eq_true hOpen)
    case h_3 =>
      cases hStep
      exact .writeFails hReg
    case h_4 => cases hStep

/-- **The steps of the relay**, each with the checks that led to it. -/
theorem step_steps (hStep : s.step a = some s') : s.Steps a s' := by
  unfold step at hStep
  split at hStep
  case h_1 =>
    obtain ⟨hListening, ⟨⟩⟩ := ite_none_right_eq_some.mp hStep
    exact .accept hListening
  case h_2 c e =>
    split at hStep
    case h_1 => cases hStep
    case h_2 h hAt => exact .handler hAt (act_acts hStep)
  case h_3 => exact write_steps hStep
  case h_4 =>
    split at hStep
    case isTrue hStopped =>
      cases hStep
      exact .stopAgain hStopped
    case isFalse =>
      obtain ⟨hPerm, ⟨⟩⟩ := ite_none_right_eq_some.mp hStep
      exact .stop hPerm
  case h_5 =>
    obtain ⟨hStopped, ⟨⟩⟩ := ite_none_right_eq_some.mp hStep
    exact .stopListener hStopped
  case h_6 =>
    split at hStep
    case h_1 r rest _ hStopping =>
      split at hStep
      case h_1 => cases hStep
      case h_2 g hReg =>
        cases hStep
        exact .stopConn hStopping hReg
    case h_2 => cases hStep

end Server

end AltNet.Relay
