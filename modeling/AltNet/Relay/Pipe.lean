import AltNet.Lib.Line
import AltNet.Lib.Wire
import AltNet.Relay.Server

/-!
# AltNet — a tunnel, byte by byte (`core/relay/client.go`, `core/relay/server.go`)

A dialer calls `DialVia`, the registered peer `openTunnel`. Each opens a
connection to the relay, writes its command and reads the response line through
a `bufio.Reader`, which may take more from the connection than that line. The
relay reads the commands through buffers of its own, which it then drops; it
answers both sides and copies bytes in both directions.

The two connections are four wires. How the bytes on them are cut into pieces,
how many a failing write still gets through and when a connection breaks is up
to the network.

Of the relay this has the two goroutines of the tunnel and no more than where
they touch the connections: what they look up and wait for in between only
decides whether `handleDial` gets the other connection (`receive`) or the
connections are refused.
-/

namespace AltNet.Relay

/-! ## The lines as bytes -/

/-- `MaxLineSize`. -/
def maxLineSize : Nat := 256

/-- A text of ASCII characters as bytes, and back. -/
def textBytes (text : GoString) : Bytes := text.map fun c => UInt8.ofNat c.toNat

def bytesText (bs : Bytes) : GoString := bs.map fun b => Char.ofNat b.toNat

/-- What `writeLine` sends. -/
def lineBytes (line : GoString) : Bytes := textBytes line ++ [lineFeed]

/-- The response `OK`. -/
def okBytes : Bytes := lineBytes respOK

/-! ## The state -/

inductive Side where
  | dialer
  | peer
  deriving DecidableEq

def Side.other : Side → Side
  | .dialer => .peer
  | .peer => .dialer

/-- The command with which a side begins. -/
def command (peerID token : GoString) : Side → GoString
  | .dialer => cmdDial ++ ' ' :: peerID
  | .peer => cmdTunnel ++ ' ' :: token

/-- Where `DialVia` or `openTunnel` stands, or the caller that it has given the
connection to. -/
inductive Client where
  /-- about to write the command -/
  | fresh
  /-- reading the response, of which `bufio` has these bytes -/
  | awaiting (seen : Bytes)
  /-- the caller has the connection; these bytes are still to be read before it -/
  | connected (buffered : Bytes)
  | closed
  deriving DecidableEq

/-- Where the goroutine of a connection stands at the relay: `handle` is reading
the first line, one of the other functions has the connection, or it has been
closed without one. -/
inductive Leg where
  | reading (seen : Bytes)
  | dispatched (h : Handler)
  | closed
  deriving DecidableEq

/-- The goroutine of `pipe` that reads from a side: not started, about to read,
about to write, or returned. -/
inductive Copier where
  | idle
  | reading
  | writing (buf : Bytes)
  | ended
  deriving DecidableEq

def Copier.held : Copier → Bytes
  | .writing buf => buf
  | _ => []

/-- Where `handleDial` stands: waiting for the other connection, about to write
`OK` to the dialer, to the peer, in `pipe`, about to close the second connection,
or done. -/
inductive Phase where
  | waiting
  | answering
  | confirming
  | piping
  | closing
  | done
  deriving DecidableEq

/-- One side: the client, the two wires, the goroutine at the relay and the
copier that reads from this side. The rest is history: what the caller has
written and read, and what the copier has written to the other side. -/
structure End where
  client : Client
  up : Wire
  down : Wire
  leg : Leg
  copier : Copier
  written : Bytes
  read : Bytes
  copied : Bytes

structure Pipe where
  ends : Side → End
  phase : Phase

inductive ClientAction where
  /-- writes the command, of which `n` bytes get through -/
  | command (n : Nat)
  /-- `bufio` reads `k` bytes -/
  | fill (k : Nat)
  /-- `bufio` comes to the end of the stream -/
  | fillEnd
  /-- an error, or the caller is through with the connection -/
  | close
  | write (bs : Bytes)
  /-- a `Read` into a buffer of `size` bytes; the connection would give `k` -/
  | read (size k : Nat)
  deriving DecidableEq

inductive LegAction where
  /-- `bufio` reads `k` bytes -/
  | fill (k : Nat)
  | fillEnd
  | fail
  deriving DecidableEq

inductive PipeAction where
  | client (d : Side) (a : ClientAction)
  | leg (d : Side) (a : LegAction)
  | refuse (d : Side) (e : Refusal)
  /-- `handleDial` gets the other connection -/
  | receive
  /-- writes `OK`, of which `n` bytes get through -/
  | answer (n : Nat)
  | confirm (n : Nat)
  /-- a copier reads `k` bytes, writes them, or fails to read -/
  | copy (d : Side) (k : Nat)
  | forward (d : Side) (n : Nat)
  | copyEnd (d : Side)
  /-- `pipe` closes the first connection -/
  | pipeEnd
  | hangUp
  /-- a wire breaks, to the relay or from it -/
  | sever (d : Side) (up : Bool)
  deriving DecidableEq

/-! ## The client -/

namespace End

variable (e : End)

def init : End where
  client := .fresh
  up := .empty
  down := .empty
  leg := .reading []
  copier := .idle
  written := []
  read := []
  copied := []

/-- What the client makes of the response. The caller is given first what came
with it. -/
def respond (resp rest : Bytes) : End :=
  { e with client := if textBytes respOK <+: resp then .connected rest else .closed }

/-- `readLine` on what `bufio` has by now. -/
def readResponse (seen : Bytes) : End :=
  match splitLine seen with
  | none => { e with client := .awaiting seen }
  | some (line, rest) =>
    if maxLineSize < line.length then { e with client := .closed }
    else e.respond (trimLine line) rest

/-- A step of the client. At the end of the stream `readLine` accepts a line
without line feed; that the relay has closed the connection is `hungUp`. -/
def clientStep (line : GoString) (hungUp : Bool) : ClientAction → Option End
  | .command n =>
    if e.client = .fresh then
      if maxLineSize < line.length then some { e with client := .closed }
      else some { e with
        client := if (lineBytes line).length ≤ n then .awaiting [] else .closed
        up := e.up.send ((lineBytes line).take n) }
    else none
  | .fill k =>
    match e.client, e.down.receive k with
    | .awaiting seen, some (bs, down) => some ({ e with down }.readResponse (seen ++ bs))
    | _, _ => none
  | .fillEnd =>
    match e.client with
    | .awaiting seen =>
      if hungUp ∧ e.down.onWay = [] then
        some (if seen = [] then { e with client := .closed } else e.respond (trimLine seen) [])
      else none
    | _ => none
  | .close => some { e with client := .closed }
  | .write bs =>
    match e.client with
    | .connected _ => some { e with up := e.up.send bs, written := e.written ++ bs }
    | _ => none
  -- `prefixConn.Read`
  | .read size k =>
    match e.client with
    | .connected buffered =>
      if buffered ≠ [] then
        some { e with
          client := .connected (buffered.drop size)
          read := e.read ++ buffered.take size }
      else if size < k then none
      else
        match e.down.receive k with
        | some (bs, down) => some { e with down, read := e.read ++ bs }
        | none => none
    | _ => none

/-! ## The first line at the relay -/

/-- The relay writes to this side. -/
def send (bs : Bytes) : End := { e with down := e.down.send bs }

/-- Writes an `ERR` and closes the connection. -/
def refuse (r : Refusal) : End := { e.send (lineBytes r.line) with leg := .closed }

def dispatch (line : Bytes) : End :=
  match Server.dispatch (bytesText line) with
  | .ok h => { e with leg := .dispatched h }
  | .error r => e.refuse r

/-- `readLine` on what `bufio` has by now. What comes after the line goes with
the buffer, except for a `REGISTER`. -/
def readCommand (seen : Bytes) : End :=
  match splitLine seen with
  | none => { e with leg := .reading seen }
  | some (line, _) =>
    if maxLineSize < line.length then { e with leg := .closed } else e.dispatch (trimLine line)

/-- A step of `handle`. -/
def legStep : LegAction → Option End
  | .fill k =>
    match e.leg, e.up.receive k with
    | .reading seen, some (bs, up) => some ({ e with up }.readCommand (seen ++ bs))
    | _, _ => none
  | .fillEnd =>
    match e.leg with
    | .reading seen =>
      if e.client = .closed ∧ e.up.onWay = [] then
        some (if seen = [] then { e with leg := .closed } else e.dispatch (trimLine seen))
      else none
    | _ => none
  | .fail =>
    match e.leg with
    | .reading _ => some { e with leg := .closed }
    | _ => none

end End

/-! ## The tunnel -/

namespace Pipe

variable (x : Pipe)

def init : Pipe := ⟨fun _ => .init, .waiting⟩

def setEnd (d : Side) (e : End) : Pipe := { x with ends := Function.update x.ends d e }

/-- Whether the relay has closed the connection of a side. The dialer's is
closed first. -/
def hungUp (d : Side) : Bool :=
  (x.ends d).leg = .closed || x.phase = .done || (x.phase = .closing && d = .dialer)

/-- `handleDial` writes `OK` to a side. A failure makes it close both
connections. -/
def sendOK (d : Side) (n : Nat) (phase : Phase) : Pipe :=
  { x.setEnd d ((x.ends d).send (okBytes.take n)) with
    phase := if okBytes.length ≤ n then phase else .closing }

/-- `pipe` starts its two goroutines. -/
def start : Pipe := { x with ends := fun d => { x.ends d with copier := .reading } }

/-- `dst.Write(buf[:n])`, which ends the copier when it fails. -/
def forward (d : Side) (buf : Bytes) (n : Nat) : Pipe :=
  if x.hungUp d.other then x.setEnd d { x.ends d with copier := .ended }
  else
    (x.setEnd d { x.ends d with
      copier := if buf.length ≤ n then .reading else .ended
      copied := (x.ends d).copied ++ buf.take n }).setEnd d.other
        ((x.ends d.other).send (buf.take n))

/-- The next state; `none` when the step cannot be taken. -/
def next (peerID token : GoString) : PipeAction → Option Pipe
  | .client d a =>
    ((x.ends d).clientStep (command peerID token d) (x.hungUp d) a).map (x.setEnd d)
  | .leg d a => ((x.ends d).legStep a).map (x.setEnd d)
  | .refuse d r =>
    match x.phase, (x.ends d).leg with
    | .waiting, .dispatched _ => some (x.setEnd d ((x.ends d).refuse r))
    | _, _ => none
  | .receive =>
    match x.phase, (x.ends .dialer).leg, (x.ends .peer).leg with
    | .waiting, .dispatched (.dialing _), .dispatched (.tunnelling _) =>
      some { x with phase := .answering }
    | _, _, _ => none
  | .answer n => if x.phase = .answering then some (x.sendOK .dialer n .confirming) else none
  | .confirm n =>
    if x.phase = .confirming then
      some (if okBytes.length ≤ n then (x.sendOK .peer n .piping).start
        else x.sendOK .peer n .piping)
    else none
  | .copy d k =>
    match (x.ends d).copier, (x.ends d).up.receive k with
    | .reading, some (bs, up) =>
      if x.hungUp d ∨ 32 * 1024 < k then none
      else some (x.setEnd d { x.ends d with up, copier := .writing bs })
    | _, _ => none
  | .forward d n =>
    match (x.ends d).copier with
    | .writing buf => some (x.forward d buf n)
    | _ => none
  | .copyEnd d =>
    if (x.ends d).copier = .reading then
      some (x.setEnd d { x.ends d with copier := .ended })
    else none
  | .pipeEnd =>
    if x.phase = .piping ∧ ((x.ends .dialer).copier = .ended ∨ (x.ends .peer).copier = .ended) then
      some { x with phase := .closing }
    else none
  | .hangUp => if x.phase = .closing then some { x with phase := .done } else none
  | .sever d true => some (x.setEnd d { x.ends d with up := (x.ends d).up.sever })
  | .sever d false => some (x.setEnd d { x.ends d with down := (x.ends d).down.sever })

end Pipe

end AltNet.Relay
