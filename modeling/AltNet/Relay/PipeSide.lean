import AltNet.Relay.Pipe

/-!
# AltNet — the bytes of a tunnel on one side

Neither `bufio.Reader` of the relay ever takes bytes of the caller with it: a
client writes nothing after its command before it has a response, and a
response only comes once the relay has read the command up to its line feed.
The other way, what a client's `bufio.Reader` takes beyond the response begins
right after the line feed of `OK`, and `prefixConn` hands it out before
anything else. So on each wire the line stands in front and the bytes of the
callers follow it.

`Outgoing`, `Taken` and `Incoming` say this of one side: of the wire to the
relay as its client has filled it and as the relay has read it, and of the wire
back. At the end of a stream `readLine` also accepts a line without line feed;
then nothing follows it (`Spent`, `Drained`).

Main results:

* `End.Local.clientStep`, `End.Local.legStep` — the steps of the client and of
  `handle` keep this;
* `End.Local.copied_front`, `End.Local.read_follows` — what the relay copies
  was written, and what the caller reads follows the `OK`;
* `End.Local.written_eq` — nothing is lost on the way to the relay.
-/

namespace AltNet.Relay

open List

/-! ## The lines -/

/-- What the relay has written to a side begins with `OK`, or is a part of it,
or is an `ERR`. -/
inductive Reply : Bytes → Prop
  | ok (more : Bytes) : Reply (okBytes ++ more)
  | part {sent : Bytes} (hPart : sent <+: okBytes) : Reply sent
  | refused (r : Refusal) : Reply (lineBytes r.line)

theorem lineFeed_not_mem_ok : lineFeed ∉ textBytes respOK := by decide

theorem refusal_not_ok (r : Refusal) : ¬ textBytes respOK <+: lineBytes r.line := by
  cases r <;> decide

variable {c : Client} {read sent : Bytes}

/-- A response that counts as `OK` is that line, and the rest is what follows
it. -/
theorem Reply.line {line rest : Bytes} (hReply : Reply sent)
    (hSplit : splitLine (line ++ rest) = some (line, rest)) (hSent : line ++ rest <+: sent)
    (hOK : textBytes respOK <+: trimLine line) : line = okBytes := by
  obtain ⟨body, hBody, hLine, -⟩ := splitLine_some hSplit
  -- the bytes that have arrived begin with the line, and so does anything they begin
  have hFront : ∀ more, line ++ rest <+: okBytes ++ more → line = okBytes := by
    intro more hMore
    obtain ⟨t, ht⟩ := hMore
    rw [hLine, okBytes, lineBytes, append_assoc, append_assoc, append_assoc] at ht
    rw [hLine, okBytes, lineBytes, (line_unique hBody lineFeed_not_mem_ok ht).1]
  cases hReply with
  | ok more => exact hFront more hSent
  | part hPart => exact hFront [] (by rw [append_nil]; exact hSent.trans hPart)
  | refused r =>
    have hTrim : trimLine line <+: line := rdropWhile_prefix _ _
    have hWhole : line <+: lineBytes r.line := (prefix_append line rest).trans hSent
    exact absurd ((hOK.trans hTrim).trans hWhole) (refusal_not_ok r)

/-- A command that the relay has read to the end of a line is the whole
command. -/
theorem command_line {text line rest : Bytes} (hText : lineFeed ∉ text)
    (hSplit : splitLine (line ++ rest) = some (line, rest))
    (hSent : line ++ rest <+: text ++ [lineFeed]) : line ++ rest = text ++ [lineFeed] := by
  obtain ⟨body, hBody, hLine, -⟩ := splitLine_some hSplit
  obtain ⟨t, ht⟩ := hSent
  rw [hLine, append_assoc, append_assoc] at ht
  obtain ⟨hEq, hRest⟩ : body = text ∧ rest ++ t = [] := line_unique hBody hText ht
  obtain ⟨rfl, -⟩ := append_eq_nil_iff.mp hRest
  rw [hLine, hEq, append_nil]

/-! ## One side -/

/-- **To the relay, as written**: the command, then the bytes of the caller. A
client that fails may have sent a part of the command. -/
def Outgoing (cmd sent written : Bytes) : Client → Prop
  | .fresh => sent = [] ∧ written = []
  | .awaiting _ => sent = cmd ∧ written = []
  | .connected _ => sent = cmd ++ written
  | .closed => sent <+: cmd ∧ written = [] ∨ sent = cmd ++ written

/-- **To the relay, as read**: first `handle` has it all; later the command is
gone, and the rest was copied or is in the copier's buffer. -/
def Taken (cmd : Bytes) (last : Prop) (copier : Copier) (arrived copied : Bytes) : Leg → Prop
  | .reading seen => copier = .idle ∧ copied = [] ∧ arrived = seen
  | .closed => copier = .idle ∧ copied = []
  | .dispatched _ =>
    (copier = .idle → copied = []) ∧
      (arrived = cmd ++ copied ++ copier.held ∨
        copier = .ended ∧ cmd ++ copied <+: arrived ∨
        last ∧ copied = [] ∧ copier.held = [])

/-- **From the relay**: the line, then what the caller has read, then what is
still buffered. -/
def Incoming (last : Prop) (arrived read : Bytes) : Client → Prop
  | .fresh => arrived = [] ∧ read = []
  | .awaiting seen => arrived = seen ∧ read = []
  | .connected buffered =>
    arrived = okBytes ++ read ++ buffered ∨ last ∧ buffered = [] ∧ read = []
  | .closed => read = [] ∨ okBytes ++ read <+: arrived

variable {cmd arrived : Bytes} {last last' : Prop}

theorem Incoming.mono (h : Incoming last arrived read c) (hLast : last → last') :
    Incoming last' arrived read c := by
  cases c with
  | connected buffered => exact h.imp id fun hEnd => ⟨hLast hEnd.1, hEnd.2⟩
  | fresh => exact h
  | awaiting seen => exact h
  | closed => exact h

theorem Taken.mono {leg : Leg} {copier : Copier} {copied : Bytes}
    (h : Taken cmd last copier arrived copied leg) (hLast : last → last') :
    Taken cmd last' copier arrived copied leg := by
  cases leg with
  | dispatched _ => exact ⟨h.1, h.2.imp id (Or.imp id fun hEnd => ⟨hLast hEnd.1, hEnd.2⟩)⟩
  | reading seen => exact h
  | closed => exact h

theorem Outgoing.close {written : Bytes} (h : Outgoing cmd sent written c) :
    Outgoing cmd sent written .closed := by
  cases c with
  | fresh => exact .inl ⟨h.1 ▸ nil_prefix, h.2⟩
  | awaiting seen => exact .inl ⟨h.1 ▸ prefix_refl sent, h.2⟩
  | connected buffered => exact .inr h
  | closed => exact h

/-- A caller that has written nothing has at most sent the command. -/
theorem Outgoing.unwritten (h : Outgoing cmd sent [] c) : sent <+: cmd := by
  rcases h.close with hPart | hAll
  · exact hPart.1
  · exact (hAll.trans (append_nil cmd)) ▸ prefix_refl sent

theorem eq_nil_of_append_isPrefix {as bs : Bytes} (h : as ++ bs <+: as) : bs = [] := by
  have hLength := h.length_le
  rw [length_append] at hLength
  exact eq_nil_of_length_eq_zero (by omega)

/-- What follows the command was written by the caller. -/
theorem Outgoing.after {written bs : Bytes} (h : Outgoing cmd sent written c)
    (hPart : cmd ++ bs <+: sent) : bs <+: written := by
  rcases h.close with ⟨hCmd, -⟩ | rfl
  · rw [eq_nil_of_append_isPrefix (hPart.trans hCmd)]
    exact nil_prefix
  · exact (prefix_append_right_inj cmd).mp hPart

theorem Outgoing.rest {written bs : Bytes} (h : Outgoing cmd (cmd ++ bs) written c) :
    written = bs := by
  rcases h.close with ⟨hCmd, hWritten⟩ | hAll
  · rw [hWritten, eq_nil_of_append_isPrefix hCmd]
  · exact (append_cancel_left hAll).symm

theorem Incoming.close (h : Incoming last arrived read c) : Incoming last arrived read .closed := by
  cases c with
  | fresh => exact .inl h.2
  | awaiting seen => exact .inl h.2
  | connected buffered =>
    rcases h with hAll | hEnd
    · exact .inr (hAll ▸ prefix_append _ buffered)
    · exact .inl hEnd.2.2
  | closed => exact h

namespace End

variable (e : End)

/-- Nothing more will come from the client, and the caller has never had the
connection. -/
def Spent : Prop := e.client = .closed ∧ e.up.arrived = e.up.sent ∧ e.written = []

/-- Nothing more will come from the relay. -/
def Drained (hungUp : Bool) : Prop := hungUp = true ∧ e.down.arrived = e.down.sent

/-- What holds on one side. -/
structure Local (cmd : Bytes) (hungUp : Bool) : Prop where
  outgoing : Outgoing cmd e.up.sent e.written e.client
  taken : Taken cmd e.Spent e.copier e.up.arrived e.copied e.leg
  incoming : Incoming (e.Drained hungUp) e.down.arrived e.read e.client
  quiet : ∀ seen, e.leg = .reading seen → e.written = []

variable {e} {cmd : Bytes} {hungUp : Bool}

theorem Local.init : End.init.Local cmd hungUp where
  outgoing := ⟨rfl, rfl⟩
  taken := ⟨rfl, rfl, rfl⟩
  incoming := ⟨rfl, rfl⟩
  quiet := fun _ _ => rfl

/-! ## The steps of a client -/

/-- What a step of a client leaves alone. -/
structure ClientOnly (e e' : End) : Prop where
  leg : e'.leg = e.leg
  copier : e'.copier = e.copier
  copied : e'.copied = e.copied
  sent : e'.down.sent = e.down.sent
  arrived : e'.up.arrived = e.up.arrived

variable {bs buffered : Bytes} {down up : Wire} {e' : End} {hungUp' : Bool} {k : Nat}

theorem readResponse_only (hSent : down.sent = e.down.sent) (seen : Bytes) :
    ClientOnly e ({ e with down }.readResponse seen) := by
  unfold End.readResponse
  split
  case h_1 => exact ⟨rfl, rfl, rfl, hSent, rfl⟩
  case h_2 =>
    split
    · exact ⟨rfl, rfl, rfl, hSent, rfl⟩
    · exact ⟨rfl, rfl, rfl, hSent, rfl⟩

/-- What such a step has to show. -/
theorem Local.of_client (h : e.Local cmd hungUp) (hOnly : ClientOnly e e')
    (hSpent : e.Spent → e'.Spent) (hOut : Outgoing cmd e'.up.sent e'.written e'.client)
    (hIn : Incoming (e'.Drained hungUp) e'.down.arrived e'.read e'.client)
    (hQuiet : ∀ seen, e.leg = .reading seen → e'.written = []) :
    e'.Local cmd hungUp where
  outgoing := hOut
  taken := by
    rw [hOnly.leg, hOnly.copier, hOnly.copied, hOnly.arrived]
    exact h.taken.mono hSpent
  incoming := hIn
  quiet := by
    rw [hOnly.leg]
    exact hQuiet

theorem not_spent {P : Prop} {c : Client} (hClient : e.client = c) (hOpen : c ≠ .closed) :
    e.Spent → P :=
  fun hSpent => absurd (hClient.symm.trans hSpent.1) hOpen

variable (h : e.Local cmd hungUp)

include h

/-- The client gives up. -/
theorem Local.close : { e with client := .closed }.Local cmd hungUp :=
  h.of_client ⟨rfl, rfl, rfl, rfl, rfl⟩ (fun hSpent => ⟨rfl, hSpent.2⟩) h.outgoing.close
    h.incoming.close h.quiet

/-- The client writes its command. -/
theorem Local.command (hClient : e.client = .fresh) (n : Nat) :
    { e with
      client := if cmd.length ≤ n then .awaiting [] else .closed
      up := e.up.send (cmd.take n) }.Local cmd hungUp := by
  have hOut := h.outgoing
  have hIn := h.incoming
  rw [hClient] at hOut hIn
  obtain ⟨hSent, hWritten⟩ := hOut
  obtain ⟨hArrived, hRead⟩ := hIn
  refine h.of_client ⟨rfl, rfl, rfl, rfl, e.up.arrived_send _⟩
    (not_spent hClient nofun) ?_ ?_ h.quiet
  · show Outgoing cmd (e.up.sent ++ cmd.take n) e.written _
    rw [hSent, nil_append]
    split
    case isTrue hAll => exact ⟨take_of_length_le hAll, hWritten⟩
    case isFalse => exact .inl ⟨ take_prefix n cmd, hWritten⟩
  · show Incoming _ e.down.arrived e.read _
    split
    case isTrue => exact ⟨hArrived, hRead⟩
    case isFalse => exact .inl hRead

/-- The client has its response. -/
theorem Local.respond {seen resp rest : Bytes} (hClient : e.client = .awaiting seen)
    (hIn : textBytes respOK <+: resp → Incoming (e.Drained hungUp) e.down.arrived [] (.connected
      rest)) : (e.respond resp rest).Local cmd hungUp := by
  have hOut := h.outgoing
  have hOld := h.incoming
  rw [hClient] at hOut hOld
  obtain ⟨hSent, hWritten⟩ := hOut
  obtain ⟨-, hRead⟩ := hOld
  unfold End.respond
  split
  case isTrue hOK =>
    refine h.of_client ⟨rfl, rfl, rfl, rfl, rfl⟩ (not_spent hClient nofun) ?_ ?_
      h.quiet
    · show e.up.sent = cmd ++ e.written
      rw [hSent, hWritten, append_nil]
    · show Incoming (e.Drained hungUp) e.down.arrived e.read (.connected rest)
      rw [hRead]
      exact hIn hOK
  case isFalse => exact h.close

/-- `bufio` has read more of the response. -/
theorem Local.fill (hReply : Reply e.down.sent) {seen : Bytes}
    (hClient : e.client = .awaiting seen) (hBytes : e.down.receive k = some (bs, down)) :
    ({ e with down }.readResponse (seen ++ bs)).Local cmd hungUp := by
  obtain ⟨hSent, hArrived⟩ := Wire.receive_some hBytes
  have hOut := h.outgoing
  have hIn := h.incoming
  rw [hClient] at hOut hIn
  obtain ⟨hSeen, hRead⟩ := hIn
  rw [hSeen] at hArrived
  -- first the bytes reach the buffer, then `readLine` looks at them
  have hFilled : { e with down, client := .awaiting (seen ++ bs) }.Local cmd hungUp :=
    h.of_client ⟨rfl, rfl, rfl, hSent, rfl⟩ (not_spent hClient nofun) hOut
      ⟨hArrived, hRead⟩ h.quiet
  unfold End.readResponse
  split
  case h_1 => exact hFilled
  case h_2 line rest hSplit =>
    split
    case isTrue => exact hFilled.close
    case isFalse =>
      refine hFilled.respond rfl fun hOK => .inl ?_
      obtain ⟨body, -, hLine, hAll⟩ := splitLine_some hSplit
      have hWhole : seen ++ bs = line ++ rest := by
        rw [hAll, hLine, append_assoc]
        rfl
      rw [hWhole] at hSplit hArrived
      have hFront := hReply.line hSplit (hSent ▸ hArrived ▸ down.arrived_prefix_sent) hOK
      show down.arrived = _
      rw [hArrived, hFront, append_nil]

/-- The caller writes, which it can only do once the relay has answered. -/
theorem Local.write (hSilent : ∀ seen, e.leg = .reading seen → e.down.sent = [] ∧ hungUp = false)
    (hClient : e.client = .connected buffered) (bs : Bytes) :
    { e with up := e.up.send bs, written := e.written ++ bs }.Local cmd hungUp := by
  have hOut := h.outgoing
  have hIn := h.incoming
  rw [hClient] at hOut hIn
  refine h.of_client ⟨rfl, rfl, rfl, rfl, e.up.arrived_send bs⟩
    (not_spent hClient nofun) ?_ h.incoming ?_
  · show Outgoing cmd (e.up.sent ++ bs) (e.written ++ bs) e.client
    rw [hClient]
    show e.up.sent ++ bs = cmd ++ (e.written ++ bs)
    rw [← append_assoc, ← show e.up.sent = cmd ++ e.written from hOut]
  · intro seen hLeg
    obtain ⟨hSent, hOpen⟩ := hSilent seen hLeg
    have hNone : e.down.arrived = [] :=
      prefix_nil.mp (hSent ▸ e.down.arrived_prefix_sent)
    rcases hIn with hAll | hEnd
    · rw [hNone, append_assoc] at hAll
      exact absurd (append_eq_nil_iff.mp hAll.symm).1 (by decide)
    · exact absurd (hOpen.symm.trans hEnd.1.1) Bool.false_ne_true

/-- `prefixConn` hands out what is buffered. -/
theorem Local.readBuffered (hClient : e.client = .connected buffered) (hSome : buffered ≠ [])
    (size : Nat) :
    { e with
      client := .connected (buffered.drop size)
      read := e.read ++ buffered.take size }.Local cmd hungUp := by
  have hOut := h.outgoing
  have hIn := h.incoming
  rw [hClient] at hOut hIn
  refine h.of_client ⟨rfl, rfl, rfl, rfl, rfl⟩ (not_spent hClient nofun) hOut ?_
    h.quiet
  rcases hIn with hAll | hEnd
  · refine .inl ?_
    show e.down.arrived = okBytes ++ (e.read ++ buffered.take size) ++ buffered.drop size
    rw [hAll, append_assoc, append_assoc, append_assoc, take_append_drop]
  · exact absurd hEnd.2.1 hSome

/-- After that the caller reads from the connection. -/
theorem Local.readDirect (hClient : e.client = .connected [])
    (hBytes : e.down.receive k = some (bs, down)) :
    { e with down, read := e.read ++ bs }.Local cmd hungUp := by
  obtain ⟨hSent, hArrived⟩ := Wire.receive_some hBytes
  have hIn := h.incoming
  rw [hClient] at hIn
  refine h.of_client ⟨rfl, rfl, rfl, hSent, rfl⟩ (not_spent hClient nofun)
    h.outgoing ?_ h.quiet
  show Incoming _ down.arrived (e.read ++ bs) e.client
  rw [hClient]
  rcases hIn with hAll | ⟨⟨hHung, hLast⟩, -, hRead⟩
  · refine .inl ?_
    rw [hArrived, hAll, append_nil, append_nil, append_assoc]
  -- at the end of the stream a read brings nothing
  obtain rfl := Wire.receive_drained hBytes hLast
  rw [append_nil] at hArrived
  exact .inr ⟨⟨hHung, hArrived.trans (hLast.trans hSent.symm)⟩, rfl, by rw [hRead]; rfl⟩

omit h

/-- **A step of a client** keeps what holds on its side, and the relay's part of
it. -/
theorem Local.clientStep {line : GoString} {a : ClientAction}
    (h : e.Local (lineBytes line) hungUp) (hReply : Reply e.down.sent)
    (hSilent : ∀ seen, e.leg = .reading seen → e.down.sent = [] ∧ hungUp = false)
    (hStep : e.clientStep line hungUp a = some e') :
    ClientOnly e e' ∧ e'.Local (lineBytes line) hungUp := by
  have hSame : ∀ {c : Client} {read : Bytes}, ClientOnly e { e with client := c, read } :=
    ⟨rfl, rfl, rfl, rfl, rfl⟩
  cases a with
  | command n =>
    rw [End.clientStep] at hStep
    split at hStep
    case isFalse => cases hStep
    case isTrue hClient =>
      split at hStep
      case isTrue =>
        cases hStep
        exact ⟨hSame, h.close⟩
      case isFalse =>
        cases hStep
        exact ⟨⟨rfl, rfl, rfl, rfl, e.up.arrived_send _⟩, h.command hClient n⟩
  | fill k =>
    rw [End.clientStep] at hStep
    split at hStep
    case h_1 seen bs down hClient hBytes =>
      cases hStep
      exact ⟨readResponse_only (Wire.receive_some hBytes).1 _, h.fill hReply hClient hBytes⟩
    case h_2 => cases hStep
  | fillEnd =>
    rw [End.clientStep] at hStep
    split at hStep
    case h_2 => cases hStep
    case h_1 seen hClient =>
      split at hStep
      case isFalse => cases hStep
      case isTrue hEnd =>
        cases hStep
        split
        case isTrue => exact ⟨hSame, h.close⟩
        case isFalse =>
          exact ⟨hSame, h.respond hClient fun _ =>
            .inr ⟨⟨hEnd.1, e.down.arrived_of_onWay hEnd.2⟩, rfl, rfl⟩⟩
  | close =>
    cases hStep
    exact ⟨hSame, h.close⟩
  | write bs =>
    rw [End.clientStep] at hStep
    split at hStep
    case h_1 buffered hClient =>
      cases hStep
      exact ⟨⟨rfl, rfl, rfl, rfl, e.up.arrived_send bs⟩, h.write hSilent hClient bs⟩
    case h_2 => cases hStep
  | read size k =>
    rw [End.clientStep] at hStep
    split at hStep
    case h_2 => cases hStep
    case h_1 buffered hClient =>
      split at hStep
      case isTrue hSome =>
        cases hStep
        exact ⟨hSame, h.readBuffered hClient hSome size⟩
      case isFalse hNone =>
        obtain rfl := not_not.mp hNone
        obtain ⟨-, hStep⟩ := Option.ite_none_left_eq_some.mp hStep
        split at hStep
        case h_1 bs down hBytes =>
          cases hStep
          exact ⟨⟨rfl, rfl, rfl, (Wire.receive_some hBytes).1, rfl⟩, h.readDirect hClient hBytes⟩
        case h_2 => cases hStep

/-! ## The steps of the relay on one side -/

/-- What the relay's steps before the tunnel is up leave alone. -/
structure RelayOnly (e e' : End) : Prop where
  client : e'.client = e.client
  written : e'.written = e.written
  read : e'.read = e.read
  sent : e'.up.sent = e.up.sent
  arrived : e'.down.arrived = e.down.arrived
  copier : e'.copier = e.copier
  copied : e'.copied = e.copied

/-- What such a step has to show. Before it the connection is open. -/
theorem Local.of_relay (h : e.Local cmd hungUp) (hOnly : RelayOnly e e') (hOpen : hungUp = false)
    (hTaken : Taken cmd e'.Spent e'.copier e'.up.arrived e'.copied e'.leg)
    (hQuiet : ∀ seen, e'.leg = .reading seen → e.written = []) :
    e'.Local cmd hungUp' where
  outgoing := by
    rw [hOnly.client, hOnly.sent, hOnly.written]
    exact h.outgoing
  taken := hTaken
  incoming := by
    rw [hOnly.client, hOnly.arrived, hOnly.read]
    exact h.incoming.mono fun hLast => absurd (hOpen.symm.trans hLast.1) Bool.false_ne_true
  quiet := by
    rw [hOnly.written]
    exact hQuiet

/-- The relay closes the connection, perhaps with a last line. -/
theorem Local.refused (h : e.Local cmd hungUp) (hOnly : RelayOnly e e') (hOpen : hungUp = false)
    (hIdle : e.copier = .idle) (hCopied : e.copied = []) (hLeg : e'.leg = .closed) :
    e'.Local cmd hungUp' := by
  refine h.of_relay hOnly hOpen ?_ ?_
  · rw [hLeg]
    exact ⟨hOnly.copier.trans hIdle, hOnly.copied.trans hCopied⟩
  · rw [hLeg]
    exact nofun

/-- The command is dispatched: it was all that had arrived. -/
theorem Local.dispatch (h : e.Local cmd hungUp) (hOpen : hungUp = false)
    (hIdle : e.copier = .idle) (hCopied : e.copied = []) (hAll : e.up.arrived = cmd ∨ e.Spent)
    (line : Bytes) : (e.dispatch line).Local cmd hungUp' := by
  unfold End.dispatch
  split
  case h_1 handler _ =>
    refine h.of_relay ⟨rfl, rfl, rfl, rfl, rfl, rfl, rfl⟩ hOpen ⟨fun _ => hCopied, ?_⟩ nofun
    rcases hAll with hCmd | hSpent
    · refine .inl ?_
      show e.up.arrived = cmd ++ e.copied ++ e.copier.held
      rw [hCmd, hCopied, hIdle, append_nil]
      exact (append_nil cmd).symm
    · refine .inr (.inr ⟨hSpent, hCopied, ?_⟩)
      show e.copier.held = []
      rw [hIdle]
      rfl
  case h_2 r _ =>
    exact h.refused ⟨rfl, rfl, rfl, rfl, e.down.arrived_send _, rfl, rfl⟩ hOpen hIdle hCopied rfl

/-- What becomes of the wire back: nothing, or an `ERR` goes out and the
connection is closed. -/
structure Silent (e e' : End) : Prop where
  copier : e'.copier = e.copier
  copied : e'.copied = e.copied
  sent : e'.down.sent = e.down.sent ∨
    e'.leg = .closed ∧ ∃ r : Refusal, e'.down.sent = e.down.sent ++ lineBytes r.line

theorem refuse_silent (e : End) (r : Refusal) : Silent e (e.refuse r) :=
  ⟨rfl, rfl, .inr ⟨rfl, r, rfl⟩⟩

theorem dispatch_silent (e : End) (line : Bytes) : Silent e (e.dispatch line) := by
  unfold End.dispatch
  split
  case h_1 => exact ⟨rfl, rfl, .inl rfl⟩
  case h_2 r _ => exact refuse_silent e r

/-- `bufio` has read more of the command. -/
theorem Local.readCommand {text seen : Bytes} (h : e.Local (text ++ [lineFeed]) hungUp)
    (hText : lineFeed ∉ text) (hOpen : hungUp = false) (hLeg : e.leg = .reading seen)
    (hBytes : e.up.receive k = some (bs, up)) :
    ({ e with up }.readCommand (seen ++ bs)).Local (text ++ [lineFeed]) hungUp' := by
  obtain ⟨hSent, hArrived⟩ := Wire.receive_some hBytes
  have hTaken := h.taken
  rw [hLeg] at hTaken
  obtain ⟨hIdle, hCopied, hSeen⟩ := hTaken
  rw [hSeen] at hArrived
  have hWritten := h.quiet seen hLeg
  -- first the bytes reach the buffer, then `readLine` looks at them
  have hFilled : ∀ {b : Bool},
      { e with up, leg := .reading (seen ++ bs) }.Local (text ++ [lineFeed]) b :=
    h.of_relay ⟨rfl, rfl, rfl, hSent, rfl, rfl, rfl⟩ hOpen ⟨hIdle, hCopied, hArrived⟩
      fun _ _ => hWritten
  have hOld := h.outgoing
  rw [hWritten, ← hSent] at hOld
  have hPart : up.arrived <+: text ++ [lineFeed] := up.arrived_prefix_sent.trans hOld.unwritten
  unfold End.readCommand
  split
  case h_1 => exact hFilled
  case h_2 line rest hSplit =>
    obtain ⟨body, -, hLine, hAll⟩ := splitLine_some hSplit
    have hWhole : seen ++ bs = line ++ rest := by
      rw [hAll, hLine, append_assoc]
      rfl
    split
    case isTrue =>
      exact hFilled.refused ⟨rfl, rfl, rfl, rfl, rfl, rfl, rfl⟩ hOpen hIdle hCopied rfl
    case isFalse =>
      rw [hArrived, hWhole] at hPart
      rw [hWhole] at hSplit hArrived
      have hCmd := hArrived.trans (command_line hText hSplit hPart)
      exact hFilled.dispatch hOpen hIdle hCopied (.inl hCmd) (trimLine line)

theorem readCommand_silent (seen : Bytes) : Silent e ({ e with up }.readCommand seen) := by
  unfold End.readCommand
  split
  case h_1 => exact ⟨rfl, rfl, .inl rfl⟩
  case h_2 =>
    split
    · exact ⟨rfl, rfl, .inl rfl⟩
    · obtain ⟨hCopier, hCopied, hSent⟩ := dispatch_silent { e with up } (trimLine _)
      exact ⟨hCopier, hCopied, hSent⟩

/-- **A step of `handle`** keeps what holds on its side. -/
theorem Local.legStep {text : Bytes} {a : LegAction} (h : e.Local (text ++ [lineFeed]) hungUp)
    (hText : lineFeed ∉ text) (hOpen : ∀ seen, e.leg = .reading seen → hungUp = false)
    (hStep : e.legStep a = some e') :
    (∃ seen, e.leg = .reading seen) ∧ Silent e e' ∧ e'.Local (text ++ [lineFeed]) hungUp' := by
  cases a with
  | fill k =>
    rw [End.legStep] at hStep
    split at hStep
    case h_2 => cases hStep
    case h_1 seen bs up hLeg hBytes =>
      cases hStep
      exact ⟨⟨seen, hLeg⟩, readCommand_silent _,
        h.readCommand hText (hOpen seen hLeg) hLeg hBytes⟩
  | fillEnd =>
    rw [End.legStep] at hStep
    split at hStep
    case h_2 => cases hStep
    case h_1 seen hLeg =>
      have hTaken := h.taken
      rw [hLeg] at hTaken
      obtain ⟨hIdle, hCopied, -⟩ := hTaken
      split at hStep
      case isFalse => cases hStep
      case isTrue hEnd =>
        cases hStep
        refine ⟨⟨seen, hLeg⟩, ?_⟩
        split
        case isTrue =>
          exact ⟨⟨rfl, rfl, .inl rfl⟩, h.refused ⟨rfl, rfl, rfl, rfl, rfl, rfl, rfl⟩
            (hOpen seen hLeg) hIdle hCopied rfl⟩
        case isFalse =>
          have hSpent : e.Spent :=
            ⟨hEnd.1, e.up.arrived_of_onWay hEnd.2, h.quiet seen hLeg⟩
          exact ⟨dispatch_silent e _,
            h.dispatch (hOpen seen hLeg) hIdle hCopied (.inr hSpent) (trimLine seen)⟩
  | fail =>
    rw [End.legStep] at hStep
    split at hStep
    case h_2 => cases hStep
    case h_1 seen hLeg =>
      have hTaken := h.taken
      rw [hLeg] at hTaken
      obtain ⟨hIdle, hCopied, -⟩ := hTaken
      cases hStep
      exact ⟨⟨seen, hLeg⟩, ⟨rfl, rfl, .inl rfl⟩, h.refused ⟨rfl, rfl, rfl, rfl, rfl, rfl, rfl⟩
        (hOpen seen hLeg) hIdle hCopied rfl⟩

variable (h : e.Local cmd hungUp)

include h

/-! ## The steps of `handleDial` and `pipe` on one side -/

/-- The relay closes the connection. -/
theorem Local.hangUp (hMore : hungUp = true → hungUp' = true) : e.Local cmd hungUp' :=
  ⟨h.outgoing, h.taken, h.incoming.mono fun hLast => ⟨hMore hLast.1, hLast.2⟩, h.quiet⟩

/-- The relay writes to this side. -/
theorem Local.send (hOpen : hungUp = false) (bs : Bytes) : (e.send bs).Local cmd hungUp' :=
  h.of_relay ⟨rfl, rfl, rfl, rfl, e.down.arrived_send bs, rfl, rfl⟩ hOpen h.taken h.quiet

/-- While it copies, what the relay has read are the command, what was copied
and what is in the buffer. -/
theorem Local.copying (hCopier : e.copier ≠ .idle) :
    (∃ handler, e.leg = .dispatched handler) ∧
      (e.up.arrived = cmd ++ e.copied ++ e.copier.held ∨
        e.copier = .ended ∧ cmd ++ e.copied <+: e.up.arrived ∨
        e.Spent ∧ e.copied = [] ∧ e.copier.held = []) := by
  have hTaken := h.taken
  cases hLeg : e.leg with
  | reading seen | closed =>
    rw [hLeg] at hTaken
    exact absurd hTaken.1 hCopier
  | dispatched handler =>
    rw [hLeg] at hTaken
    exact ⟨⟨handler, rfl⟩, hTaken.2⟩

/-- What a step of the copier has to show. -/
theorem Local.of_copy (hOld : e.copier ≠ .idle) {copier : Copier} {copied : Bytes}
    (hNew : copier ≠ .idle) (hSent : up.sent = e.up.sent)
    (hTaken : up.arrived = cmd ++ copied ++ copier.held ∨ copier = .ended ∧
      cmd ++ copied <+: up.arrived ∨ (e.client = .closed ∧ up.arrived = up.sent ∧
      e.written = []) ∧ copied = [] ∧ copier.held = []) :
    { e with up, copier, copied }.Local cmd hungUp where
  __ := h
  outgoing := by
    show Outgoing cmd up.sent e.written e.client
    rw [hSent]
    exact h.outgoing
  taken := by
    obtain ⟨⟨handler, hLeg⟩, -⟩ := h.copying hOld
    show Taken cmd _ copier up.arrived copied e.leg
    rw [hLeg]
    exact ⟨fun hIdle => absurd hIdle hNew, hTaken⟩

theorem Local.copy (hCopier : e.copier = .reading) (hBytes : e.up.receive k = some (bs, up)) :
    { e with up, copier := .writing bs }.Local cmd hungUp := by
  obtain ⟨hSent, hArrived⟩ := Wire.receive_some hBytes
  have hBusy : e.copier ≠ .idle := by rw [hCopier]; exact nofun
  refine h.of_copy hBusy nofun hSent ?_
  rcases (h.copying hBusy).2 with hAll | ⟨hEnded, -⟩ | ⟨⟨hClosed, hLast, hWritten⟩, hCopied, -⟩
  · refine .inl ?_
    rw [hArrived, hAll, hCopier]
    exact congrArg (· ++ bs) (append_nil _)
  · rw [hCopier] at hEnded
    cases hEnded
  · obtain rfl := Wire.receive_drained hBytes hLast
    rw [append_nil] at hArrived
    exact .inr (.inr ⟨⟨hClosed, hArrived.trans (hLast.trans hSent.symm), hWritten⟩, hCopied, rfl⟩)

theorem Local.forward {buf : Bytes} (hCopier : e.copier = .writing buf) (n : Nat) :
    { e with
      copier := if buf.length ≤ n then .reading else .ended
      copied := e.copied ++ buf.take n }.Local cmd hungUp := by
  have hBusy : e.copier ≠ .idle := by rw [hCopier]; exact nofun
  refine h.of_copy hBusy (by split <;> exact nofun) rfl ?_
  rcases (h.copying hBusy).2 with hAll | ⟨hEnded, -⟩ | ⟨hSpent, hCopied, hHeld⟩
  · have hBuf : e.up.arrived = cmd ++ (e.copied ++ buf) := by
      rw [hAll, hCopier, append_assoc]
      rfl
    split
    case isTrue hFull =>
      refine .inl ?_
      rw [hBuf, take_of_length_le hFull]
      exact (append_nil _).symm
    case isFalse =>
      refine .inr (.inl ⟨rfl, ?_⟩)
      rw [hBuf, prefix_append_right_inj, prefix_append_right_inj]
      exact take_prefix n buf
  · rw [hCopier] at hEnded
    cases hEnded
  · rw [hCopier] at hHeld
    obtain rfl : buf = [] := hHeld
    rw [if_pos (show ([] : Bytes).length ≤ n from Nat.zero_le n), hCopied, take_nil]
    exact .inr (.inr ⟨hSpent, rfl, rfl⟩)

theorem Local.copyEnd (hBusy : e.copier ≠ .idle) :
    { e with copier := .ended }.Local cmd hungUp := by
  refine h.of_copy hBusy nofun rfl ?_
  rcases (h.copying hBusy).2 with hAll | ⟨-, hPart⟩ | ⟨hSpent, hCopied, -⟩
  · exact .inr (.inl ⟨rfl, hAll ▸ prefix_append _ _⟩)
  · exact .inr (.inl ⟨rfl, hPart⟩)
  · exact .inr (.inr ⟨hSpent, hCopied, rfl⟩)

/-- The relay copies what the caller has written. -/
theorem Local.copied_front : e.copied <+: e.written := by
  by_cases hIdle : e.copier = .idle
  · have hTaken := h.taken
    have hNone : e.copied = [] := by
      cases hLeg : e.leg with
      | reading seen => rw [hLeg] at hTaken; exact hTaken.2.1
      | closed => rw [hLeg] at hTaken; exact hTaken.2
      | dispatched handler => rw [hLeg] at hTaken; exact hTaken.1 hIdle
    rw [hNone]
    exact nil_prefix
  · rcases (h.copying hIdle).2 with hAll | ⟨-, hPart⟩ | ⟨-, hNone, -⟩
    · have hPart : cmd ++ e.copied <+: e.up.arrived := hAll ▸ prefix_append _ _
      exact h.outgoing.after (hPart.trans e.up.arrived_prefix_sent)
    · exact h.outgoing.after (hPart.trans e.up.arrived_prefix_sent)
    · rw [hNone]
      exact nil_prefix

/-- What the caller has read follows the `OK`. -/
theorem Local.read_follows : e.read = [] ∨ okBytes ++ e.read <+: e.down.sent := by
  rcases h.incoming.close with hNone | hPart
  · exact .inl hNone
  · exact .inr (hPart.trans e.down.arrived_prefix_sent)

/-- While it copies, and has not failed, nothing is lost on the way to the
relay. -/
theorem Local.written_eq (hBusy : e.copier ≠ .idle) (hGoes : e.copier ≠ .ended) :
    e.written = e.copied ++ e.copier.held ++ e.up.onWay := by
  have hSent := e.up.arrived_append_onWay
  rcases (h.copying hBusy).2 with hAll | ⟨hEnded, -⟩ | ⟨⟨-, hLast, hWritten⟩, hCopied, hHeld⟩
  · have hOut := h.outgoing
    rw [← hSent, hAll, append_assoc, append_assoc, ← append_assoc e.copied] at hOut
    exact hOut.rest
  · exact absurd hEnded hGoes
  · rw [hLast] at hSent
    rw [hWritten, hCopied, hHeld, append_right_eq_self.mp hSent]
    rfl

/-- `pipe` starts. -/
theorem Local.start (hIdle : e.copier = .idle) {handler : Handler}
    (hLeg : e.leg = .dispatched handler) : { e with copier := .reading }.Local cmd hungUp := by
  have hTaken := h.taken
  rw [hLeg, hIdle] at hTaken
  refine ⟨h.outgoing, ?_, h.incoming, h.quiet⟩
  show Taken cmd _ .reading e.up.arrived e.copied e.leg
  rw [hLeg]
  refine ⟨nofun, ?_⟩
  rcases hTaken.2 with hAll | ⟨hEnded, -⟩ | hLast
  · exact .inl hAll
  · cases hEnded
  · exact .inr (.inr hLast)

/-- A wire breaks. -/
theorem Local.sever :
    { e with up := e.up.sever }.Local cmd hungUp ∧
      { e with down := e.down.sever }.Local cmd hungUp :=
  ⟨h.of_client ⟨rfl, rfl, rfl, rfl, rfl⟩ id h.outgoing h.incoming h.quiet,
    h.of_client ⟨rfl, rfl, rfl, rfl, rfl⟩ id h.outgoing h.incoming h.quiet⟩

omit h

/-- What the two sides have to know of each other. -/
structure View where
  leg : Leg
  copier : Copier
  copied : Bytes
  sent : Bytes

def view (e : End) : View := ⟨e.leg, e.copier, e.copied, e.down.sent⟩

theorem ClientOnly.view {e : End} (h : ClientOnly e e') : e'.view = e.view := by
  rw [End.view, h.leg, h.copier, h.copied, h.sent]
  rfl

end End

end AltNet.Relay
