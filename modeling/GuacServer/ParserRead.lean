import GuacServer.ParserChunks

/-!
# Reading instructions from a socket

guac_parser_read with its 32768-byte buffer: the parser is applied to the
buffered bytes, the buffer is shifted when it is full, and the socket is
selected and read when the parser stalls. What the socket has in store is a
list of events. The loop's pointers are locals, written back to the parser
only when an instruction was read.
-/

namespace GuacServer.Parser

open Unicode DecimalNumerals

/-- Error codes that reading an instruction can leave in guac_error. -/
inductive GuacStatus
  | noMemory
  | closed
  | timeout
  | seeErrno
  | protocolError
  deriving DecidableEq, Repr

/-- The values of guac_error and guac_error_message. -/
structure GuacError where
  /-- The error code. -/
  status : GuacStatus
  message : String
  deriving DecidableEq, Repr

/-- Size of the internal instruction buffer. -/
def instructionbufSize : ℕ := 32768

/-- The whole parser structure: the fields guac_parser_append uses, and the
internal buffer that only reading uses. -/
structure GuacBufferedParser extends GuacParser where
  /-- Index of the first unparsed byte in the internal buffer. -/
  unparsedStart : ℕ
  /-- Index of the first unused byte of the internal buffer. -/
  unparsedEnd : ℕ
  /-- The internal buffer, up to the last byte ever written to it. -/
  instructionbuf : List UInt8
  deriving DecidableEq

/-- guac_parser_alloc, with the internal buffer empty. -/
def guacBufferedParserAlloc : GuacBufferedParser := ⟨guacParserAlloc,0,0,[]⟩

/-- What happens at the next selections and reads of a socket. -/
inductive SocketEvent
  /-- The socket is ready and holds these bytes; none mean the end of stream. -/
  | data (bytes : List UInt8)
  /-- The selection times out. -/
  | timeout
  /-- The selection fails. -/
  | selectError
  /-- The socket is ready and the read fails. -/
  | readError
  deriving DecidableEq

/-- Bytes that the socket will deliver. -/
def socketBytes : List SocketEvent→List UInt8
  | [] => []
  | .data bytes::socket => bytes++socketBytes socket
  | _ :: socket => socketBytes socket

/-- guac_socket_select and guac_socket_read with room for `capacity` bytes,
and the errors set for their failures. A longer delivery is read in part. -/
def guacSocketReceive (capacity : ℕ) :
    List SocketEvent→Except GuacError (List UInt8)×List SocketEvent
  | [] => (.error ⟨.closed, "End of stream reached while reading instruction"⟩, [])
  | .timeout::socket => (.error ⟨.timeout, "Timeout while waiting for data on socket"⟩, socket)
  | .selectError::socket =>
    (.error ⟨.seeErrno, "Error while waiting for data on socket"⟩, socket)
  | .readError::socket => (.error ⟨.seeErrno, "Error filling instruction buffer"⟩, socket)
  | .data bytes::socket =>
    if bytes.take capacity=[] then
      (.error ⟨.closed, "End of stream reached while reading instruction"⟩, socket)
    else (.ok (bytes.take capacity),
      if bytes.length≤capacity then socket else .data (bytes.drop capacity)::socket)

/-- The parser and the local pointers of guac_parser_read. -/
structure ReadLocals where
  /-- The parser structure, modified in place. -/
  parser : GuacBufferedParser
  /-- Local copy of the first unparsed position. -/
  unparsedStart : ℕ
  /-- Local copy of the first unused position. -/
  unparsedEnd : ℕ
  /-- Where the current instruction starts in the buffer. -/
  instrStart : ℕ
  deriving DecidableEq

/-- Bytes of the buffer that are not parsed yet. -/
def ReadLocals.unparsed (locals : ReadLocals) : List UInt8 :=
  (locals.parser.instructionbuf.drop locals.unparsedStart).take
    (locals.unparsedEnd-locals.unparsedStart)

/-- The call of guac_parser_append that each round starts with. -/
def ReadLocals.call (locals : ReadLocals) : AppendResult :=
  guacParserAppend locals.parser.toGuacParser locals.unparsedStart locals.unparsed

/-- The locals after that call, which wrote to the parser and its buffer. -/
def ReadLocals.append (locals : ReadLocals) : ReadLocals :=
  { locals with
    parser := { locals.parser with
      toGuacParser := locals.call.parser
      instructionbuf := locals.parser.instructionbuf.take locals.unparsedStart++locals.call.buffer++
        locals.parser.instructionbuf.drop (locals.unparsedStart+locals.call.buffer.length) } }

/-- The locals once the parsed bytes are passed over. -/
def ReadLocals.advance (locals : ReadLocals) : ReadLocals :=
  { locals.append with unparsedStart := locals.unparsedStart+locals.call.parsed }

/-- The buffer shifted back to the start of the instruction, with all local
pointers and the recorded elements. -/
def ReadLocals.shift (locals : ReadLocals) : ReadLocals :=
  { parser := { locals.parser with
      elementv := locals.parser.elementv.map (· - locals.instrStart)
      instructionbuf := (locals.parser.instructionbuf.drop locals.instrStart).take
          (locals.unparsedEnd-locals.instrStart)++
        locals.parser.instructionbuf.drop (locals.unparsedEnd-locals.instrStart) }
    unparsedStart := locals.unparsedStart-locals.instrStart
    unparsedEnd := locals.unparsedEnd-locals.instrStart
    instrStart := 0 }

/-- Room for more bytes, if there is any: a full buffer is shifted unless the
instruction already starts at its beginning. -/
def ReadLocals.makeRoom (locals : ReadLocals) : Option ReadLocals :=
  if locals.unparsedEnd=instructionbufSize then
    if locals.instrStart≠0 then some locals.shift else none
  else some locals

/-- Received bytes stored at the end of the buffer. -/
def ReadLocals.store (locals : ReadLocals) (bytes : List UInt8) : ReadLocals :=
  { locals with
    parser := { locals.parser with
      instructionbuf := locals.parser.instructionbuf.take locals.unparsedEnd++bytes++
        locals.parser.instructionbuf.drop (locals.unparsedEnd+bytes.length) }
    unparsedEnd := locals.unparsedEnd+bytes.length }

/-- The return of guac_parser_read: zero without an error, the parser and what
is left at the socket. -/
structure ReadResult where
  /-- The error, if the return value is not zero. -/
  error : Option GuacError
  /-- The parser structure. -/
  parser : GuacBufferedParser
  /-- What is left at the socket. -/
  socket : List SocketEvent
  deriving DecidableEq

/-- The end of guac_parser_read once the loop has stopped. -/
def ReadLocals.finish (locals : ReadLocals) (socket : List SocketEvent) : ReadResult :=
  if locals.parser.state=.error then
    ⟨some ⟨.protocolError, "Instruction parse error"⟩, locals.parser, socket⟩
  else
    ⟨none,{ locals.parser with
      unparsedStart := locals.unparsedStart
      unparsedEnd := locals.unparsedEnd },socket⟩

variable {socket : List SocketEvent} {locals : ReadLocals}

variable {socket' : List SocketEvent}

/-- A received piece is not empty and fits the room, and leaves less. -/
theorem guacSocketReceive_ok {capacity : ℕ} {bytes : List UInt8}
    (h : guacSocketReceive capacity socket=(.ok bytes,socket')) :
    bytes≠[] ∧ bytes.length≤capacity ∧ socketBytes socket=bytes++socketBytes socket' := by
  unfold guacSocketReceive at h
  split at h
  · cases h
  · cases h
  · cases h
  · cases h
  · next data socket =>
    split at h
    · cases h
    · next hne =>
      cases h
      refine ⟨hne,by rw [List.length_take]; exact Nat.min_le_left ..,?_⟩
      rw [socketBytes]
      split
      · next hle => rw [List.take_of_length_le hle]
      · rw [socketBytes,←List.append_assoc,List.take_append_drop]

/-- Making room keeps the number of unparsed bytes. -/
theorem ReadLocals.makeRoom_size {room : ReadLocals} (h : locals.makeRoom=some room) :
    room.unparsedEnd-room.unparsedStart≤locals.unparsedEnd-locals.unparsedStart := by
  unfold makeRoom at h
  split at h
  · split at h
    · cases h
      dsimp only [shift]
      omega
    · cases h
  · cases h
    exact Nat.le_refl _

/-- A call parses no more than there is. -/
theorem ReadLocals.call_parsed_le (h : locals.parser.toGuacParser.Active) :
    locals.call.parsed≤locals.unparsedEnd-locals.unparsedStart := by
  have hle := (guacParserAppend_within h.1 locals.unparsedStart locals.unparsed).parsed_le
  refine Nat.le_trans hle ?_
  rw [unparsed,List.length_take]
  exact Nat.min_le_left ..

/-- One while the loop goes on, zero once it stops. -/
def ReadLocals.active (locals : ReadLocals) : ℕ :=
  if locals.parser.toGuacParser.Active then 1 else 0

/-- The loop has at most the coming round to stop in. -/
theorem ReadLocals.active_le (locals : ReadLocals) : locals.active≤1 := by
  unfold active
  split <;> omega

/-- The parser has parsed all it can of the bytes in the buffer. -/
def ReadLocals.Stalled (locals : ReadLocals) : Prop :=
  locals.call.parsed=0 ∧ locals.call.parser.state≠.error

instance (locals : ReadLocals) : Decidable locals.Stalled :=
  inferInstanceAs (Decidable (locals.call.parsed=0 ∧ locals.call.parser.state≠.error))

/-- The while loop of guac_parser_read. -/
def readLoop (locals : ReadLocals) (socket : List SocketEvent) : ReadResult :=
  if _hactive : locals.parser.toGuacParser.Active then
    if _hstalled : locals.Stalled then
      match _hroom : locals.append.makeRoom with
      | none => ⟨some ⟨.noMemory, "Instruction too long"⟩, locals.append.parser, socket⟩
      | some room =>
        match _hreceive : guacSocketReceive (instructionbufSize-room.unparsedEnd) socket with
        | (.error error,socket) => ⟨some error,room.parser,socket⟩
        | (.ok bytes,socket) => readLoop (room.store bytes) socket
    else readLoop locals.advance socket
  else locals.finish socket
termination_by 3*(socketBytes socket).length+2*(locals.unparsedEnd-locals.unparsedStart)+
  locals.active
decreasing_by
  · -- every received byte leaves the socket
    obtain ⟨hne,-,hbytes⟩ := guacSocketReceive_ok _hreceive
    have hsize := ReadLocals.makeRoom_size _hroom
    have hpos := List.length_pos_of_ne_nil hne
    have hone : locals.active=1 := if_pos _hactive
    have hflag := (room.store bytes).active_le
    simp only [ReadLocals.append,ReadLocals.store,hbytes,List.length_append] at hsize hflag ⊢
    omega
  · -- some byte is parsed, or the parser fails
    have hle := ReadLocals.call_parsed_le _hactive
    have hone : locals.active=1 := if_pos _hactive
    by_cases hzero : locals.call.parsed=0
    · have herr : locals.call.parser.state=.error := by
        by_contra hne
        exact _hstalled ⟨hzero,hne⟩
      have hdone : ¬locals.advance.parser.toGuacParser.Active := fun h => h.2 herr
      have hnone : locals.advance.active=0 := if_neg hdone
      rw [hone,hnone]
      simp only [ReadLocals.advance,ReadLocals.append,hzero]
      omega
    · have hflag := locals.advance.active_le
      simp only [ReadLocals.advance,ReadLocals.append] at hflag ⊢
      omega

/-- A stalled loop with a full buffer gives up. -/
theorem readLoop_full (hactive : locals.parser.toGuacParser.Active) (hstalled : locals.Stalled)
    (hroom : locals.append.makeRoom=none) :
    readLoop locals socket=
      ⟨some ⟨.noMemory, "Instruction too long"⟩, locals.append.parser, socket⟩ := by
  rw [readLoop,dif_pos hactive,dif_pos hstalled]
  split
  · rfl
  · next hroom' => simp [hroom] at hroom'

/-- A stalled loop without data from the socket gives up. -/
theorem readLoop_refused {room : ReadLocals} {error : GuacError}
    (hactive : locals.parser.toGuacParser.Active) (hstalled : locals.Stalled)
    (hroom : locals.append.makeRoom=some room)
    (hreceive : guacSocketReceive (instructionbufSize-room.unparsedEnd) socket=
      (.error error,socket')) : readLoop locals socket=⟨some error,room.parser,socket'⟩ := by
  rw [readLoop,dif_pos hactive,dif_pos hstalled]
  split
  · next hroom' => simp [hroom] at hroom'
  · next hroom' =>
    rw [hroom] at hroom'
    cases hroom'
    split
    · next heq =>
      rw [hreceive] at heq
      cases heq
      rfl
    · next heq =>
      rw [hreceive] at heq
      cases heq

/-- A stalled loop goes on with data from the socket. -/
theorem readLoop_received {room : ReadLocals} {bytes : List UInt8}
    (hactive : locals.parser.toGuacParser.Active) (hstalled : locals.Stalled)
    (hroom : locals.append.makeRoom=some room)
    (hreceive : guacSocketReceive (instructionbufSize-room.unparsedEnd) socket=
      (.ok bytes,socket')) : readLoop locals socket=readLoop (room.store bytes) socket' := by
  rw [readLoop,dif_pos hactive,dif_pos hstalled]
  split
  · next hroom' => simp [hroom] at hroom'
  · next hroom' =>
    rw [hroom] at hroom'
    cases hroom'
    split
    · next heq =>
      rw [hreceive] at heq
      cases heq
    · next heq =>
      rw [hreceive] at heq
      cases heq
      rfl

/-- A loop that is not stalled passes over what it parsed. -/
theorem readLoop_advance (hactive : locals.parser.toGuacParser.Active) (hmoved : ¬locals.Stalled) :
    readLoop locals socket=readLoop locals.advance socket := by
  rw [readLoop,dif_pos hactive,dif_neg hmoved]

/-- The loop stops once the instruction is complete or wrong. -/
theorem readLoop_stopped (hdone : ¬locals.parser.toGuacParser.Active) :
    readLoop locals socket=locals.finish socket := by
  rw [readLoop,dif_neg hdone]

/-- The locals that a read starts with: the next instruction is begun if the
previous one was ended. -/
def GuacBufferedParser.readLocals (parser : GuacBufferedParser) : ReadLocals :=
  ⟨if parser.state=.complete then
    { parser with toGuacParser := guacParserReset parser.toGuacParser } else parser,
    parser.unparsedStart,parser.unparsedEnd,parser.unparsedStart⟩

/-- guac_parser_read: read one instruction. -/
def guacParserRead (parser : GuacBufferedParser) (socket : List SocketEvent) : ReadResult :=
  readLoop parser.readLocals socket

/-- An instruction as the caller finds it in the parser: its strings are in
the buffer. -/
structure Instruction where
  opcode : Option (List UInt8)
  /-- The number of arguments. -/
  argc : ℕ
  /-- The arguments. -/
  argv : List (List UInt8)
  deriving DecidableEq

/-- The string at an address of the buffer. -/
def GuacBufferedParser.string (parser : GuacBufferedParser) (address : ℕ) : List UInt8 :=
  cString (parser.instructionbuf.drop address)

/-- The instruction that was read last. -/
def GuacBufferedParser.instruction (parser : GuacBufferedParser) : Instruction :=
  ⟨parser.opcode.map parser.string,parser.argc,parser.argv.map parser.string⟩

example : (guacParserRead guacBufferedParserAlloc
    [.data (ascii "4.test,1"), .data (ascii ".a;3.nop")]).parser.instruction=
    ⟨some (ascii "test"), 1, [ascii "a"]⟩ := by decide +kernel

end GuacServer.Parser
