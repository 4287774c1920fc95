import GuacServer.ParserSession

/-!
# The parser of the encoder service

The service parses recordings piece by piece. ins_parser_read is a copy of
guac_parser_read that takes its bytes from an accumulation buffer, handles the
instructions itself and returns once the bytes are used up, also in the middle of
an instruction. It takes the unparsed start as the start of the instruction each
time, so that a shift of the buffer may leave elements of the instruction behind:
their addresses then lie before the buffer.
-/

namespace GuacServer.EncoderParser

open GuacServer.Parser

/-- InsTransVideo_t. Of the display there are the instructions it has handled, of
which nothing is known where strings lay outside the buffer. -/
structure InsTransVideo where
  parser : GuacBufferedParser
  dangling : Bool
  handled : List (Option Instruction)
  data : List UInt8

/-- ins_transVideo_create. -/
def insTransVideoCreate : InsTransVideo := ⟨guacBufferedParserAlloc,false,[],[]⟩

/-- ins_parser_reset. -/
def insParserReset (parser : GuacParser) : GuacParser :=
  { parser with
    opcode := none
    argc := 0
    state := .length
    elementv := []
    elementLength := 0 }

/-- The locals of ins_parser_read, with what is left in the accumulation buffer. -/
structure InsLocals where
  read : ReadLocals
  dangling : Bool
  handled : List (Option Instruction)
  data : List UInt8

/-- ins_handle_complete_instruction, as far as the instruction is known. -/
def InsLocals.insHandleCompleteInstruction (locals : InsLocals) : Option Instruction :=
  if locals.dangling then none else some locals.read.parser.instruction

/-- The instruction that is complete, if any, is handled, and the next one begun. -/
def InsLocals.dispatch (locals : InsLocals) : InsLocals :=
  if locals.read.parser.state=.complete then
    { locals with
      read := { locals.read with
        parser := { locals.read.parser with
          toGuacParser := insParserReset locals.read.parser.toGuacParser } }
      handled := locals.handled++[locals.insHandleCompleteInstruction]
      dangling := false }
  else locals

/-- The locals after a call of guac_parser_append. -/
def InsLocals.append (locals : InsLocals) : InsLocals := { locals with read := locals.read.append }

/-- The locals once the parsed bytes are passed over. -/
def InsLocals.advance (locals : InsLocals) : InsLocals :=
  { locals with read := locals.read.advance }

/-- Room for more bytes, if there is any. A shift moves all recorded elements, also
those of which it drops the bytes. -/
def InsLocals.makeRoom (locals : InsLocals) : Option InsLocals :=
  if locals.read.unparsedEnd=instructionbufSize then
    if locals.read.instrStart≠0 then
      some { locals with
        read := locals.read.shift
        dangling := locals.dangling ||
          locals.read.parser.elementv.any (· < locals.read.instrStart) }
    else none
  else some locals

/-- ins_read_instructions: the bytes it copies, and what it leaves. -/
def insReadInstructions (data : List UInt8) (size : ℕ) : List UInt8×List UInt8 :=
  (data.take size,data.drop size)

/-- Bytes taken from the accumulation buffer. -/
def InsLocals.fill (locals : InsLocals) : List UInt8×InsLocals :=
  let (bytes,data) := insReadInstructions locals.data (instructionbufSize-locals.read.unparsedEnd)
  (bytes,{ locals with read := locals.read.store bytes, data := data })

/-- The return of ins_parser_read, zero if it succeeds. -/
structure InsResult where
  ok : Bool
  ins : InsTransVideo

/-- A failed return, which leaves the pointers as they were. -/
def InsLocals.fail (locals : InsLocals) : InsResult :=
  ⟨false,⟨locals.read.parser,locals.dangling,locals.handled,locals.data⟩⟩

/-- A return with the pointers written back. -/
def InsLocals.finish (locals : InsLocals) : InsResult :=
  ⟨true,⟨{ locals.read.parser with
      unparsedStart := locals.read.unparsedStart
      unparsedEnd := locals.read.unparsedEnd },
    locals.dangling,locals.handled,locals.data⟩⟩

/-- After an instruction was handled, the parser is not complete. -/
theorem InsLocals.dispatch_state (locals : InsLocals) :
    locals.dispatch.read.parser.state≠.complete := by
  unfold dispatch
  split_ifs with hcomplete
  · exact GuacParseState.noConfusion
  · exact hcomplete

/-- Handling an instruction moves no pointer. -/
theorem InsLocals.dispatch_pointers (locals : InsLocals) :
    locals.dispatch.read.unparsedStart=locals.read.unparsedStart ∧
      locals.dispatch.read.unparsedEnd=locals.read.unparsedEnd ∧
      locals.dispatch.read.instrStart=locals.read.instrStart ∧
      locals.dispatch.data=locals.data := by
  unfold dispatch
  split_ifs
  · exact ⟨rfl,rfl,rfl,rfl⟩
  · exact ⟨rfl,rfl,rfl,rfl⟩

/-- Making room keeps the bytes to come, and the number of unparsed ones. -/
theorem InsLocals.makeRoom_size {locals room : InsLocals} (h : locals.makeRoom=some room) :
    room.data=locals.data ∧ room.read.unparsedEnd-room.read.unparsedStart≤
      locals.read.unparsedEnd-locals.read.unparsedStart := by
  unfold makeRoom at h
  split_ifs at h
  · cases h
    refine ⟨rfl,?_⟩
    dsimp only [ReadLocals.shift]
    omega
  · cases h
    exact ⟨rfl,Nat.le_refl _⟩

/-- The loop of ins_parser_read. -/
def insLoop (locals : InsLocals) : InsResult :=
  let begun := locals.dispatch
  if begun.read.call.parser.state=.error then begun.append.fail
  else if _hparsed : begun.read.call.parsed=0 then
    match _hroom : begun.append.makeRoom with
    | none => begun.append.fail
    | some room => if _hbytes : room.fill.1=[] then room.finish else insLoop room.fill.2
  else insLoop begun.advance
termination_by 2*locals.data.length+(locals.read.unparsedEnd-locals.read.unparsedStart)
decreasing_by
  · -- every byte taken leaves the accumulation buffer
    obtain ⟨hdata,hsize⟩ := InsLocals.makeRoom_size _hroom
    obtain ⟨hstart,hend,-,hsame⟩ := locals.dispatch_pointers
    have hpos := List.length_pos_of_ne_nil _hbytes
    simp only [InsLocals.fill,insReadInstructions,ReadLocals.store,InsLocals.append,
      ReadLocals.append,List.length_drop,List.length_take] at hdata hsize hpos ⊢
    rw [hsame] at hdata
    rw [hstart,hend] at hsize
    rw [hdata] at hpos ⊢
    omega
  · -- some byte is parsed
    obtain ⟨hstart,hend,-,hsame⟩ := locals.dispatch_pointers
    have hwithin := guacParserAppend_within locals.dispatch_state
      locals.dispatch.read.unparsedStart locals.dispatch.read.unparsed
    have hle := hwithin.parsed_le
    have hunparsed : locals.dispatch.read.unparsed.length≤
        locals.dispatch.read.unparsedEnd-locals.dispatch.read.unparsedStart := by
      rw [ReadLocals.unparsed,List.length_take]
      exact Nat.min_le_left ..
    have hpos : 0<locals.dispatch.read.call.parsed := Nat.pos_of_ne_zero _hparsed
    change locals.dispatch.read.call.parsed≤_ at hle
    simp only [InsLocals.advance,ReadLocals.advance,ReadLocals.append]
    rw [hstart,hend] at hunparsed ⊢
    rw [hsame]
    omega

/-- ins_parser_read. -/
def insParserRead (ins : InsTransVideo) : InsResult :=
  insLoop ⟨⟨ins.parser,ins.parser.unparsedStart,ins.parser.unparsedEnd,
    ins.parser.unparsedStart⟩,ins.dangling,ins.handled,ins.data⟩

end GuacServer.EncoderParser
