import GuacServer.ParserRead

/-!
# What one read of an instruction can do

While an instruction is read, the loop's pointers divide the buffer: bytes of
earlier instructions, bytes of this one that are parsed, bytes that are not,
and unused space. The parser is in the state that repeated calls on the bytes
received so far would leave it in. From this invariant, a read either returns
the instruction at the head of the received bytes or fails in one of three
ways, each with what is known about those bytes.
-/

namespace GuacServer.Parser

open DecimalNumerals List Unicode

/-- The loop's locals divide the buffer into four parts, and the parser is as
far as it would be after parsing the bytes received from the start of the
instruction at once. -/
structure Progress (locals : ReadLocals) (front done unparsed back received : List UInt8) :
    Prop where
  /-- The four parts of the buffer. -/
  buffer : locals.parser.instructionbuf=front++(done++(unparsed++back))
  /-- Earlier instructions end where this one starts. -/
  instrStart : locals.instrStart=front.length
  /-- Parsed bytes end where unparsed ones start. -/
  unparsedStart : locals.unparsedStart=front.length+done.length
  /-- Unparsed bytes end where the unused space starts. -/
  unparsedEnd : locals.unparsedEnd=front.length+done.length+unparsed.length
  /-- The buffer has a fixed size. -/
  bound : locals.unparsedEnd ≤ instructionbufSize
  /-- All received bytes are in the buffer. -/
  length : received.length=done.length+unparsed.length
  /-- Unparsed bytes are as they were received. -/
  unparsed_eq : received.drop done.length=unparsed
  /-- The opcode is set only at the end. -/
  opcode : locals.parser.state≠.complete → locals.parser.opcode=none
  /-- The parser is where repeated calls on the received bytes lead to. -/
  outcome : SameOutcome ((feed guacParserAlloc 0 received).offsetBy front.length)
    ((feed locals.parser.toGuacParser (front.length+done.length) unparsed).after done)

variable {locals : ReadLocals} {front done unparsed back received : List UInt8}

/-- The unparsed bytes are what the next call is given. -/
theorem Progress.call_eq (h : Progress locals front done unparsed back received) :
    locals.call=guacParserAppend locals.parser.toGuacParser (front.length+done.length)
      unparsed := by
  have hdrop : (front++(done++(unparsed++back))).drop (front.length+done.length)=
      unparsed++back := by
    rw [drop_length_add_append,drop_left]
  have hunparsed : locals.unparsed=unparsed := by
    rw [ReadLocals.unparsed,h.buffer,h.unparsedStart,h.unparsedEnd,hdrop,
      Nat.add_sub_cancel_left,take_left]
  rw [ReadLocals.call,hunparsed,h.unparsedStart]

/-- Writing a call's output over its input keeps the rest of the buffer. -/
theorem Progress.append_buffer (h : Progress locals front done unparsed back received)
    (hlen : locals.call.buffer.length=unparsed.length) :
    locals.append.parser.instructionbuf=front++(done++(locals.call.buffer++back)) := by
  have htake : (front++(done++(unparsed++back))).take (front.length+done.length)=front++done := by
    rw [take_length_add_append,take_left]
  have hdrop : (front++(done++(unparsed++back))).drop
      (front.length+done.length+unparsed.length)=back := by
    rw [Nat.add_assoc,drop_length_add_append,drop_length_add_append,drop_left]
  rw [ReadLocals.append,hlen,h.buffer,h.unparsedStart]
  dsimp only
  rw [htake,hdrop,append_assoc,append_assoc]

/-- Only the end of an instruction sets the opcode. -/
theorem guacParserAppend_opcode (parser : GuacParser) (address : ℕ) (buffer : List UInt8) :
    (guacParserAppend parser address buffer).parser.state≠.complete →
      (guacParserAppend parser address buffer).parser.opcode=parser.opcode := by
  have hcontent : ∀ (p : GuacParser) (n : ℕ) (rest : List UInt8),
      (parseContent p n rest).parser.state≠.complete →
        (parseContent p n rest).parser.opcode=p.opcode := by
    intro p n rest
    unfold parseContent
    rcases contentLoop p.elementLength rest with ⟨m,after,parsed,stop⟩
    cases stop <;> simp [endContent]
  have hlength : (parseLength parser address buffer).1.opcode=parser.opcode := by
    unfold parseLength
    rcases lengthLoop parser.elementLength buffer with ⟨m,parsed,stop⟩
    cases stop <;> by_cases hm : m > guacInstructionMaxLength <;> simp [checkLength,hm]
  unfold guacParserAppend parseElement
  split
  · exact fun _ => rfl
  · dsimp only
    by_cases hstate : parser.state=.length
    · rw [if_pos hstate,←hlength]
      split
      · exact hcontent _ _ _
      · exact fun _ => rfl
    · rw [if_neg hstate]
      split
      · exact hcontent _ _ _
      · exact fun _ => rfl

/-- Progress is kept by a round that parses something. -/
theorem Progress.advance (h : Progress locals front done unparsed back received)
    (hactive : locals.parser.toGuacParser.Active) (hparsed : locals.call.parsed≠0)
    (herr : locals.call.parser.state≠.error) :
    Progress locals.advance front (done++locals.call.buffer.take locals.call.parsed)
      (unparsed.drop locals.call.parsed) back received := by
  have hwithin := guacParserAppend_within hactive.1 (front.length+done.length) unparsed
  rw [←h.call_eq] at hwithin
  have hle := hwithin.parsed_le
  have htake : (locals.call.buffer.take locals.call.parsed).length=locals.call.parsed := by
    rw [length_take,hwithin.length_eq]
    omega
  have hdrop : (unparsed.drop locals.call.parsed).length=unparsed.length-locals.call.parsed :=
    length_drop
  constructor
  · change locals.append.parser.instructionbuf=_
    rw [h.append_buffer hwithin.length_eq,←hwithin.drop_eq herr,append_assoc,
      ←append_assoc (locals.call.buffer.take _),take_append_drop]
  · exact h.instrStart
  · change locals.unparsedStart+locals.call.parsed=_
    rw [h.unparsedStart,length_append,htake]
    omega
  · change locals.unparsedEnd=_
    rw [h.unparsedEnd,length_append,htake,hdrop]
    omega
  · exact h.bound
  · rw [h.length,length_append,htake,hdrop]
    omega
  · rw [length_append,htake,←drop_drop,h.unparsed_eq]
  · intro hne
    change locals.call.parser.state≠.complete at hne
    change locals.call.parser.opcode=none
    rw [h.call_eq] at hne ⊢
    rw [guacParserAppend_opcode _ _ _ hne,h.opcode hactive.1]
  · have hfeed := h.outcome
    rw [feed_of_parsed hactive (by rw [←h.call_eq]; exact hparsed),←h.call_eq,
      AppendResult.after_after] at hfeed
    rw [length_append,htake,←Nat.add_assoc]
    exact hfeed

/-- A stalled round changes nothing, and the received bytes parse to where the
parser is. -/
theorem Progress.stalled (h : Progress locals front done unparsed back received)
    (hactive : locals.parser.toGuacParser.Active) (hstalled : locals.Stalled) :
    locals.append=locals ∧ (feed guacParserAlloc 0 received).offsetBy front.length=
        ⟨locals.parser.toGuacParser,done++unparsed,done.length⟩ := by
  obtain ⟨hzero,herr⟩ := hstalled
  have hcall := h.call_eq
  rw [hcall] at hzero herr
  rw [guacParserAppend_of_parsed_zero hactive hzero herr] at hcall
  have hbuffer : locals.append.parser.instructionbuf=locals.parser.instructionbuf := by
    rw [h.append_buffer (by rw [hcall]),hcall,h.buffer]
  have happend : locals.append = { locals with
      parser := { locals.parser with
        toGuacParser := locals.call.parser
        instructionbuf := locals.append.parser.instructionbuf } } := rfl
  have hfeed := h.outcome
  rw [feed_of_parsed_zero hactive hzero,guacParserAppend_of_parsed_zero hactive hzero herr,
    AppendResult.after,if_neg hactive.2,Nat.add_zero] at hfeed
  constructor
  · rw [happend,hbuffer,hcall]
  · rcases hfeed with ⟨-,herror⟩ | hfeed
    · exact absurd herror hactive.2
    · exact hfeed

/-- Same outcomes remain so when all pointers move up. -/
theorem SameOutcome.offsetBy {r s : AppendResult} (h : SameOutcome r s) (k : ℕ) :
    SameOutcome (r.offsetBy k) (s.offsetBy k) := by
  rcases h with h | rfl
  · exact Or.inl h
  · exact Or.inr rfl

/-- The stalled parser with pointers from the start of the instruction is
where the received bytes lead to, and it is stalled as well. -/
theorem Progress.stalled_feed (h : Progress locals front done unparsed back received)
    (hactive : locals.parser.toGuacParser.Active) (hstalled : locals.Stalled) :
    ∃ q : GuacParser, locals.parser.toGuacParser=q.offsetBy front.length ∧ q.Active ∧
      feed guacParserAlloc 0 received=⟨q,done++unparsed,done.length⟩ ∧
      guacParserAppend q done.length unparsed=⟨q,unparsed,0⟩ := by
  have hfeed := (h.stalled hactive hstalled).2
  have hbuffer : (feed guacParserAlloc 0 received).buffer=done++unparsed :=
    congrArg AppendResult.buffer hfeed
  have hparsed : (feed guacParserAlloc 0 received).parsed=done.length :=
    congrArg AppendResult.parsed hfeed
  have hq : locals.parser.toGuacParser=
      (feed guacParserAlloc 0 received).parser.offsetBy front.length :=
    (congrArg AppendResult.parser hfeed).symm
  have hqactive : (feed guacParserAlloc 0 received).parser.Active := by
    rw [hq] at hactive
    exact hactive
  obtain ⟨hzero,herr⟩ := hstalled
  rw [h.call_eq,hq,Nat.add_comm,guacParserAppend_offsetBy] at hzero herr
  exact ⟨_,hq,hqactive,by rw [←hbuffer,←hparsed],
    guacParserAppend_of_parsed_zero hqactive hzero herr⟩

/-- A shift that does not go beyond the start of the instruction moves all of it. -/
theorem Progress.shiftBack {start : ℕ}
    (h : Progress { locals with instrStart := start } front done unparsed back received)
    (hactive : locals.parser.toGuacParser.Active) (hstalled : locals.Stalled)
    (hle : locals.instrStart ≤ start) :
    (∃ back', Progress { locals.shift with instrStart := start-locals.instrStart }
        (front.drop locals.instrStart) done unparsed back' received) ∧
      locals.shift.parser.toGuacParser.Active ∧ locals.shift.Stalled ∧
      ∀ element∈locals.parser.elementv, locals.instrStart≤element := by
  obtain ⟨q,hq,hqactive,hfeed,hcall⟩ := h.stalled_feed hactive hstalled
  have hstart : start=front.length := h.instrStart
  have hbegun : locals.unparsedStart=front.length+done.length := h.unparsedStart
  have hend : locals.unparsedEnd=front.length+done.length+unparsed.length := h.unparsedEnd
  have hsplit : locals.parser.instructionbuf=front++(done++(unparsed++back)) := h.buffer
  have hopcode : q.opcode=none := by
    have hnone := h.opcode hactive.1
    rw [hq] at hnone
    exact Option.map_eq_none_iff.mp hnone
  have hparser : locals.shift.parser.toGuacParser=
      q.offsetBy (front.drop locals.instrStart).length := by
    have hshift : locals.shift.parser.toGuacParser = { locals.parser.toGuacParser with
        elementv := locals.parser.elementv.map (· - locals.instrStart) } := rfl
    have hmoves : ((· - locals.instrStart) ∘ (· + front.length) : ℕ→ℕ)=
        (· + (front.drop locals.instrStart).length) := by
      funext element
      rw [Function.comp_apply,length_drop]
      omega
    rw [hshift,show locals.parser.toGuacParser=q.offsetBy front.length from hq]
    simp only [GuacParser.offsetBy,hopcode,map_map,hmoves,Option.map_none]
  have hlen : locals.unparsedEnd-locals.instrStart=
      (front.drop locals.instrStart++(done++unparsed)).length := by
    rw [length_append,length_append,length_drop]
    omega
  have hbuffer : locals.shift.parser.instructionbuf=
      (front.drop locals.instrStart++(done++unparsed))++
        locals.parser.instructionbuf.drop (locals.unparsedEnd-locals.instrStart) := by
    unfold ReadLocals.shift
    dsimp only
    rw [hlen]
    nth_rewrite 1 [hsplit]
    have hrest : front.drop locals.instrStart++(done++(unparsed++back))=
        (front.drop locals.instrStart++(done++unparsed))++back := by
      simp only [append_assoc]
    rw [drop_append_of_le_length (by omega),hrest,take_left]
  have hprogress : Progress { locals.shift with instrStart := start-locals.instrStart }
      (front.drop locals.instrStart) done unparsed
      (locals.parser.instructionbuf.drop (locals.unparsedEnd-locals.instrStart))
      received := by
    constructor
    · change locals.shift.parser.instructionbuf=_
      rw [hbuffer]
      simp only [append_assoc]
    · rw [length_drop,hstart]
    · change locals.unparsedStart-locals.instrStart=_
      rw [length_drop]
      omega
    · change locals.unparsedEnd-locals.instrStart=_
      rw [length_drop]
      omega
    · exact Nat.le_trans (Nat.sub_le ..) h.bound
    · exact h.length
    · exact h.unparsed_eq
    · intro _
      change locals.shift.parser.opcode=none
      rw [hparser,GuacParser.offsetBy,hopcode]
      rfl
    · right
      change _ = AppendResult.after done (feed locals.shift.parser.toGuacParser _ _)
      rw [hparser,Nat.add_comm,feed_offsetBy,feed_of_parsed_zero hqactive (by rw [hcall]),hcall,
        hfeed,←AppendResult.offsetBy_after,AppendResult.after,if_neg hqactive.2]
      rfl
  have hactive' : locals.shift.parser.toGuacParser.Active := by
    rw [hparser]
    exact hqactive
  refine ⟨⟨_,hprogress⟩,hactive',?_,?_⟩
  · have hshift : locals.shift.call=guacParserAppend locals.shift.parser.toGuacParser
        ((front.drop locals.instrStart).length+done.length) unparsed := hprogress.call_eq
    rw [hparser,Nat.add_comm,guacParserAppend_offsetBy,hcall] at hshift
    unfold ReadLocals.Stalled
    rw [hshift]
    exact ⟨rfl,hqactive.2⟩
  · intro element helement
    rw [show locals.parser.toGuacParser=q.offsetBy front.length from hq] at helement
    obtain ⟨element,-,rfl⟩ := mem_map.mp helement
    omega

/-- Progress is kept when the buffer is shifted, and the loop is still stalled. -/
theorem Progress.shift (h : Progress locals front done unparsed back received)
    (hactive : locals.parser.toGuacParser.Active) (hstalled : locals.Stalled) :
    (∃ back', Progress locals.shift [] done unparsed back' received) ∧
      locals.shift.parser.toGuacParser.Active ∧ locals.shift.Stalled := by
  obtain ⟨⟨back',hprogress⟩,hactive',hstalled',-⟩ :=
    h.shiftBack hactive hstalled (Nat.le_refl locals.instrStart)
  rw [Nat.sub_self,drop_of_length_le h.instrStart.ge] at hprogress
  exact ⟨⟨back',hprogress⟩,hactive',hstalled'⟩

/-- A reset parser is at an element start. -/
theorem guacParserAlloc_start : guacParserAlloc.ElementStart := ⟨rfl,rfl⟩

/-- Progress is kept when received bytes are stored. -/
theorem Progress.store (h : Progress locals front done unparsed back received)
    (hactive : locals.parser.toGuacParser.Active) (hstalled : locals.Stalled)
    {bytes : List UInt8} (hroom : bytes.length ≤ instructionbufSize-locals.unparsedEnd) :
    Progress (locals.store bytes) front done (unparsed++bytes) (back.drop bytes.length)
      (received++bytes) := by
  obtain ⟨q,hq,hqactive,hfeed,hstall⟩ := h.stalled_feed hactive hstalled
  have htake : (front++(done++(unparsed++back))).take
      (front.length+done.length+unparsed.length)=front++(done++unparsed) := by
    rw [Nat.add_assoc,take_length_add_append,take_length_add_append,take_left]
  have hdrop : (front++(done++(unparsed++back))).drop
      (front.length+done.length+unparsed.length+bytes.length)=back.drop bytes.length := by
    rw [Nat.add_assoc,Nat.add_assoc,drop_length_add_append,drop_length_add_append,
      drop_length_add_append]
  have hbound := h.bound
  constructor
  · unfold ReadLocals.store
    dsimp only
    rw [h.buffer,h.unparsedEnd,htake,hdrop]
    simp only [append_assoc]
  · exact h.instrStart
  · exact h.unparsedStart
  · change locals.unparsedEnd+bytes.length=_
    rw [h.unparsedEnd,length_append]
    omega
  · change locals.unparsedEnd+bytes.length≤_
    omega
  · rw [length_append,length_append,h.length]
    omega
  · rw [drop_append_of_le_length (by rw [h.length]; omega),h.unparsed_eq]
  · exact h.opcode
  · have hmore := feed_append guacParserAlloc_start 0 received bytes
      (by rw [hfeed]; exact hqactive.2)
    rw [hfeed] at hmore
    dsimp only at hmore
    rw [Nat.zero_add,h.unparsed_eq,take_left] at hmore
    have hmoved := hmore.offsetBy front.length
    rw [AppendResult.offsetBy_after,←feed_offsetBy front.length q,←hq,Nat.add_comm] at hmoved
    exact hmoved

/-- The instruction that the given elements are read as. -/
def instructionOf (es : List Element) : Instruction :=
  ⟨(es.map Element.value).head?,es.length-1,(es.map Element.value).tail⟩

/-- Element addresses move with the start of the instruction. -/
theorem elementAddresses_add (k address : ℕ) (es : List Element) :
    elementAddresses (address+k) es=(elementAddresses address es).map (· + k) := by
  induction es generalizing address with
  | nil => rfl
  | cons e es ih =>
    rw [elementAddresses,elementAddresses,Nat.add_right_comm,Nat.add_right_comm address k,ih,
      map_cons]

/-- Every element of a stored instruction is a string in the buffer. -/
theorem elementAddresses_strings (es : List Element) (pre rest : List UInt8) :
    (elementAddresses pre.length es).map
        (fun address => cString ((pre++(storedInstruction es++rest)).drop address))=
      es.map Element.value := by
  induction es generalizing pre with
  | nil => rfl
  | cons e es ih =>
    have hbuffer : pre++(storedInstruction (e::es)++rest)=
        (pre++(e.wire++[0]))++(storedInstruction es++rest) := by
      simp [storedInstruction]
    have hfirst : cString ((pre++(storedInstruction (e::es)++rest)).drop
        (pre.length+(e.digits.length+1)))=e.value := by
      have hwire : pre++(storedInstruction (e::es)++rest)=pre++(e.digits++
          (46::(textBytes e.content++0::(storedInstruction es++rest)))) := by
        simp [storedInstruction,Element.wire]
      rw [hwire,drop_length_add_append,drop_length_add_append,drop_one,
        tail_cons,cString_terminated,Element.value]
    have hlen : pre.length+(e.wire.length+1)=(pre++(e.wire++[0])).length := by simp
    rw [elementAddresses,map_cons,map_cons,hfirst,hlen,hbuffer,ih]

/-- A complete instruction is at the head of the received bytes, and the
caller finds its elements in the parser. -/
theorem Progress.complete (h : Progress locals front done unparsed back received)
    (hc : locals.parser.state=.complete) :
    ∃ es, HeadInstruction received es ∧ received=wireInstruction es++unparsed ∧
      locals.parser.instruction=instructionOf es := by
  have hdone : ¬locals.parser.toGuacParser.Active := fun hactive => hactive.1 hc
  have hnot : locals.parser.state≠.error := by rw [hc]; decide
  have hfeed : (feed guacParserAlloc 0 received).offsetBy front.length=
      ⟨locals.parser.toGuacParser,done++unparsed,done.length⟩ := by
    have houtcome := h.outcome
    rw [feed_of_not_active hdone,AppendResult.after,if_neg hnot] at houtcome
    rcases houtcome with ⟨-,herr⟩ | heq
    · exact absurd herr hnot
    · exact heq
  have hparser : (feed guacParserAlloc 0 received).parser.offsetBy front.length=
      locals.parser.toGuacParser := congrArg AppendResult.parser hfeed
  have hcomplete : (feed guacParserAlloc 0 received).parser.state=.complete := by
    rw [←hc,←hparser]
    rfl
  obtain ⟨es,hes⟩ := (feed_complete_iff guacParserAlloc 0 received).mp hcomplete
  obtain ⟨tail,rfl⟩ := hes.head
  have hinstruction := feed_instruction guacParserAlloc_start hes.ne_nil
    (Nat.le_trans (Nat.zero_add es.length).le hes.length_le) hes.delimited 0 tail
  rw [hinstruction] at hfeed hparser
  have hlen : done.length=(storedInstruction es).length := by
    rw [length_storedInstruction]
    exact (congrArg AppendResult.parsed hfeed).symm
  obtain ⟨hdone,hunparsed⟩ := append_inj (congrArg AppendResult.buffer hfeed).symm hlen
  refine ⟨es,hes,by rw [hunparsed],?_⟩
  have hbuffer : locals.parser.instructionbuf=
      front++(storedInstruction es++(unparsed++back)) := by rw [h.buffer,hdone]
  have hstrings := elementAddresses_strings es front (unparsed++back)
  rw [←hbuffer,←Nat.zero_add front.length,elementAddresses_add] at hstrings
  have hopcode : locals.parser.opcode=((elementAddresses 0 es).map (· + front.length)).head? := by
    rw [←hparser]
    simp [GuacParser.offsetBy,GuacParser.complete,guacParserAlloc,guacParserReset]
  have hargc : locals.parser.argc=es.length-1 := by
    rw [←hparser]
    simp [GuacParser.offsetBy,GuacParser.complete,guacParserAlloc,guacParserReset,
      GuacParser.elementc]
  have helementv : locals.parser.elementv=(elementAddresses 0 es).map (· + front.length) := by
    rw [←hparser]
    simp [GuacParser.offsetBy,GuacParser.complete,guacParserAlloc,guacParserReset]
  have hstring : locals.parser.string=
      fun address => cString (locals.parser.instructionbuf.drop address) := rfl
  rw [GuacBufferedParser.instruction,GuacParser.argv,hopcode,hargc,helementv,instructionOf,
    ←hstrings,hstring]
  simp only [List.head?_map,map_tail]

/-- Pieces received one after the other from a socket. -/
inductive Received : List SocketEvent→List UInt8→List SocketEvent→Prop
  /-- Nothing is received. -/
  | none (socket) : Received socket [] socket
  /-- One more piece is received first. -/
  | piece {socket socket' socket'' : List SocketEvent} {capacity : ℕ} {bytes more : List UInt8}
      (hpiece : guacSocketReceive capacity socket=(.ok bytes,socket'))
      (hmore : Received socket' more socket'') : Received socket (bytes++more) socket''

/-- Between reads the unparsed bytes lie in the buffer, and the parser is
complete or reset. -/
def GuacBufferedParser.Boundary (parser : GuacBufferedParser) (unparsed : List UInt8) : Prop :=
  ∃ front back, parser.instructionbuf=front++(unparsed++back) ∧
    parser.unparsedStart=front.length ∧ parser.unparsedEnd=front.length+unparsed.length ∧
    parser.unparsedEnd ≤ instructionbufSize ∧
    (parser.state=.complete ∨ parser.toGuacParser=guacParserAlloc)

/-- What the loop can do, given the bytes of the instruction received so far:
return the instruction at the head of them and of some more, or find that they
are none, or fill the buffer with them, or receive no more. -/
inductive LoopOutcome (received : List UInt8) (socket : List SocketEvent) (result : ReadResult) :
    Prop
  /-- An instruction was read. -/
  | complete (bytes tail : List UInt8) (es : List Element)
      (hreceived : Received socket bytes result.socket) (herror : result.error=none)
      (hhead : HeadInstruction (received++bytes) es)
      (hsplit : received++bytes=wireInstruction es++tail)
      (hbound : (received++bytes).length ≤ instructionbufSize)
      (hinstruction : result.parser.instruction=instructionOf es)
      (hboundary : result.parser.Boundary tail)
  /-- The received bytes are not an instruction. -/
  | failed (bytes : List UInt8) (hreceived : Received socket bytes result.socket)
      (herror : result.error=some ⟨.protocolError, "Instruction parse error"⟩)
      (hbound : (received++bytes).length ≤ instructionbufSize)
      (hfeed : (feed guacParserAlloc 0 (received++bytes)).parser.state=.error)
  /-- The received bytes fill the buffer and are not yet an instruction. -/
  | full (bytes : List UInt8) (hreceived : Received socket bytes result.socket)
      (herror : result.error=some ⟨.noMemory, "Instruction too long"⟩)
      (hbound : (received++bytes).length=instructionbufSize)
      (hfeed : (feed guacParserAlloc 0 (received++bytes)).parser.Active)
  /-- The received bytes are not yet an instruction, and no more are received. -/
  | refused (bytes : List UInt8) (capacity : ℕ) (socket' : List SocketEvent) (error : GuacError)
      (hreceived : Received socket bytes socket') (hcapacity : 0<capacity)
      (hrefused : guacSocketReceive capacity socket' = (.error error,result.socket))
      (herror : result.error=some error)
      (hbound : (received++bytes).length < instructionbufSize)
      (hfeed : (feed guacParserAlloc 0 (received++bytes)).parser.Active)

/-- A piece received first is part of what is received. -/
theorem LoopOutcome.afterPiece {received bytes : List UInt8} {socket socket' : List SocketEvent}
    {capacity : ℕ} {result : ReadResult}
    (hpiece : guacSocketReceive capacity socket=(.ok bytes,socket'))
    (h : LoopOutcome (received++bytes) socket' result) : LoopOutcome received socket result := by
  cases h with
  | complete more tail es hreceived herror hhead hsplit hbound hinstruction hboundary =>
    rw [append_assoc] at hhead hsplit hbound
    exact .complete _ tail es (.piece hpiece hreceived) herror hhead hsplit hbound hinstruction
      hboundary
  | failed more hreceived herror hbound hfeed =>
    rw [append_assoc] at hbound hfeed
    exact .failed _ (.piece hpiece hreceived) herror hbound hfeed
  | full more hreceived herror hbound hfeed =>
    rw [append_assoc] at hbound hfeed
    exact .full _ (.piece hpiece hreceived) herror hbound hfeed
  | refused more capacity socket' error hreceived hcapacity hrefused herror hbound hfeed =>
    rw [append_assoc] at hbound hfeed
    exact .refused _ capacity socket' error (.piece hpiece hreceived) hcapacity hrefused herror
      hbound hfeed

section

variable (h : Progress locals front done unparsed back received)

include h

/-- Room for more bytes keeps progress; there is none only for an instruction
that fills the buffer. -/
theorem Progress.makeRoom (hactive : locals.parser.toGuacParser.Active)
    (hstalled : locals.Stalled) :
    (locals.makeRoom=none ∧ received.length=instructionbufSize) ∨
      ∃ room front' back', locals.makeRoom=some room ∧
        Progress room front' done unparsed back' received ∧
        room.unparsedEnd < instructionbufSize ∧
        room.parser.toGuacParser.Active ∧ room.Stalled := by
  have hend := h.unparsedEnd
  have hstart := h.instrStart
  have hbound := h.bound
  unfold ReadLocals.makeRoom
  by_cases hfull : locals.unparsedEnd=instructionbufSize
  · rw [if_pos hfull]
    by_cases hzero : locals.instrStart=0
    · rw [if_neg (not_not.mpr hzero)]
      exact Or.inl ⟨rfl,by rw [h.length]; omega⟩
    · rw [if_pos hzero]
      obtain ⟨⟨back',hshift⟩,hactive',hstalled'⟩ := h.shift hactive hstalled
      have hend' := hshift.unparsedEnd
      rw [length_nil] at hend'
      exact Or.inr ⟨_,_,back',rfl,hshift,by omega,hactive',hstalled'⟩
  · rw [if_neg hfull]
    exact Or.inr ⟨locals,front,back,rfl,h,by omega,hactive,hstalled⟩

/-- A loop that does not parse on has an instruction, or has failed. -/
theorem Progress.stopped (hdone : ¬locals.parser.toGuacParser.Active) (socket : List SocketEvent) :
    LoopOutcome received socket (readLoop locals socket) := by
  have hend := h.unparsedEnd
  have hbound := h.bound
  have hlen : (received++[]).length ≤ instructionbufSize := by
    rw [append_nil,h.length]
    omega
  rw [readLoop_stopped hdone,ReadLocals.finish]
  by_cases herr : locals.parser.state=.error
  · rw [if_pos herr]
    refine .failed [] (.none socket) rfl hlen ?_
    rw [append_nil]
    refine h.outcome.error_iff.mpr ?_
    rw [feed_of_not_active hdone]
    exact herr
  · have hc : locals.parser.state=.complete := by
      by_contra hc
      exact hdone ⟨hc,herr⟩
    obtain ⟨es,hhead,hsplit,hinstruction⟩ := h.complete hc
    rw [if_neg herr]
    refine .complete [] unparsed es (.none socket) rfl (by rwa [append_nil])
      (by rwa [append_nil]) hlen hinstruction ?_
    refine ⟨front++done,back,?_,?_,?_,hbound,Or.inl hc⟩
    · rw [append_assoc]
      exact h.buffer
    · rw [length_append]
      exact h.unparsedStart
    · rw [length_append]
      exact h.unparsedEnd

/-- The loop has one of these outcomes. -/
theorem Progress.loopOutcome (socket : List SocketEvent) :
    LoopOutcome received socket (readLoop locals socket) := by
  induction locals, socket using readLoop.induct generalizing front done unparsed back received with
  | case1 locals socket hactive hstalled hroom =>
    have happend := (h.stalled hactive hstalled).1
    rw [readLoop_full hactive hstalled hroom]
    rw [happend] at hroom
    rcases h.makeRoom hactive hstalled with ⟨-,hlen⟩ | ⟨room,-,-,hsome,-⟩
    · obtain ⟨q,-,hqactive,hfeed,-⟩ := h.stalled_feed hactive hstalled
      refine .full [] (.none socket) rfl ?_ ?_
      · rw [append_nil,hlen]
      · rw [append_nil,hfeed]
        exact hqactive
    · rw [hroom] at hsome
      cases hsome
  | case2 locals socket hactive hstalled room hroom error socket' hreceive =>
    have happend := (h.stalled hactive hstalled).1
    rw [readLoop_refused hactive hstalled hroom hreceive]
    rw [happend] at hroom
    rcases h.makeRoom hactive hstalled with
      ⟨hnone,-⟩ | ⟨room',front',back',hsome,hroom',hlt,-⟩
    · rw [hroom] at hnone
      cases hnone
    rw [hroom] at hsome
    cases hsome
    obtain ⟨q,-,hqactive,hfeed,-⟩ := h.stalled_feed hactive hstalled
    have hend := hroom'.unparsedEnd
    refine .refused [] _ socket error (.none socket) ?_ hreceive rfl ?_ ?_
    · omega
    · rw [append_nil,h.length]
      omega
    · rw [append_nil,hfeed]
      exact hqactive
  | case3 locals socket hactive hstalled room hroom bytes socket' hreceive ih =>
    have happend := (h.stalled hactive hstalled).1
    rw [readLoop_received hactive hstalled hroom hreceive]
    rw [happend] at hroom
    rcases h.makeRoom hactive hstalled with
      ⟨hnone,-⟩ | ⟨room',front',back',hsome,hroom',-,hactive',hstalled'⟩
    · rw [hroom] at hnone
      cases hnone
    rw [hroom] at hsome
    cases hsome
    have hlen := (guacSocketReceive_ok hreceive).2.1
    exact (ih (hroom'.store hactive' hstalled' hlen)).afterPiece hreceive
  | case4 locals socket hactive hmoved ih =>
    rw [readLoop_advance hactive hmoved]
    by_cases herr : locals.call.parser.state=.error
    · have hadvance : locals.advance.parser.state=.error := herr
      have hdone : ¬locals.advance.parser.toGuacParser.Active := fun h' => h'.2 hadvance
      rw [readLoop_stopped hdone,ReadLocals.finish,if_pos hadvance]
      refine .failed [] (.none socket) rfl ?_ ?_
      · have hend := h.unparsedEnd
        have hbound := h.bound
        rw [append_nil,h.length]
        omega
      · rw [append_nil]
        refine h.outcome.error_iff.mpr (feed_of_error hactive ?_)
        rw [←h.call_eq]
        exact herr
    · have hparsed : locals.call.parsed≠0 := fun hzero => hmoved ⟨hzero,herr⟩
      exact ih (h.advance hactive hparsed herr)
  | case5 locals socket hdone => exact h.stopped hdone socket

/-- Received bytes that end an instruction, or that are none, decide how the
loop ends. -/
theorem Progress.readLoop_done (hdone : ¬(feed guacParserAlloc 0 received).parser.Active)
    (socket : List SocketEvent) :
    (readLoop locals socket).error=none ↔
      (feed guacParserAlloc 0 received).parser.state≠.error := by
  have hmoves : ∀ {locals : ReadLocals} {done unparsed : List UInt8},
      Progress locals front done unparsed back received →
        locals.parser.toGuacParser.Active→¬locals.Stalled := by
    intro locals done unparsed h hactive hstalled
    obtain ⟨q,-,hqactive,hfeed,-⟩ := h.stalled_feed hactive hstalled
    rw [hfeed] at hdone
    exact hdone hqactive
  induction locals, socket using readLoop.induct generalizing done unparsed with
  | case1 locals socket hactive hstalled hroom => exact absurd hstalled (hmoves h hactive)
  | case2 locals socket hactive hstalled room hroom error socket' hreceive =>
    exact absurd hstalled (hmoves h hactive)
  | case3 locals socket hactive hstalled room hroom bytes socket' hreceive ih =>
    exact absurd hstalled (hmoves h hactive)
  | case4 locals socket hactive hmoved ih =>
    rw [readLoop_advance hactive hmoved]
    by_cases herr : locals.call.parser.state=.error
    · have hadvance : locals.advance.parser.state=.error := herr
      rw [readLoop_stopped (fun h' => h'.2 hadvance),ReadLocals.finish,if_pos hadvance]
      refine iff_of_false (fun hnone => by cases hnone) (not_not.mpr ?_)
      refine h.outcome.error_iff.mpr (feed_of_error hactive ?_)
      rw [←h.call_eq]
      exact herr
    · have hparsed : locals.call.parsed≠0 := fun hzero => hmoved ⟨hzero,herr⟩
      exact ih (h.advance hactive hparsed herr)
  | case5 locals socket hstopped =>
    have hstate := h.outcome.error_iff
    rw [feed_of_not_active hstopped] at hstate
    rw [readLoop_stopped hstopped,ReadLocals.finish,ne_eq]
    by_cases herr : locals.parser.state=.error
    · rw [if_pos herr]
      exact iff_of_false (fun hnone => by cases hnone) (not_not.mpr (hstate.mpr herr))
    · rw [if_neg herr]
      exact iff_of_true rfl fun hfeed => herr (hstate.mp hfeed)

end

end GuacServer.Parser
