import GuacServer.Unicode
import GuacServer.DecimalNumerals

/-!
# The resumable instruction parser

guac_parser_append over one buffer, as parser.c computes it: the length
prefix is accumulated in 32-bit arithmetic and checked once per call, content
is skipped one character at a time, and terminators are overwritten by zero
bytes in place. Pointers into the buffer are addresses; the bytes a call may
use are passed as a list together with the address of the first one. What
each loop can do is stated once, and later proofs use those statements only.
-/

namespace GuacServer.Parser

open DecimalNumerals List Unicode

/-- Maximum number of characters of an element. -/
def guacInstructionMaxLength : ℤ := 8192

/-- Maximum number of elements per instruction, including the opcode. -/
def guacInstructionMaxElements : ℕ := 128

/-- All possible states of the instruction parser. -/
inductive GuacParseState
  | length
  | content
  | complete
  | error
  deriving DecidableEq, Repr

/-- The fields of the parser structure that guac_parser_append uses. Pointers
are addresses within the buffer being parsed; argv is always the address of
the second entry of the element table. -/
structure GuacParser where
  /-- Address of the opcode, once an instruction is complete. -/
  opcode : Option ℕ
  /-- Number of arguments of the complete instruction. -/
  argc : ℕ
  /-- The parse state of the instruction. -/
  state : GuacParseState
  /-- Characters still to come in the current element. -/
  elementLength : ℤ
  /-- Addresses of all elements begun so far. -/
  elementv : List ℕ
  deriving DecidableEq

/-- Number of elements begun so far. -/
def GuacParser.elementc (parser : GuacParser) : ℕ := parser.elementv.length

/-- Addresses of the arguments. -/
def GuacParser.argv (parser : GuacParser) : List ℕ := parser.elementv.tail

/-- guac_parser_reset: begin the next instruction. -/
def guacParserReset (parser : GuacParser) : GuacParser :=
  { parser with
    opcode := none
    argc := 0
    state := .length
    elementv := []
    elementLength := 0 }

/-- guac_parser_alloc: a parser on which nothing but the reset has set a
field. -/
def guacParserAlloc : GuacParser := guacParserReset ⟨none,0,.length,0,[]⟩

/-- Why the loop over a length prefix ended. -/
inductive LengthStop
  | exhausted
  | period
  | invalid
  deriving DecidableEq

/-- State of the length loop when it ends. -/
structure LengthScan where
  /-- The accumulated length. -/
  parsedLength : ℤ
  /-- Bytes pulled from the buffer, the last one included. -/
  parsed : ℕ
  /-- The reason for stopping. -/
  stop : LengthStop

/-- Digits accumulate into the length; a period ends the prefix. -/
def lengthLoop (parsedLength : ℤ) : List UInt8→LengthScan
  | [] => ⟨parsedLength,0,.exhausted⟩
  | c::buffer =>
    if IsDigit c then
      let scan := lengthLoop (accumulate parsedLength c) buffer
      { scan with parsed := scan.parsed+1 }
    else if c=46 then ⟨parsedLength,1,.period⟩
    else ⟨parsedLength,1,.invalid⟩

/-- Why the loop over element content ended. -/
inductive ContentStop
  | exhausted
  | semicolon
  | comma
  | invalid
  deriving DecidableEq

/-- State of the content loop when it ends. -/
structure ContentScan where
  /-- Characters still to come. -/
  elementLength : ℤ
  /-- The buffer as the loop leaves it. -/
  buffer : List UInt8
  /-- Bytes recorded as parsed. -/
  parsed : ℕ
  /-- The reason for stopping. -/
  stop : ContentStop

/-- Whole characters are counted down, and the character after the last one
must be a terminator, whose first byte is overwritten. The loop leaves a
character that is not yet complete, and does nothing at a negative length. -/
def contentLoop (elementLength : ℤ) : List UInt8 → ContentScan
  | [] => ⟨elementLength,[],0,.exhausted⟩
  | c::buffer =>
    if elementLength<0 then ⟨elementLength,c::buffer,0,.exhausted⟩
    else if buffer.length+1<guacUtf8Charsize c then
      ⟨elementLength,c::buffer,0,.exhausted⟩
    else if elementLength=0 then
      ⟨0,0::buffer,guacUtf8Charsize c,
        if c=59 then .semicolon else if c=44 then .comma else .invalid⟩
    else
      let scan := contentLoop (elementLength-1) (buffer.drop (guacUtf8Charsize c-1))
      { scan with
        buffer := c::buffer.take (guacUtf8Charsize c-1)++scan.buffer
        parsed := guacUtf8Charsize c+scan.parsed }
termination_by buffer => buffer.length
decreasing_by simp only [length_drop,length_cons]; omega

/-- Outcome of one call: parser, buffer contents and return value. -/
structure AppendResult where
  /-- The parser after the call. -/
  parser : GuacParser
  /-- The bytes of the buffer after the call. -/
  buffer : List UInt8
  /-- Number of bytes appended. -/
  parsed : ℕ
  deriving DecidableEq

/-- The range check that follows the length loop, and the stored length. -/
def checkLength (parser : GuacParser) (scan : LengthScan) : GuacParser×ℕ :=
  if scan.parsedLength > guacInstructionMaxLength then ({ parser with state := .error },0)
  else ({ parser with elementLength := scan.parsedLength },scan.parsed)

/-- The element length block; the second component is the number of bytes
parsed. An error leaves the state behind and the caller returns zero. -/
def parseLength (parser : GuacParser) (address : ℕ) (buffer : List UInt8) : GuacParser×ℕ :=
  let scan := lengthLoop parser.elementLength buffer
  match scan.stop with
  | .invalid => ({ parser with state := .error },0)
  | .exhausted => checkLength parser scan
  | .period =>
    checkLength { parser with
      elementv := parser.elementv++[address+scan.parsed]
      state := .content } scan

/-- How the content block ends, given the loop's end and the number of bytes
this call parsed before it. -/
def endContent (parser : GuacParser) (parsed : ℕ) (scan : ContentScan) : AppendResult :=
  let parser := { parser with elementLength := scan.elementLength }
  match scan.stop with
  | .exhausted => ⟨parser,scan.buffer,parsed+scan.parsed⟩
  | .semicolon =>
    ⟨{ parser with
        state := .complete
        opcode := parser.elementv.head?
        argc := parser.elementc-1 },scan.buffer,parsed+scan.parsed⟩
  | .comma => ⟨{ parser with state := .length },scan.buffer,parsed+scan.parsed⟩
  | .invalid => ⟨{ parser with state := .error },scan.buffer,0⟩

/-- The element content block, after `parsed` bytes of this call. -/
def parseContent (parser : GuacParser) (parsed : ℕ) (buffer : List UInt8) : AppendResult :=
  endContent parser parsed (contentLoop parser.elementLength buffer)

/-- The two blocks of guac_parser_append, after its check on the number of
elements. -/
def parseElement (parser : GuacParser) (address : ℕ) (buffer : List UInt8) : AppendResult :=
  let head := if parser.state=.length then parseLength parser address buffer else (parser,0)
  if head.1.state=.content then
    let body := parseContent head.1 head.2 (buffer.drop head.2)
    { body with buffer := buffer.take head.2++body.buffer }
  else ⟨head.1,buffer,head.2⟩

/-- guac_parser_append on the bytes that start at the given address. -/
def guacParserAppend (parser : GuacParser) (address : ℕ) (buffer : List UInt8) : AppendResult :=
  if parser.elementc=guacInstructionMaxElements ∧ parser.state≠.complete then
    ⟨{ parser with state := .error },buffer,0⟩
  else parseElement parser address buffer

/-- Digits at the head of the buffer are all accumulated. -/
theorem lengthLoop_digits {ds : List UInt8} (h : ∀ d∈ds, IsDigit d) (v : ℤ) (buffer : List UInt8) :
    lengthLoop v (ds++buffer)=
      { lengthLoop (ds.foldl accumulate v) buffer with
        parsed := ds.length+(lengthLoop (ds.foldl accumulate v) buffer).parsed } := by
  induction ds generalizing v with
  | nil => simp
  | cons d ds ih =>
    have hd : IsDigit d := h d (mem_cons_self ..)
    have htail := ih (fun d' hd' => h d' (mem_cons_of_mem _ hd')) (accumulate v d)
    rw [cons_append,lengthLoop,if_pos hd,htail]
    simp only [foldl_cons,length_cons,LengthScan.mk.injEq,true_and,and_true]
    omega

/-- The bytes at a length prefix: digits to the end of the buffer, or digits
and a period, or digits and an invalid byte. -/
theorem length_cases (buffer : List UInt8) :
    ∃ ds : List UInt8, (∀ d∈ds, IsDigit d) ∧ (buffer=ds ∨ (∃ rest, buffer=ds++46::rest) ∨
        (∃ c rest, buffer=ds++c::rest ∧ ¬IsDigit c ∧ c≠46)) := by
  induction buffer with
  | nil => exact ⟨[],by simp,Or.inl rfl⟩
  | cons c buffer ih =>
    by_cases hc : IsDigit c
    · obtain ⟨ds,hds,hcase⟩ := ih
      refine ⟨c::ds,forall_mem_cons.mpr ⟨hc,hds⟩,?_⟩
      rcases hcase with rfl | ⟨rest,rfl⟩ | ⟨e,rest,rfl,he⟩
      · exact Or.inl rfl
      · exact Or.inr (Or.inl ⟨rest,rfl⟩)
      · exact Or.inr (Or.inr ⟨e,rest,rfl,he⟩)
    · refine ⟨[],by simp,Or.inr ?_⟩
      by_cases hp : c=46
      · exact Or.inl ⟨buffer,by rw [hp]; rfl⟩
      · exact Or.inr ⟨c,buffer,rfl,hc,hp⟩

/-- No complete character is at the head of the bytes. -/
def Partial (rest : List UInt8) : Prop := ∀ c tail, rest=c::tail → tail.length+1<guacUtf8Charsize c

/-- Complete characters within the element are all skipped. -/
theorem contentLoop_text (cs : List CharBytes) {n : ℤ} (h : cs.length≤n) (buffer : List UInt8) :
    contentLoop n (textBytes cs++buffer)=
      { contentLoop (n-cs.length) buffer with
        buffer := textBytes cs++(contentLoop (n-cs.length) buffer).buffer
        parsed := (textBytes cs).length+(contentLoop (n-cs.length) buffer).parsed } := by
  induction cs generalizing n with
  | nil => simp
  | cons c cs ih =>
    rw [length_cons] at h
    push_cast at h
    have hsize : guacUtf8Charsize c.lead-1=c.rest.length := by rw [←c.size]; omega
    have hdrop : (c.rest++(textBytes cs++buffer)).drop c.rest.length=
        textBytes cs++buffer := drop_left ..
    have htake : (c.rest++(textBytes cs++buffer)).take c.rest.length=c.rest := take_left ..
    have hfull : ¬(c.rest++(textBytes cs++buffer)).length+1<guacUtf8Charsize c.lead := by
      rw [←c.size,length_append]
      omega
    have htail := ih (n := n-1) (by omega)
    have hn : n-1-(cs.length : ℤ)=n-((c::cs).length : ℤ) := by
      rw [length_cons]
      push_cast
      ring
    rw [hn] at htail
    rw [textBytes_cons,CharBytes.bytes,append_assoc,cons_append,contentLoop,
      if_neg (by omega),if_neg hfull,if_neg (by omega),hsize,hdrop,htake,htail]
    simp only [ContentScan.mk.injEq,cons_append,append_assoc,length_cons,
      length_append,true_and,and_true]
    have := c.size
    omega

/-- The bytes at the content of an element with `n` characters to come: some
of them and no further complete character, or all of them and a complete
character to inspect; a negative `n` reads none. -/
theorem content_cases (n : ℤ) (buffer : List UInt8) :
    ∃ cs rest, buffer=textBytes cs++rest ∧ ((n<0 ∧ cs=[] ∨ (cs.length : ℤ)≤n ∧ Partial rest) ∨
        n=cs.length ∧ ∃ c tail, rest=c::tail ∧ guacUtf8Charsize c≤tail.length+1) := by
  induction n, buffer using contentLoop.induct with
  | case1 n =>
    refine ⟨[],[],rfl,Or.inl ?_⟩
    rcases Int.lt_or_le n 0 with hn | hn
    · exact Or.inl ⟨hn,rfl⟩
    · exact Or.inr ⟨hn,by simp [Partial]⟩
  | case2 n c buffer hn => exact ⟨[],c::buffer,rfl,Or.inl (Or.inl ⟨hn,rfl⟩)⟩
  | case3 n c buffer hn hshort =>
    refine ⟨[],c::buffer,rfl,Or.inl (Or.inr ⟨by simpa using hn,?_⟩)⟩
    rintro c' tail heq
    cases heq
    exact hshort
  | case4 c buffer hn hshort =>
    exact ⟨[],c::buffer,rfl,Or.inr ⟨rfl,c,buffer,rfl,by omega⟩⟩
  | case5 n c buffer hn hshort hzero ih =>
    obtain ⟨cs,rest,hbuf,hcase⟩ := ih
    have hk := guacUtf8Charsize_bounds c
    let head : CharBytes := ⟨c,buffer.take (guacUtf8Charsize c-1),by
      rw [length_take]; omega⟩
    have hsplit : c::buffer=textBytes (head::cs)++rest := by
      rw [textBytes_cons,append_assoc,←hbuf]
      simp [head,CharBytes.bytes]
    refine ⟨head::cs,rest,hsplit,?_⟩
    rw [length_cons]
    push_cast
    rcases hcase with (⟨hneg,-⟩ | ⟨hle,hpart⟩) | ⟨hcount,hfull⟩
    · omega
    · exact Or.inl (Or.inr ⟨by omega,hpart⟩)
    · exact Or.inr ⟨by omega,hfull⟩

end GuacServer.Parser
