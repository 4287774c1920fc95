import GuacServer.Parser

/-!
# One element at a time, and what later bytes change

A call of the parser stalls when its bytes run out, stops at a terminator, or
fails. For each outcome this module says what the same call does when further
bytes follow: a stalled call is resumed, a terminator is found again, and a
failure stays a failure unless the accumulated length wraps around and comes
back below its limit. That last case is a named hypothesis here.
-/

namespace GuacServer.Parser

open DecimalNumerals List Unicode

/-- The same outcome seen from an earlier start in the buffer. A failed call
returns zero whatever it passed over. -/
def AppendResult.after (pre : List UInt8) (r : AppendResult) : AppendResult :=
  ⟨r.parser,pre++r.buffer,if r.parser.state=.error then 0 else pre.length+r.parsed⟩

@[simp] theorem AppendResult.after_parser (pre : List UInt8) (r : AppendResult) :
    (r.after pre).parser=r.parser := rfl

@[simp] theorem AppendResult.after_buffer (pre : List UInt8) (r : AppendResult) :
    (r.after pre).buffer=pre++r.buffer := rfl

/-- The return value moves with the start unless the call failed. -/
theorem AppendResult.after_parsed {pre : List UInt8} {r : AppendResult}
    (h : r.parser.state≠.error) : (r.after pre).parsed=pre.length+r.parsed := if_neg h

/-- Starting earlier twice is starting earlier once. -/
theorem AppendResult.after_after (pre pre' : List UInt8) (r : AppendResult) :
    (r.after pre').after pre=r.after (pre++pre') := by
  unfold AppendResult.after
  simp only [append_assoc,length_append,AppendResult.mk.injEq,true_and]
  split
  · rfl
  · omega

/-- Equal outcomes, except that two failures are not distinguished. -/
def SameOutcome (r s : AppendResult) : Prop := (r.parser.state=.error ∧ s.parser.state=.error) ∨ r=s

/-- The same outcomes remain so from an earlier start. -/
theorem SameOutcome.after {r s : AppendResult} (h : SameOutcome r s) (pre : List UInt8) :
    SameOutcome (r.after pre) (s.after pre) := by
  rcases h with h | rfl
  · exact Or.inl h
  · exact Or.inr rfl

/-- Starting no earlier is the same outcome. -/
theorem sameOutcome_after_nil (r : AppendResult) : SameOutcome r (r.after []) := by
  by_cases herr : r.parser.state=.error
  · exact Or.inl ⟨herr,herr⟩
  · right
    rw [AppendResult.after,if_neg herr,length_nil,Nat.zero_add,nil_append]

/-- Both of two same outcomes are failures, or neither is. -/
theorem SameOutcome.error_iff {r s : AppendResult} (h : SameOutcome r s) :
    r.parser.state=.error ↔ s.parser.state=.error := by
  rcases h with ⟨hr,hs⟩ | rfl
  · exact ⟨fun _ => hs,fun _ => hr⟩
  · exact Iff.rfl

/-- The parser state once a length prefix with the given digits is read. -/
def GuacParser.beginContent (parser : GuacParser) (address : ℕ) (length : ℤ) : GuacParser :=
  { parser with
    elementv := parser.elementv++[address]
    state := .content
    elementLength := length }

/-- The parser with another number of characters still to come. -/
def GuacParser.withLength (parser : GuacParser) (length : ℤ) : GuacParser :=
  { parser with elementLength := length }

section

variable (parser : GuacParser)

@[simp] theorem GuacParser.withLength_state (length : ℤ) :
    (parser.withLength length).state=parser.state := rfl

@[simp] theorem GuacParser.withLength_elementLength (length : ℤ) :
    (parser.withLength length).elementLength=length := rfl

@[simp] theorem GuacParser.withLength_self :
    parser.withLength parser.elementLength=parser := rfl

@[simp] theorem GuacParser.beginContent_state (address : ℕ) (length : ℤ) :
    (parser.beginContent address length).state=.content := rfl

@[simp] theorem GuacParser.beginContent_elementLength (address : ℕ)
    (length : ℤ) : (parser.beginContent address length).elementLength=length := rfl

@[simp] theorem GuacParser.beginContent_elementc (address : ℕ)
    (length : ℤ) : (parser.beginContent address length).elementc=parser.elementc+1 := by
  simp [GuacParser.elementc,GuacParser.beginContent]

end

variable {parser : GuacParser} {ds : List UInt8}

/-- Within an element's content the call is its content block. -/
theorem parseElement_content (h : parser.state=.content) (address : ℕ) (buffer : List UInt8) :
    parseElement parser address buffer=parseContent parser 0 buffer := by
  unfold parseElement
  simp [h]

/-- The content block does not depend on what the call parsed before it. -/
theorem parseContent_after (h : parser.state=.content) (pre buffer : List UInt8) :
    { parseContent parser pre.length buffer with
        buffer := pre++(parseContent parser pre.length buffer).buffer }=
      (parseContent parser 0 buffer).after pre := by
  unfold parseContent AppendResult.after
  rcases contentLoop parser.elementLength buffer with ⟨n,after,parsed,stop⟩
  cases stop <;> simp [endContent,h]

section

variable (h : parser.state=.length) (hds : ∀ d∈ds, IsDigit d) (address : ℕ)

include h hds address

/-- A buffer of digits is stored as the length so far. -/
theorem parseElement_exhausted
    (hle : ds.foldl accumulate parser.elementLength≤guacInstructionMaxLength) :
    parseElement parser address ds=
      ⟨parser.withLength (ds.foldl accumulate parser.elementLength),ds,ds.length⟩ := by
  have hscan := lengthLoop_digits hds parser.elementLength []
  rw [append_nil] at hscan
  unfold parseElement parseLength checkLength
  simp [h,hscan,lengthLoop,not_lt.mpr hle,GuacParser.withLength]

/-- Digits of too large a value are an error at the end of the buffer. -/
theorem parseElement_exhausted_long
    (hlt : guacInstructionMaxLength<ds.foldl accumulate parser.elementLength) :
    parseElement parser address ds=⟨{ parser with state := .error },ds,0⟩ := by
  have hscan := lengthLoop_digits hds parser.elementLength []
  rw [append_nil] at hscan
  unfold parseElement parseLength checkLength
  simp [h,hscan,lengthLoop,hlt]

/-- A length prefix of digits and a period begins an element. -/
theorem parseElement_period (buffer : List UInt8)
    (hle : ds.foldl accumulate parser.elementLength≤guacInstructionMaxLength) :
    parseElement parser address (ds++46::buffer)=
      (parseElement (parser.beginContent (address+(ds.length+1))
          (ds.foldl accumulate parser.elementLength))
        (address+(ds.length+1)) buffer).after (ds++[46]) := by
  have hscan := lengthLoop_digits hds parser.elementLength (46::buffer)
  have hperiod : lengthLoop (ds.foldl accumulate parser.elementLength) (46::buffer)=
      ⟨ds.foldl accumulate parser.elementLength,1,.period⟩ := rfl
  rw [hperiod] at hscan
  have hlen : (ds++[46]).length=ds.length+1 := by simp
  have happend : ds++46::buffer=(ds++[46])++buffer := by simp
  rw [parseElement_content (parser.beginContent_state ..),
    ←parseContent_after (parser.beginContent_state ..),hlen]
  unfold parseElement parseLength checkLength
  simp only [h,if_true,hscan,if_neg (not_lt.mpr hle)]
  rw [happend,←hlen,take_left,drop_left]
  rfl

/-- A length prefix of too large a value is an error at its period. -/
theorem parseElement_period_long (buffer : List UInt8)
    (hlt : guacInstructionMaxLength<ds.foldl accumulate parser.elementLength) :
    parseElement parser address (ds++46::buffer)=
      ⟨{ parser with
          elementv := parser.elementv++[address+(ds.length+1)]
          state := .error },ds++46::buffer,0⟩ := by
  have hscan := lengthLoop_digits hds parser.elementLength (46::buffer)
  have hperiod : lengthLoop (ds.foldl accumulate parser.elementLength) (46::buffer)=
      ⟨ds.foldl accumulate parser.elementLength,1,.period⟩ := rfl
  rw [hperiod] at hscan
  unfold parseElement parseLength checkLength
  simp [h,hscan,hlt]

/-- Any other byte in a length prefix is an error. -/
theorem parseElement_invalid {c : UInt8} (hc : ¬IsDigit c) (hp : c≠46) (buffer : List UInt8) :
    parseElement parser address (ds++c::buffer)=
      ⟨{ parser with state := .error },ds++c::buffer,0⟩ := by
  have hscan := lengthLoop_digits hds parser.elementLength (c::buffer)
  have hstop : lengthLoop (ds.foldl accumulate parser.elementLength) (c::buffer)=
      ⟨ds.foldl accumulate parser.elementLength,1,.invalid⟩ := by
    rw [lengthLoop,if_neg hc,if_neg hp]
  rw [hstop] at hscan
  unfold parseElement parseLength
  simp [h,hscan]

/-- A stalled length loop is resumed by the next call. -/
theorem parseElement_digits (buffer : List UInt8) :
    SameOutcome (parseElement parser address (ds++buffer))
      ((parseElement (parser.withLength (ds.foldl accumulate parser.elementLength))
        (address+ds.length) buffer).after ds) := by
  obtain ⟨es,hes,hcase⟩ := length_cases buffer
  have hall : ∀ d∈ds++es, IsDigit d := by
    intro d hd
    rcases mem_append.mp hd with hd | hd
    · exact hds d hd
    · exact hes d hd
  have hfold : (ds++es).foldl accumulate parser.elementLength=
      es.foldl accumulate (ds.foldl accumulate parser.elementLength) := foldl_append
  let resumed : GuacParser := parser.withLength (ds.foldl accumulate parser.elementLength)
  have hr : resumed.state=.length := h
  rcases le_or_gt (es.foldl accumulate resumed.elementLength) guacInstructionMaxLength with
    hle | hlt
  · rcases hcase with rfl | ⟨rest,rfl⟩ | ⟨c,rest,rfl,hc,hp⟩
    · right
      rw [parseElement_exhausted h hall address (by rw [hfold]; exact hle),
        parseElement_exhausted hr hes _ hle,hfold]
      simp [AppendResult.after,h,resumed,GuacParser.withLength]
    · right
      rw [←append_assoc,parseElement_period h hall address rest (by rw [hfold]; exact hle),
        parseElement_period hr hes _ rest hle,AppendResult.after_after,hfold]
      simp [GuacParser.beginContent,resumed,GuacParser.withLength,Nat.add_assoc]
    · left
      rw [←append_assoc,parseElement_invalid h hall address hc hp,
        AppendResult.after_parser,parseElement_invalid hr hes _ hc hp]
      exact ⟨rfl,rfl⟩
  · left
    rcases hcase with rfl | ⟨rest,rfl⟩ | ⟨c,rest,rfl,hc,hp⟩
    · rw [parseElement_exhausted_long h hall address (by rw [hfold]; exact hlt),
        AppendResult.after_parser,parseElement_exhausted_long hr hes _ hlt]
      exact ⟨rfl,rfl⟩
    · rw [←append_assoc,
        parseElement_period_long h hall address rest (by rw [hfold]; exact hlt),
        AppendResult.after_parser,parseElement_period_long hr hes _ rest hlt]
      exact ⟨rfl,rfl⟩
    · rw [←append_assoc,parseElement_invalid h hall address hc hp,
        AppendResult.after_parser,parseElement_invalid hr hes _ hc hp]
      exact ⟨rfl,rfl⟩

end

/-- The parser once a comma has ended an element. -/
def GuacParser.nextElement (parser : GuacParser) : GuacParser :=
  { parser with
    state := .length
    elementLength := 0 }

/-- The parser once a semicolon has ended the instruction. -/
def GuacParser.finish (parser : GuacParser) : GuacParser :=
  { parser with
    state := .complete
    elementLength := 0
    opcode := parser.elementv.head?
    argc := parser.elementc-1 }

/-- Complete characters of the content are passed over and counted down. -/
theorem parseElement_text (h : parser.state=.content) (cs : List CharBytes)
    (hle : cs.length≤parser.elementLength) (address : ℕ) (buffer : List UInt8) :
    parseElement parser address (textBytes cs++buffer)=
      (parseElement (parser.withLength (parser.elementLength-cs.length))
        (address+(textBytes cs).length) buffer).after (textBytes cs) := by
  have h' : (parser.withLength (parser.elementLength-cs.length)).state=.content := h
  rw [parseElement_content h,parseElement_content h',←parseContent_after h']
  unfold parseContent
  rw [GuacParser.withLength_elementLength,contentLoop_text cs hle]
  rcases contentLoop (parser.elementLength-cs.length) buffer with ⟨n,after,parsed,stop⟩
  cases stop <;> simp [endContent,GuacParser.elementc,GuacParser.withLength]

/-- Content stalls on bytes without a complete character, and always when the
length is negative. -/
theorem parseElement_stalled (h : parser.state=.content) (address : ℕ) {buffer : List UInt8}
    (hstall : parser.elementLength<0 ∨ Partial buffer) :
    parseElement parser address buffer=⟨parser,buffer,0⟩ := by
  have hloop : contentLoop parser.elementLength buffer=
      ⟨parser.elementLength,buffer,0,.exhausted⟩ := by
    cases buffer with
    | nil => simp [contentLoop]
    | cons c tail =>
      rw [contentLoop]
      split
      · rfl
      · next hn =>
        have hpart : tail.length+1<guacUtf8Charsize c := by
          rcases hstall with hneg | hpart
          · exact absurd hneg hn
          · exact hpart c tail rfl
        rw [if_pos hpart]
  rw [parseElement_content h,parseContent,hloop]
  rfl

section

variable (h : parser.state=.content) (hzero : parser.elementLength=0) (address : ℕ)

include h hzero address

/-- A semicolon where the element ends completes the instruction. -/
theorem parseElement_semicolon (tail : List UInt8) :
    parseElement parser address (59::tail)=⟨parser.finish,0::tail,1⟩ := by
  have hsize : guacUtf8Charsize 59=1 := by decide
  rw [parseElement_content h,parseContent,contentLoop,hzero,if_neg (by decide),hsize,
    if_neg (by omega),if_pos rfl]
  rfl

/-- A comma where the element ends begins the next element. -/
theorem parseElement_comma (tail : List UInt8) :
    parseElement parser address (44::tail)=⟨parser.nextElement,0::tail,1⟩ := by
  have hsize : guacUtf8Charsize 44=1 := by decide
  rw [parseElement_content h,parseContent,contentLoop,hzero,if_neg (by decide),hsize,
    if_neg (by omega),if_pos rfl]
  rfl

/-- Any other complete character there is an error. -/
theorem parseElement_unterminated {c : UInt8} {tail : List UInt8}
    (hfull : guacUtf8Charsize c≤tail.length+1) (h59 : c≠59) (h44 : c≠44) :
    parseElement parser address (c::tail)=
      ⟨{ parser with
          elementLength := 0
          state := .error },0::tail,0⟩ := by
  rw [parseElement_content h,parseContent,contentLoop,hzero,if_neg (by decide),
    if_neg (by omega),if_pos rfl,if_neg h59,if_neg h44]
  rfl

end

end GuacServer.Parser
