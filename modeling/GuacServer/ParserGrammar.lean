import GuacServer.ParserResume

/-!
# Elements, instructions and what a single buffer parses as

An instruction is a sequence of elements, each a run of digits, a period and
content, separated by commas and ended by a semicolon. The parser is shown to
consume exactly such a sequence, with lengths read modulo 2^32, and to leave
the content of every element in place as a string. The repeated call on the
remainder of one buffer is the loop every caller of the parser runs.
-/

namespace GuacServer.Parser

open DecimalNumerals List Unicode

/-- A call stays within its buffer, keeps the buffer's size, and leaves what
it did not parse untouched unless it failed. -/
structure AppendResult.Within (buffer : List UInt8) (r : AppendResult) : Prop where
  /-- Only bytes of the buffer are parsed. -/
  parsed_le : r.parsed≤buffer.length
  /-- The buffer is modified in place. -/
  length_eq : r.buffer.length=buffer.length
  /-- Unparsed bytes are unchanged. -/
  drop_eq : r.parser.state≠.error → r.buffer.drop r.parsed=buffer.drop r.parsed
  /-- A complete instruction has a terminator. -/
  progress : r.parser.state=.complete→0<r.parsed

variable {buffer : List UInt8} {parser : GuacParser} {e : Element}

/-- The same bounds hold from an earlier start. -/
theorem AppendResult.Within.after {r : AppendResult} (h : r.Within buffer) (pre : List UInt8) :
    (r.after pre).Within (pre++buffer) := by
  have hle := h.parsed_le
  constructor
  · unfold AppendResult.after
    dsimp only
    rw [length_append]
    split <;> omega
  · rw [AppendResult.after_buffer,length_append,length_append,h.length_eq]
  · intro hstate
    rw [AppendResult.after_parser] at hstate
    rw [AppendResult.after_parsed hstate,AppendResult.after_buffer,←drop_drop,
      ←drop_drop,drop_left,drop_left]
    exact h.drop_eq hstate
  · intro hstate
    rw [AppendResult.after_parser] at hstate
    have hne : r.parser.state≠.error := by rw [hstate]; decide
    have hpos := h.progress hstate
    rw [AppendResult.after_parsed hne]
    omega

/-- A call that parses nothing and does not complete is within bounds. -/
theorem AppendResult.within_zero (h : parser.state≠.complete) (buffer : List UInt8) :
    AppendResult.Within buffer ⟨parser,buffer,0⟩ :=
  ⟨Nat.zero_le _,rfl,fun _ => rfl,fun hc => absurd hc h⟩

/-- The content of an element is parsed within bounds. -/
theorem parseElement_within_content (h : parser.state=.content) (address : ℕ)
    (buffer : List UInt8) : (parseElement parser address buffer).Within buffer := by
  obtain ⟨cs,rest,rfl,hcase⟩ := content_cases parser.elementLength buffer
  have hnot : parser.state≠.complete := by rw [h]; decide
  rcases hcase with (⟨hneg,rfl⟩ | ⟨hle,hpart⟩) | ⟨hcount,c,tail,rfl,hfull⟩
  · rw [parseElement_stalled h address (Or.inl hneg)]
    exact AppendResult.within_zero hnot _
  · rw [parseElement_text h cs hle]
    apply AppendResult.Within.after
    rw [parseElement_stalled (by exact h) _ (Or.inr hpart)]
    exact AppendResult.within_zero (by exact hnot) _
  · rw [parseElement_text h cs hcount.ge]
    apply AppendResult.Within.after
    have hzero : (parser.withLength (parser.elementLength-cs.length)).elementLength=0 := by
      rw [GuacParser.withLength_elementLength]
      omega
    by_cases h59 : c=59
    · rw [h59,parseElement_semicolon (by exact h) hzero]
      exact ⟨by simp,rfl,fun _ => rfl,fun _ => Nat.one_pos⟩
    by_cases h44 : c=44
    · rw [h44,parseElement_comma (by exact h) hzero]
      exact ⟨by simp,rfl,fun _ => rfl,fun _ => Nat.one_pos⟩
    · rw [parseElement_unterminated (by exact h) hzero _ hfull h59 h44]
      exact ⟨by simp,rfl,fun herr => absurd rfl herr,fun hc => by cases hc⟩

/-- Every call of the two blocks is within bounds. -/
theorem parseElement_within (h : parser.state≠.complete) (address : ℕ) (buffer : List UInt8) :
    (parseElement parser address buffer).Within buffer := by
  cases hstate : parser.state with
  | length =>
    obtain ⟨ds,hds,hcase⟩ := length_cases buffer
    rcases le_or_gt (ds.foldl accumulate parser.elementLength) guacInstructionMaxLength with
      hle | hlt
    · rcases hcase with rfl | ⟨rest,rfl⟩ | ⟨c,rest,rfl,hc,hp⟩
      · rw [parseElement_exhausted hstate hds address hle]
        exact ⟨Nat.le_refl _,rfl,fun _ => rfl,fun hc => absurd hc h⟩
      · rw [parseElement_period hstate hds address rest hle]
        have hbegin := parser.beginContent_state (address+(ds.length+1))
          (ds.foldl accumulate parser.elementLength)
        have hrest := (parseElement_within_content hbegin (address+(ds.length+1)) rest).after
          (ds++[46])
        rwa [append_assoc] at hrest
      · rw [parseElement_invalid hstate hds address hc hp]
        exact AppendResult.within_zero (by simp) _
    · rcases hcase with rfl | ⟨rest,rfl⟩ | ⟨c,rest,rfl,hc,hp⟩
      · rw [parseElement_exhausted_long hstate hds address hlt]
        exact AppendResult.within_zero (by simp) _
      · rw [parseElement_period_long hstate hds address rest hlt]
        exact AppendResult.within_zero (by simp) _
      · rw [parseElement_invalid hstate hds address hc hp]
        exact AppendResult.within_zero (by simp) _
  | content => exact parseElement_within_content hstate address buffer
  | complete => exact absurd hstate h
  | error =>
    unfold parseElement
    simp only [hstate,reduceCtorEq,if_false]
    exact AppendResult.within_zero h _

/-- Every call of guac_parser_append within an instruction is within bounds. -/
theorem guacParserAppend_within (h : parser.state≠.complete) (address : ℕ) (buffer : List UInt8) :
    (guacParserAppend parser address buffer).Within buffer := by
  unfold guacParserAppend
  split
  · exact AppendResult.within_zero (by simp) _
  · exact parseElement_within h address buffer

/-- A parser that has neither completed an instruction nor failed. -/
def GuacParser.Active (parser : GuacParser) : Prop := parser.state≠.complete ∧ parser.state≠.error

instance (parser : GuacParser) : Decidable parser.Active :=
  inferInstanceAs (Decidable (parser.state≠.complete ∧ parser.state≠.error))

/-- Repeated calls on the unparsed remainder of one buffer, until nothing more
is parsed or the instruction is complete or wrong. -/
def feed (parser : GuacParser) (address : ℕ) (buffer : List UInt8) : AppendResult :=
  if _h : parser.Active then
    let r := guacParserAppend parser address buffer
    if r.parsed=0 then r
    else (feed r.parser (address+r.parsed) (buffer.drop r.parsed)).after (r.buffer.take r.parsed)
  else ⟨parser,buffer,0⟩
termination_by buffer.length
decreasing_by
  have hle := (guacParserAppend_within _h.1 address buffer).parsed_le
  have hne : (guacParserAppend parser address buffer).parsed≠0 := by assumption
  change (buffer.drop (guacParserAppend parser address buffer).parsed).length<buffer.length
  rw [length_drop]
  omega

/-- A parser that is done parses nothing more. -/
theorem feed_of_not_active (h : ¬parser.Active) (address : ℕ) (buffer : List UInt8) :
    feed parser address buffer=⟨parser,buffer,0⟩ := by
  rw [feed,dif_neg h]

variable {address : ℕ}

/-- The repetition ends with a call that parses nothing. -/
theorem feed_of_parsed_zero (h : parser.Active)
    (hzero : (guacParserAppend parser address buffer).parsed=0) :
    feed parser address buffer=guacParserAppend parser address buffer := by
  rw [feed,dif_pos h,if_pos hzero]

/-- After a call that parses something, the remainder is parsed. -/
theorem feed_of_parsed (h : parser.Active)
    (hne : (guacParserAppend parser address buffer).parsed≠0) :
    feed parser address buffer=(feed (guacParserAppend parser address buffer).parser
        (address+(guacParserAppend parser address buffer).parsed)
        (buffer.drop (guacParserAppend parser address buffer).parsed)).after
        ((guacParserAppend parser address buffer).buffer.take
          (guacParserAppend parser address buffer).parsed) := by
  rw [feed,dif_pos h,if_neg hne]

/-- A call that ends the instruction ends the repetition. -/
theorem feed_of_complete (h : parser.Active)
    (hc : (guacParserAppend parser address buffer).parser.state=.complete) :
    feed parser address buffer=guacParserAppend parser address buffer := by
  have hwithin := guacParserAppend_within h.1 address buffer
  have hpos := hwithin.progress hc
  have hne : (guacParserAppend parser address buffer).parser.state≠.error := by rw [hc]; decide
  rw [feed_of_parsed h (by omega),feed_of_not_active (fun hactive => hactive.1 hc),
    ←hwithin.drop_eq hne]
  unfold AppendResult.after
  dsimp only
  rw [take_append_drop,if_neg hne,length_take,hwithin.length_eq,
    Nat.min_eq_left hwithin.parsed_le,Nat.add_zero]

/-- A failed call ends the repetition. -/
theorem feed_of_error (h : parser.Active)
    (herr : (guacParserAppend parser address buffer).parser.state=.error) :
    (feed parser address buffer).parser.state=.error := by
  by_cases hzero : (guacParserAppend parser address buffer).parsed=0
  · rw [feed_of_parsed_zero h hzero]
    exact herr
  · rw [feed_of_parsed h hzero,feed_of_not_active (fun hactive => hactive.2 herr)]
    exact herr

/-- The bytes of one element: its length prefix and its characters. -/
structure Element where
  /-- The digits of the length prefix, possibly none. -/
  digits : List UInt8
  /-- Only digits precede the period. -/
  digits_ok : ∀ d∈digits, IsDigit d
  /-- The characters of the content. -/
  content : List CharBytes

/-- An element as it stands in the stream, before its terminator. -/
def Element.wire (e : Element) : List UInt8 := e.digits++46::textBytes e.content

/-- The string that the element is read as. -/
def Element.value (e : Element) : List UInt8 := cString (textBytes e.content)

/-- The length prefix gives the number of characters, in exact arithmetic, and
the number is within the limit. -/
def Element.WellFormed (e : Element) : Prop :=
  numeral e.digits=e.content.length ∧ (e.content.length : ℤ)≤guacInstructionMaxLength

/-- The length prefix gives the number of characters in 32-bit arithmetic,
which is what the parser compares. -/
def Element.Delimited (e : Element) : Prop :=
  wrap32 (numeral e.digits)=e.content.length ∧ (e.content.length : ℤ)≤guacInstructionMaxLength

/-- Within the limit nothing wraps around. -/
theorem Element.WellFormed.delimited (h : e.WellFormed) : e.Delimited := by
  have hle := h.2
  unfold guacInstructionMaxLength at hle
  refine ⟨?_,h.2⟩
  rw [h.1,wrap32_of_range] <;> omega

/-- The parser is at the first byte of an element. -/
def GuacParser.ElementStart (parser : GuacParser) : Prop :=
  parser.state=.length ∧ parser.elementLength=0

/-- An element start is within an instruction. -/
theorem GuacParser.ElementStart.active (h : parser.ElementStart) : parser.Active := by
  constructor <;> rw [h.1] <;> decide

/-- After a comma the parser is at an element start again. -/
theorem GuacParser.nextElement_start (parser : GuacParser) : parser.nextElement.ElementStart :=
  ⟨rfl,rfl⟩

/-- The length that an element start accumulates from digits. -/
theorem GuacParser.ElementStart.foldl_accumulate (h : parser.ElementStart) {ds : List UInt8}
    (hds : ∀ d∈ds, IsDigit d) :
    ds.foldl accumulate parser.elementLength=wrap32 (numeral ds) := by
  have hzero : wrap32 (0 : ℕ)=0 := by decide
  rw [h.2,←hzero,DecimalNumerals.foldl_accumulate hds,numeral]

/-- Prefix and content of an element are passed over up to its terminator. -/
theorem parseElement_wire (h : parser.ElementStart) (he : e.Delimited) (address : ℕ)
    (tail : List UInt8) :
    parseElement parser address (e.wire++tail)=
      (parseElement (parser.beginContent (address+(e.digits.length+1)) 0)
        (address+e.wire.length) tail).after e.wire := by
  have hv := h.foldl_accumulate e.digits_ok
  rw [he.1] at hv
  have hbegin := parser.beginContent_state (address+(e.digits.length+1)) e.content.length
  have hlen : e.wire.length=e.digits.length+1+(textBytes e.content).length := by
    rw [Element.wire,length_append,length_cons]
    omega
  rw [Element.wire,append_assoc,cons_append,
    parseElement_period h.1 e.digits_ok _ _ (by rw [hv]; exact he.2),hv,
    parseElement_text hbegin e.content (Int.le_refl _),AppendResult.after_after,Nat.add_assoc,←hlen]
  have hzero : (parser.beginContent (address+(e.digits.length+1)) e.content.length).withLength
      ((parser.beginContent (address+(e.digits.length+1)) e.content.length).elementLength -
        e.content.length)=parser.beginContent (address+(e.digits.length+1)) 0 := by
    simp [GuacParser.withLength,GuacParser.beginContent]
  rw [hzero,Element.wire,append_assoc,singleton_append]

/-- The last element of an instruction is parsed in one call. -/
theorem parseElement_last (h : parser.ElementStart) (he : e.Delimited) (address : ℕ)
    (tail : List UInt8) :
    parseElement parser address (e.wire++59::tail)=
      ⟨(parser.beginContent (address+(e.digits.length+1)) 0).finish,e.wire++0::tail,
        e.wire.length+1⟩ := by
  rw [parseElement_wire h he,parseElement_semicolon (parser.beginContent_state ..) rfl]
  rfl

/-- Every other element is parsed in one call that leaves an element start. -/
theorem parseElement_next (h : parser.ElementStart) (he : e.Delimited) (address : ℕ)
    (tail : List UInt8) :
    parseElement parser address (e.wire++44::tail)=
      ⟨(parser.beginContent (address+(e.digits.length+1)) 0).nextElement,
        e.wire++0::tail,e.wire.length+1⟩ := by
  rw [parseElement_wire h he,parseElement_comma (parser.beginContent_state ..) rfl]
  rfl

/-- What one call at an element start can do. Only the last case depends on
where the buffer happens to end. -/
inductive StartOutcome (parser : GuacParser) (address : ℕ) (buffer : List UInt8) : Prop
  /-- The bytes run out within the element, and later bytes resume it. -/
  | stalled (q : GuacParser) (pre rest : List UInt8) (hactive : q.Active)
      (hcount : q.elementc=parser.elementc ∨ q.state=.content ∧ q.elementc=parser.elementc+1)
      (hsplit : buffer=pre++rest) (hempty : pre=[] → buffer=[])
      (hresult : parseElement parser address buffer=⟨q,buffer,pre.length⟩)
      (hstall : ∀ address', parseElement q address' rest=⟨q,rest,0⟩)
      (hresume : ∀ more, SameOutcome (parseElement parser address (buffer++more))
        ((parseElement q (address+pre.length) (rest++more)).after pre))
  /-- A whole element and the end of the instruction. -/
  | last (e : Element) (tail : List UInt8) (he : e.Delimited)
      (hsplit : buffer=e.wire++59::tail)
  /-- A whole element and a comma. -/
  | next (e : Element) (tail : List UInt8) (he : e.Delimited)
      (hsplit : buffer=e.wire++44::tail)
  /-- An error that further bytes do not change. -/
  | failed (hstays : ∀ more, (parseElement parser address (buffer++more)).parser.state=.error)
  /-- Digits only, of a value beyond the limit when the buffer ends. -/
  | tooLong (hdigits : ∀ d∈buffer, IsDigit d)
      (hlong : guacInstructionMaxLength<wrap32 (numeral buffer))

/-- A period after digits within the limit: the element's content decides. -/
theorem startOutcome_period (h : parser.ElementStart) (address : ℕ) {ds : List UInt8}
    (hds : ∀ d∈ds, IsDigit d) (rest : List UInt8)
    (hle : wrap32 (numeral ds)≤guacInstructionMaxLength) :
    StartOutcome parser address (ds++46::rest) := by
  have hv := h.foldl_accumulate hds
  have hperiod : ∀ more, parseElement parser address (ds++46::more)=
      (parseElement (parser.beginContent (address+(ds.length+1)) (wrap32 (numeral ds)))
        (address+(ds.length+1)) more).after (ds++[46]) := by
    intro more
    rw [parseElement_period h.1 hds address more (by rw [hv]; exact hle),hv]
  have hbegin := parser.beginContent_state (address+(ds.length+1)) (wrap32 (numeral ds))
  have hlen : (ds++[46]).length=ds.length+1 := by simp
  obtain ⟨cs,tail,rfl,hcase⟩ := content_cases (wrap32 (numeral ds)) rest
  rcases hcase with (⟨hneg,rfl⟩ | ⟨hcs,hpart⟩) | ⟨hcount,c,tail,rfl,hfull⟩
  · -- a negative length stalls on any bytes
    have hstall : ∀ address' buffer, parseElement (parser.beginContent
        (address+(ds.length+1)) (wrap32 (numeral ds))) address' buffer=
          ⟨parser.beginContent (address+(ds.length+1)) (wrap32 (numeral ds)),buffer,0⟩ :=
      fun address' buffer => parseElement_stalled hbegin address'
        (Or.inl (by rw [GuacParser.beginContent_elementLength]; exact hneg))
    refine .stalled _ (ds++[46]) tail ⟨by rw [hbegin]; decide,by rw [hbegin]; decide⟩
      (Or.inr ⟨hbegin,parser.beginContent_elementc ..⟩) (by simp) (by simp) ?_
      (fun address' => hstall address' tail) ?_
    · rw [textBytes_nil,nil_append,hperiod,hstall]
      simp [AppendResult.after]
    · intro more
      right
      rw [textBytes_nil,nil_append,append_assoc,cons_append,hperiod,hlen]
  · have hcs' : (cs.length : ℤ)≤(parser.beginContent (address+(ds.length+1))
        (wrap32 (numeral ds))).elementLength := by
      rw [GuacParser.beginContent_elementLength]
      exact hcs
    have htext : ∀ more, parseElement parser address (ds++46::(textBytes cs++more))=
        (parseElement ((parser.beginContent (address+(ds.length+1))
            (wrap32 (numeral ds))).withLength (wrap32 (numeral ds)-cs.length))
          (address+(ds++46::textBytes cs).length) more).after (ds++46::textBytes cs) := by
      intro more
      rw [hperiod,parseElement_text hbegin cs hcs',AppendResult.after_after]
      simp [GuacParser.beginContent,Nat.add_assoc,Nat.add_comm 1]
    have hq : ((parser.beginContent (address+(ds.length+1)) (wrap32 (numeral ds))).withLength
        (wrap32 (numeral ds)-cs.length)).state=.content := hbegin
    refine .stalled _ (ds++46::textBytes cs) tail ⟨by rw [hq]; decide,by rw [hq]; decide⟩
      (Or.inr ⟨hq,parser.beginContent_elementc ..⟩) (by simp) (by simp) ?_
      (fun _ => parseElement_stalled hq _ (Or.inr hpart)) ?_
    · rw [htext,parseElement_stalled hq _ (Or.inr hpart)]
      simp [AppendResult.after]
    · intro more
      right
      rw [←htext]
      simp
  · let e : Element := ⟨ds,hds,cs⟩
    have he : e.Delimited := ⟨hcount,hcount ▸ hle⟩
    have hwire : ∀ x, ds++46::(textBytes cs++x)=e.wire++x := by
      intro x
      simp [e,Element.wire]
    rw [hwire]
    by_cases h59 : c=59
    · exact .last e tail he (by rw [h59])
    by_cases h44 : c=44
    · exact .next e tail he (by rw [h44])
    · refine .failed fun more => ?_
      rw [append_assoc,cons_append,parseElement_wire h he,AppendResult.after_parser,
        parseElement_unterminated (parser.beginContent_state ..) rfl _ _ h59 h44]
      rw [length_append]
      omega

/-- Every call at an element start has one of these outcomes. -/
theorem startOutcome (h : parser.ElementStart) (address : ℕ) (buffer : List UInt8) :
    StartOutcome parser address buffer := by
  obtain ⟨ds,hds,hcase⟩ := length_cases buffer
  have hv := h.foldl_accumulate hds
  rcases hcase with rfl | ⟨rest,rfl⟩ | ⟨c,rest,rfl,hc,hp⟩
  · rcases le_or_gt (wrap32 (numeral buffer)) guacInstructionMaxLength with hle | hlt
    · rw [←hv] at hle
      refine .stalled (parser.withLength (buffer.foldl accumulate parser.elementLength)) buffer []
        ⟨?_,?_⟩ (Or.inl rfl) (append_nil _).symm id
        (parseElement_exhausted h.1 hds address hle) ?_ (parseElement_digits h.1 hds address)
      · rw [GuacParser.withLength_state,h.1]
        decide
      · rw [GuacParser.withLength_state,h.1]
        decide
      · intro address'
        exact parseElement_exhausted (by exact h.1) (by simp) address' hle
    · exact .tooLong hds hlt
  · rcases le_or_gt (wrap32 (numeral ds)) guacInstructionMaxLength with hle | hlt
    · exact startOutcome_period h address hds rest hle
    · refine .failed fun more => ?_
      rw [append_assoc,cons_append,
        parseElement_period_long h.1 hds address _ (by rw [hv]; exact hlt)]
  · refine .failed fun more => ?_
    rw [append_assoc,cons_append,parseElement_invalid h.1 hds address hc hp]

/-- Below the limit on elements a call is its two blocks. -/
theorem guacParserAppend_of_ne (h : parser.elementc≠guacInstructionMaxElements) (address : ℕ)
    (buffer : List UInt8) :
    guacParserAppend parser address buffer=parseElement parser address buffer :=
  if_neg fun hfull => h hfull.1

/-- At the limit every call within an instruction fails. -/
theorem guacParserAppend_of_full (hactive : parser.Active)
    (h : parser.elementc=guacInstructionMaxElements) (address : ℕ) (buffer : List UInt8) :
    guacParserAppend parser address buffer=⟨{ parser with state := .error },buffer,0⟩ :=
  if_pos ⟨h,hactive.1⟩

/-- At the limit no bytes complete the instruction. -/
theorem feed_of_full (hactive : parser.Active) (h : parser.elementc=guacInstructionMaxElements)
    (address : ℕ) (buffer : List UInt8) : (feed parser address buffer).parser.state=.error :=
  feed_of_error hactive (by rw [guacParserAppend_of_full hactive h])

/-- The bytes of an instruction: elements between commas, and a semicolon. -/
def wireInstruction : List Element→List UInt8
  | [] => []
  | [e] => e.wire++[59]
  | e::es => e.wire++44::wireInstruction es

/-- The bytes of an instruction once every terminator is overwritten. -/
def storedInstruction (es : List Element) : List UInt8 := es.flatMap fun e => e.wire++[0]

/-- Where the content of each element starts. -/
def elementAddresses (address : ℕ) : List Element→List ℕ
  | [] => []
  | e::es =>
    (address+(e.digits.length+1))::elementAddresses (address+(e.wire.length+1)) es

/-- The parser once the given elements complete the instruction. -/
def GuacParser.complete (parser : GuacParser) (address : ℕ) (es : List Element) : GuacParser :=
  { parser with
    state := .complete
    elementLength := 0
    elementv := parser.elementv++elementAddresses address es
    opcode := (parser.elementv++elementAddresses address es).head?
    argc := parser.elementc+es.length-1 }

@[simp] theorem wireInstruction_single (e : Element) : wireInstruction [e]=e.wire++[59] := rfl

@[simp] theorem wireInstruction_cons (e f : Element) (es : List Element) :
    wireInstruction (e::f::es)=e.wire++44::wireInstruction (f::es) := rfl

/-- An instruction has at least two bytes for each of its elements. -/
theorem two_mul_length_le_wireInstruction (es : List Element) :
    2*es.length≤(wireInstruction es).length := by
  induction es with
  | nil => exact Nat.le_refl _
  | cons e es ih =>
    have hwire : 1≤e.wire.length := by
      rw [Element.wire,length_append,length_cons]
      omega
    cases es with
    | nil =>
      rw [wireInstruction_single,length_append]
      simp only [length_cons,length_nil]
      omega
    | cons f es =>
      rw [wireInstruction_cons,length_append]
      simp only [length_cons] at ih ⊢
      omega

/-- Terminators are overwritten one for one. -/
theorem length_storedInstruction (es : List Element) :
    (storedInstruction es).length=(wireInstruction es).length := by
  induction es with
  | nil => rfl
  | cons e es ih =>
    cases es with
    | nil => simp [storedInstruction]
    | cons f es =>
      rw [wireInstruction_cons,length_append,length_cons,←ih]
      simp [storedInstruction]

/-- One element and a comma, then the rest. -/
theorem feed_next (h : parser.ElementStart) (hcount : parser.elementc≠guacInstructionMaxElements)
    (he : e.Delimited) (address : ℕ) (tail : List UInt8) :
    feed parser address (e.wire++44::tail)=
      (feed (parser.beginContent (address+(e.digits.length+1)) 0).nextElement
        (address+(e.wire.length+1)) tail).after (e.wire++[0]) := by
  have hcall := guacParserAppend_of_ne hcount address (e.wire++44::tail)
  rw [parseElement_next h he] at hcall
  have hdrop : (e.wire++44::tail).drop (e.wire.length+1)=tail := by
    rw [drop_length_add_append,drop_one,tail_cons]
  have htake : (e.wire++0::tail).take (e.wire.length+1)=e.wire++[0] := by
    rw [take_length_add_append,take_succ_cons,take_zero]
  rw [feed_of_parsed h.active (by rw [hcall]; exact Nat.succ_ne_zero _),hcall]
  dsimp only
  rw [hdrop,htake]

/-- The last element and its semicolon. -/
theorem feed_last (h : parser.ElementStart) (hcount : parser.elementc≠guacInstructionMaxElements)
    (he : e.Delimited) (address : ℕ) (tail : List UInt8) :
    feed parser address (e.wire++59::tail)=
      ⟨(parser.beginContent (address+(e.digits.length+1)) 0).finish,e.wire++0::tail,
        e.wire.length+1⟩ := by
  have hcall := guacParserAppend_of_ne hcount address (e.wire++59::tail)
  rw [parseElement_last h he] at hcall
  rw [feed_of_complete h.active (by rw [hcall]; rfl),hcall]

/-- Elements delimited by their lengths are parsed as an instruction, whatever
follows them in the buffer. -/
theorem feed_instruction (h : parser.ElementStart) {es : List Element} (hne : es≠[])
    (hcount : parser.elementc+es.length≤guacInstructionMaxElements)
    (hes : ∀ e∈es, e.Delimited) (address : ℕ) (tail : List UInt8) :
    feed parser address (wireInstruction es++tail)=
      ⟨parser.complete address es,storedInstruction es++tail,(wireInstruction es).length⟩ := by
  induction es generalizing parser address with
  | nil => exact absurd rfl hne
  | cons e es ih =>
    have he := hes e (mem_cons_self ..)
    have hlt : parser.elementc≠guacInstructionMaxElements := by
      rw [length_cons] at hcount
      omega
    cases es with
    | nil =>
      rw [wireInstruction_single,append_assoc,singleton_append,feed_last h hlt he]
      simp [GuacParser.finish,GuacParser.beginContent,GuacParser.complete,elementAddresses,
        storedInstruction,GuacParser.elementc]
    | cons f es =>
      have hstart := (parser.beginContent (address+(e.digits.length+1)) 0).nextElement_start
      have hrest := ih hstart (by simp)
        (by simp [GuacParser.elementc,GuacParser.nextElement,GuacParser.beginContent] at hcount ⊢
            omega)
        (fun g hg => hes g (mem_cons_of_mem _ hg)) (address+(e.wire.length+1))
      rw [wireInstruction_cons,append_assoc,cons_append,feed_next h hlt he,hrest]
      simp [AppendResult.after,GuacParser.complete,GuacParser.nextElement,
        GuacParser.beginContent,elementAddresses,storedInstruction,GuacParser.elementc]
      omega

/-- A stalled call at an element start leads to no complete instruction. -/
theorem feed_of_stalled {q : GuacParser} (h : parser.Active) (hq : q.Active) {pre rest : List UInt8}
    (hresult : guacParserAppend parser address (pre++rest)=⟨q,pre++rest,pre.length⟩)
    (hstall : ∀ address', parseElement q address' rest=⟨q,rest,0⟩) :
    (feed parser address (pre++rest)).parser.state≠.complete := by
  by_cases hzero : pre.length=0
  · rw [feed_of_parsed_zero h (by rw [hresult]; exact hzero),hresult]
    exact hq.1
  · rw [feed_of_parsed h (by rw [hresult]; exact hzero),hresult,AppendResult.after_parser]
    dsimp only
    rw [drop_left]
    by_cases hfull : q.elementc=guacInstructionMaxElements
    · rw [feed_of_full hq hfull]
      decide
    · have hcall := guacParserAppend_of_ne hfull (address+pre.length) rest
      rw [hstall] at hcall
      rw [feed_of_parsed_zero hq (by rw [hcall]),hcall]
      exact hq.1

/-- Bytes that complete an instruction begin with elements delimited by their
lengths. -/
theorem feed_complete (h : parser.ElementStart) (hle : parser.elementc≤guacInstructionMaxElements)
    (address : ℕ) (buffer : List UInt8)
    (hc : (feed parser address buffer).parser.state=.complete) :
    ∃ es tail, es≠[] ∧ parser.elementc+es.length≤guacInstructionMaxElements ∧
      (∀ e∈es, e.Delimited) ∧ buffer=wireInstruction es++tail := by
  induction hn : buffer.length using Nat.strong_induction_on generalizing parser address buffer with
  | _ n ih =>
    subst hn
    by_cases hfull : parser.elementc=guacInstructionMaxElements
    · rw [feed_of_full h.active hfull] at hc
      cases hc
    have hcall := guacParserAppend_of_ne hfull address buffer
    have herror : (parseElement parser address buffer).parser.state≠.error := by
      intro herr
      rw [feed_of_error h.active (by rw [hcall]; exact herr)] at hc
      cases hc
    cases startOutcome h address buffer with
    | stalled q pre rest hactive _ hsplit _ hresult hstall _ =>
      subst hsplit
      rw [hresult] at hcall
      exact absurd hc (feed_of_stalled h.active hactive hcall hstall)
    | last e tail he hsplit =>
      refine ⟨[e],tail,by simp,by rw [length_singleton]; omega,by simpa using he,?_⟩
      rw [hsplit,wireInstruction_single,append_assoc,singleton_append]
    | next e tail he hsplit =>
      subst hsplit
      rw [feed_next h hfull he,AppendResult.after_parser] at hc
      have hcount : (parser.beginContent (address+(e.digits.length+1)) 0).nextElement.elementc=
          parser.elementc+1 :=
        parser.beginContent_elementc (address+(e.digits.length+1)) 0
      obtain ⟨es,rest,hne,hbound,hes,rfl⟩ := ih tail.length (by simp; omega)
        (GuacParser.nextElement_start _) (by rw [hcount]; omega) _ tail hc rfl
      cases es with
      | nil => exact absurd rfl hne
      | cons f es =>
        refine ⟨e::f::es,rest,by simp,?_,?_,?_⟩
        · rw [hcount] at hbound
          simp only [length_cons] at hbound ⊢
          omega
        · exact forall_mem_cons.mpr ⟨he,hes⟩
        · rw [wireInstruction_cons,append_assoc,cons_append]
    | failed hstays =>
      have hhere := hstays []
      rw [append_nil] at hhere
      exact absurd hhere herror
    | tooLong hdigits hlong =>
      refine absurd ?_ herror
      rw [parseElement_exhausted_long h.1 hdigits address
        (by rw [h.foldl_accumulate hdigits]; exact hlong)]

end GuacServer.Parser
