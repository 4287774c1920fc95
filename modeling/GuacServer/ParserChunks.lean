import GuacServer.ParserAcceptance

/-!
# Later bytes and earlier calls

The bytes of an instruction reach the parser in pieces. Unless the first piece
fails, parsing it and then the rest is parsing everything at once. A failed
piece makes everything fail if no length prefix comes back below its limit and
no instruction has exactly 128 elements: those are the two checks that see
where a piece ends. Moving the buffer moves the recorded addresses with it.
-/

namespace GuacServer.Parser

open DecimalNumerals List Unicode

/-- The parser with all its pointers moved up. -/
def GuacParser.offsetBy (k : ℕ) (parser : GuacParser) : GuacParser :=
  { parser with
    opcode := parser.opcode.map (· + k)
    elementv := parser.elementv.map (· + k) }

/-- The outcome with all pointers of the parser moved up. -/
def AppendResult.offsetBy (k : ℕ) (r : AppendResult) : AppendResult :=
  { r with parser := r.parser.offsetBy k }

section

variable (k : ℕ)

@[simp] theorem GuacParser.offsetBy_state (parser : GuacParser) :
    (parser.offsetBy k).state=parser.state := rfl

@[simp] theorem GuacParser.offsetBy_elementLength (parser : GuacParser) :
    (parser.offsetBy k).elementLength=parser.elementLength := rfl

@[simp] theorem GuacParser.offsetBy_elementc (parser : GuacParser) :
    (parser.offsetBy k).elementc=parser.elementc := length_map ..

@[simp] theorem AppendResult.offsetBy_parser (r : AppendResult) :
    (r.offsetBy k).parser=r.parser.offsetBy k := rfl

@[simp] theorem AppendResult.offsetBy_buffer (r : AppendResult) :
    (r.offsetBy k).buffer=r.buffer := rfl

@[simp] theorem AppendResult.offsetBy_parsed (r : AppendResult) :
    (r.offsetBy k).parsed=r.parsed := rfl

/-- Moving pointers and starting earlier commute. -/
theorem AppendResult.offsetBy_after (pre : List UInt8) (r : AppendResult) :
    (r.after pre).offsetBy k=(r.offsetBy k).after pre := rfl

/-- The content block moves with its buffer. -/
theorem parseContent_offsetBy (parser : GuacParser) (parsed : ℕ) (buffer : List UInt8) :
    parseContent (parser.offsetBy k) parsed buffer=
      (parseContent parser parsed buffer).offsetBy k := by
  unfold parseContent
  rw [GuacParser.offsetBy_elementLength]
  rcases contentLoop parser.elementLength buffer with ⟨n,after,done,stop⟩
  cases stop <;> simp [endContent,GuacParser.offsetBy,AppendResult.offsetBy,GuacParser.elementc]

/-- The length block moves with its buffer. -/
theorem parseLength_offsetBy (parser : GuacParser) (address : ℕ) (buffer : List UInt8) :
    parseLength (parser.offsetBy k) (address+k) buffer=
      ((parseLength parser address buffer).1.offsetBy k,(parseLength parser address buffer).2) := by
  unfold parseLength
  rw [GuacParser.offsetBy_elementLength]
  rcases lengthLoop parser.elementLength buffer with ⟨n,done,stop⟩
  have haddress : address+k+done=address+done+k := by omega
  cases stop <;> by_cases hn : n > guacInstructionMaxLength <;>
    simp [checkLength,hn,GuacParser.offsetBy,haddress]

/-- One call moves with its buffer. -/
theorem guacParserAppend_offsetBy (parser : GuacParser) (address : ℕ)
    (buffer : List UInt8) :
    guacParserAppend (parser.offsetBy k) (address+k) buffer=
      (guacParserAppend parser address buffer).offsetBy k := by
  unfold guacParserAppend parseElement
  rw [parseLength_offsetBy,GuacParser.offsetBy_elementc,GuacParser.offsetBy_state]
  by_cases hfull : parser.elementc=guacInstructionMaxElements ∧ parser.state≠.complete
  · rw [if_pos hfull,if_pos hfull]
    rfl
  · rw [if_neg hfull,if_neg hfull]
    by_cases hlength : parser.state=.length
    · rw [if_pos hlength,if_pos hlength]
      dsimp only
      rw [GuacParser.offsetBy_state,parseContent_offsetBy]
      split <;> rfl
    · rw [if_neg hlength,if_neg hlength]
      dsimp only
      rw [GuacParser.offsetBy_state,parseContent_offsetBy]
      split <;> rfl

/-- Repeated calls move with their buffer. -/
theorem feed_offsetBy (parser : GuacParser) (address : ℕ) (buffer : List UInt8) :
    feed (parser.offsetBy k) (address+k) buffer=(feed parser address buffer).offsetBy k := by
  induction hn : buffer.length using Nat.strong_induction_on generalizing parser address buffer with
  | _ n ih =>
    subst hn
    have hcall := guacParserAppend_offsetBy k parser address buffer
    by_cases hactive : parser.Active
    · have hactive' : (parser.offsetBy k).Active := hactive
      by_cases hzero : (guacParserAppend parser address buffer).parsed=0
      · rw [feed_of_parsed_zero hactive hzero,
          feed_of_parsed_zero hactive' (by rw [hcall]; exact hzero),hcall]
      · have hle := (guacParserAppend_within hactive.1 address buffer).parsed_le
        rw [feed_of_parsed hactive hzero,feed_of_parsed hactive' (by rw [hcall]; exact hzero),
          hcall,AppendResult.offsetBy_after,AppendResult.offsetBy_parser,
          AppendResult.offsetBy_parsed,AppendResult.offsetBy_buffer,Nat.add_right_comm,
          ih _ (by rw [length_drop]; omega) _ _ _ rfl]
    · have hactive' : ¬(parser.offsetBy k).Active := hactive
      rw [feed_of_not_active hactive,feed_of_not_active hactive']
      rfl

end

variable {parser : GuacParser}

/-- A call that parses nothing and does not fail changes nothing. -/
theorem guacParserAppend_of_parsed_zero (h : parser.Active) {address : ℕ} {buffer : List UInt8}
    (hzero : (guacParserAppend parser address buffer).parsed=0)
    (herr : (guacParserAppend parser address buffer).parser.state≠.error) :
    guacParserAppend parser address buffer=⟨parser,buffer,0⟩ := by
  by_cases hfull : parser.elementc=guacInstructionMaxElements
  · rw [guacParserAppend_of_full h hfull] at herr
    exact absurd rfl herr
  rw [guacParserAppend_of_ne hfull] at hzero herr ⊢
  cases hstate : parser.state with
  | length =>
    obtain ⟨ds,hds,hcase⟩ := length_cases buffer
    rcases le_or_gt (ds.foldl accumulate parser.elementLength) guacInstructionMaxLength with
      hle | hlt
    · rcases hcase with rfl | ⟨rest,rfl⟩ | ⟨c,rest,rfl,hc,hp⟩
      · rw [parseElement_exhausted hstate hds address hle] at hzero ⊢
        rw [length_eq_zero_iff.mp hzero]
        rfl
      · rw [parseElement_period hstate hds address rest hle] at hzero herr
        rw [AppendResult.after_parser] at herr
        rw [AppendResult.after_parsed herr] at hzero
        simp at hzero
      · rw [parseElement_invalid hstate hds address hc hp] at herr
        exact absurd rfl herr
    · rcases hcase with rfl | ⟨rest,rfl⟩ | ⟨c,rest,rfl,hc,hp⟩
      · rw [parseElement_exhausted_long hstate hds address hlt] at herr
        exact absurd rfl herr
      · rw [parseElement_period_long hstate hds address rest hlt] at herr
        exact absurd rfl herr
      · rw [parseElement_invalid hstate hds address hc hp] at herr
        exact absurd rfl herr
  | content =>
    obtain ⟨cs,rest,rfl,hcase⟩ := content_cases parser.elementLength buffer
    rcases hcase with (⟨hneg,rfl⟩ | ⟨hle,hpart⟩) | ⟨hcount,c,tail,rfl,hfull⟩
    · exact parseElement_stalled hstate address (Or.inl hneg)
    · rw [parseElement_text hstate cs hle,parseElement_stalled (by exact hstate) _ (Or.inr hpart)]
        at hzero ⊢
      have hnotext : (textBytes cs).length=0 := by
        simpa [AppendResult.after,hstate] using hzero
      have hnil : cs=[] := by
        have hlen := length_le_textBytes cs
        exact length_eq_zero_iff.mp (by omega)
      rw [hnil]
      simp [AppendResult.after]
    · rw [parseElement_text hstate cs hcount.ge] at hzero herr
      rw [AppendResult.after_parser] at herr
      rw [AppendResult.after_parsed herr] at hzero
      have hzero' : (parser.withLength (parser.elementLength-cs.length)).elementLength=0 := by
        rw [GuacParser.withLength_elementLength]
        omega
      by_cases h59 : c=59
      · rw [h59,parseElement_semicolon (by exact hstate) hzero'] at hzero
        simp at hzero
      by_cases h44 : c=44
      · rw [h44,parseElement_comma (by exact hstate) hzero'] at hzero
        simp at hzero
      · rw [parseElement_unterminated (by exact hstate) hzero' _ hfull h59 h44] at herr
        exact absurd rfl herr
  | complete => exact absurd hstate h.1
  | error => exact absurd hstate h.2

/-- If one call on everything is as good as a call on a later part, then so
are all the calls. -/
theorem feed_sameCall {q : GuacParser} (h : parser.Active) (hq : q.Active) {address : ℕ}
    {pre rest : List UInt8}
    (hcall : SameOutcome (guacParserAppend parser address (pre++rest))
      ((guacParserAppend q (address+pre.length) rest).after pre)) :
    SameOutcome (feed parser address (pre++rest))
      ((feed q (address+pre.length) rest).after pre) := by
  by_cases herr : (guacParserAppend q (address+pre.length) rest).parser.state=.error
  · exact Or.inl ⟨feed_of_error h (hcall.error_iff.mpr herr),feed_of_error hq herr⟩
  replace hcall : guacParserAppend parser address (pre++rest)=
      (guacParserAppend q (address+pre.length) rest).after pre := by
    rcases hcall with ⟨-,hcall⟩ | hcall
    · exact absurd hcall herr
    · exact hcall
  right
  by_cases hzero : (guacParserAppend q (address+pre.length) rest).parsed=0
  · have hnone := guacParserAppend_of_parsed_zero hq hzero herr
    rw [feed_of_parsed_zero hq hzero]
    by_cases hpre : pre=[]
    · rw [feed_of_parsed_zero h (by rw [hcall,AppendResult.after_parsed herr,hzero,hpre]; rfl),
        hcall]
    · have hpos : pre.length≠0 := fun hlen => hpre (length_eq_zero_iff.mp hlen)
      rw [feed_of_parsed h (by rw [hcall,AppendResult.after_parsed herr]; omega),hcall,
        AppendResult.after_parsed herr,hzero,hnone]
      dsimp only [AppendResult.after_parser,AppendResult.after_buffer]
      rw [Nat.add_zero,drop_left,take_left,feed_of_parsed_zero hq hzero,hnone]
  · rw [feed_of_parsed hq hzero,feed_of_parsed h
        (by rw [hcall,AppendResult.after_parsed herr]; omega),hcall,
      AppendResult.after_parsed herr,AppendResult.after_parser,AppendResult.after_buffer,
      drop_length_add_append,take_length_add_append,AppendResult.after_after,
      Nat.add_assoc]

/-- Parsing one piece that does not fail, and then the rest, is parsing
everything at once. -/
theorem feed_append (h : parser.ElementStart) (address : ℕ) (a b : List UInt8)
    (herr : (feed parser address a).parser.state≠.error) :
    SameOutcome (feed parser address (a++b))
      ((feed (feed parser address a).parser (address+(feed parser address a).parsed)
        (a.drop (feed parser address a).parsed++b)).after
        ((feed parser address a).buffer.take (feed parser address a).parsed)) := by
  induction hn : a.length using Nat.strong_induction_on generalizing parser address a with
  | _ n ih =>
    subst hn
    by_cases hfull : parser.elementc=guacInstructionMaxElements
    · exact absurd (feed_of_full h.active hfull address a) herr
    have hcall := guacParserAppend_of_ne hfull address a
    cases startOutcome h address a with
    | stalled q pre rest hactive _ hsplit _ hresult hstall hresume =>
      subst hsplit
      rw [hresult] at hcall
      have hr : feed parser address (pre++rest)=⟨q,pre++rest,pre.length⟩ ∧
          q.elementc≠guacInstructionMaxElements := by
        by_cases hzero : pre.length=0
        · have hnone := guacParserAppend_of_parsed_zero h.active (by rw [hcall]; exact hzero)
            (by rw [hcall]; exact hactive.2)
          rw [hcall] at hnone
          have hq : q=parser := congrArg AppendResult.parser hnone
          rw [feed_of_parsed_zero h.active (by rw [hcall]; exact hzero),hcall,hq]
          exact ⟨rfl,hfull⟩
        · rw [feed_of_parsed h.active (by rw [hcall]; exact hzero),hcall] at herr ⊢
          dsimp only [AppendResult.after_parser] at herr ⊢
          rw [drop_left] at herr ⊢
          have hq : q.elementc≠guacInstructionMaxElements :=
            fun hq => herr (feed_of_full hactive hq _ _)
          have hqcall := guacParserAppend_of_ne hq (address+pre.length) rest
          rw [hstall] at hqcall
          rw [feed_of_parsed_zero hactive (by rw [hqcall]),hqcall,take_left]
          exact ⟨by rw [AppendResult.after,if_neg hactive.2]; rfl,hq⟩
      rw [hr.1]
      dsimp only
      rw [drop_left,take_left,append_assoc]
      apply feed_sameCall h.active hactive
      rw [guacParserAppend_of_ne hfull,guacParserAppend_of_ne hr.2,←append_assoc]
      exact hresume b
    | last e tail he hsplit =>
      subst hsplit
      right
      have hend : ¬(parser.beginContent (address+(e.digits.length+1)) 0).finish.Active :=
        fun hactive => hactive.1 rfl
      rw [append_assoc,cons_append,feed_last h hfull he,feed_last h hfull he]
      dsimp only
      rw [feed_of_not_active hend]
      simp [AppendResult.after,GuacParser.finish,take_length_add_append]
    | next e tail he hsplit =>
      subst hsplit
      rw [feed_next h hfull he,AppendResult.after_parser] at herr
      have hrest := ih tail.length (by simp; omega) (GuacParser.nextElement_start _) _ tail herr rfl
      have hlen : e.wire.length+1=(e.wire++[(0 : UInt8)]).length := by simp
      have hdrop : (e.wire++44::tail).drop ((e.wire++[(0 : UInt8)]).length)=tail := by
        rw [←hlen,drop_length_add_append,drop_one,tail_cons]
      rw [append_assoc,cons_append,feed_next h hfull he,feed_next h hfull he,
        AppendResult.after_parsed herr,AppendResult.after_parser,AppendResult.after_buffer,
        take_length_add_append,←drop_drop,hdrop,←hlen,
        ←Nat.add_assoc address (e.wire.length+1)]
      have hsame := hrest.after (e.wire++[0])
      rwa [AppendResult.after_after] at hsame
    | failed hstays =>
      have hhere := hstays []
      rw [append_nil,←hcall] at hhere
      exact absurd (feed_of_error h.active hhere) herr
    | tooLong hdigits hlong =>
      refine absurd (feed_of_error h.active ?_) herr
      rw [hcall,parseElement_exhausted_long h.1 hdigits address
        (by rw [h.foldl_accumulate hdigits]; exact hlong)]

/-- Elements that are each followed by a comma. -/
def wireElements (es : List Element) : List UInt8 := es.flatMap fun e => e.wire++[44]

@[simp] theorem wireElements_cons (e : Element) (es : List Element) (tail : List UInt8) :
    wireElements (e::es)++tail=e.wire++44::(wireElements es++tail) := by
  simp [wireElements]

/-- A length prefix that ends within the limit never exceeds it on the way,
in 32-bit arithmetic. -/
def SteadyLength (tail : List UInt8) : Prop :=
  ∀ ds rest, (∀ d∈ds, IsDigit d) → tail=ds++rest→(rest=[] ∨ rest.head? = some 46) →
    wrap32 (numeral ds)≤guacInstructionMaxLength →
      ∀ ps, ps <+: ds → wrap32 (numeral ps)≤guacInstructionMaxLength

/-- The bytes that follow `n` elements of an instruction give the checks at
the end of a piece nothing to see. -/
structure Quiet (n : ℕ) (window : List UInt8) : Prop where
  /-- Every length prefix of the instruction is steady. -/
  length : ∀ es tail, (∀ e∈es, e.Delimited) → n+es.length<guacInstructionMaxElements →
    window=wireElements es++tail→SteadyLength tail
  /-- The instruction is not complete with as many elements as the table has. -/
  elements : ∀ es tail, (∀ e∈es, e.Delimited) → es≠[] → window=wireInstruction es++tail →
    n+es.length≠guacInstructionMaxElements

/-- The condition passes on to the bytes after an element. -/
theorem Quiet.next {n : ℕ} {e : Element} (he : e.Delimited) {tail : List UInt8}
    (h : Quiet n (e.wire++44::tail)) : Quiet (n+1) tail := by
  constructor
  · intro es rest hes hcount hsplit
    refine h.length (e::es) rest (forall_mem_cons.mpr ⟨he,hes⟩) ?_ ?_
    · rw [length_cons]
      omega
    · rw [wireElements_cons,hsplit]
  · intro es rest hes hne hsplit
    have hcount := h.elements (e::es) rest (forall_mem_cons.mpr ⟨he,hes⟩) (by simp) ?_
    · rw [length_cons] at hcount
      omega
    · cases es with
      | nil => exact absurd rfl hne
      | cons f es => rw [hsplit,wireInstruction_cons,append_assoc,cons_append]

/-- A length beyond the limit at the end of a piece is an error whatever
follows, if the length is steady. -/
theorem parseElement_tooLong (h : parser.ElementStart) (address : ℕ) {a b : List UInt8}
    (hdigits : ∀ d∈a, IsDigit d) (hlong : guacInstructionMaxLength<wrap32 (numeral a))
    (hsteady : SteadyLength (a++b)) :
    (parseElement parser address (a++b)).parser.state=.error := by
  obtain ⟨ds,hds,hcase⟩ := length_cases b
  have hall : ∀ d∈a++ds, IsDigit d := by
    intro d hd
    rcases mem_append.mp hd with hd | hd
    · exact hdigits d hd
    · exact hds d hd
  have hlong' : ∀ rest, b=ds++rest→(rest=[] ∨ rest.head? = some 46) →
      guacInstructionMaxLength<(a++ds).foldl accumulate parser.elementLength := by
    intro rest hb hend
    rw [h.foldl_accumulate hall]
    by_contra hle
    have hsplit : a++b=(a++ds)++rest := by rw [hb,append_assoc]
    have hhead := hsteady (a++ds) rest hall hsplit hend (not_lt.mp hle) a (prefix_append a ds)
    omega
  rcases hcase with rfl | ⟨rest,rfl⟩ | ⟨c,rest,rfl,hc,hp⟩
  · rw [parseElement_exhausted_long h.1 hall address
      (hlong' [] (append_nil _).symm (Or.inl rfl))]
  · rw [←append_assoc,
      parseElement_period_long h.1 hall address rest (hlong' _ rfl (Or.inr rfl))]
  · rw [←append_assoc,parseElement_invalid h.1 hall address hc hp]

/-- Content is parsed without new elements. -/
theorem parseElement_content_elementc (h : parser.state=.content) (address : ℕ)
    (buffer : List UInt8) :
    (parseElement parser address buffer).parser.elementc=parser.elementc := by
  rw [parseElement_content h,parseContent]
  rcases contentLoop parser.elementLength buffer with ⟨n,after,parsed,stop⟩
  cases stop <;> rfl

/-- A piece that fails makes everything fail. -/
theorem feed_error_append (h : parser.ElementStart)
    (hle : parser.elementc≤guacInstructionMaxElements) (address : ℕ) (a b : List UInt8)
    (hquiet : Quiet parser.elementc (a++b))
    (herr : (feed parser address a).parser.state=.error) :
    (feed parser address (a++b)).parser.state=.error := by
  induction hn : a.length using Nat.strong_induction_on generalizing parser address a with
  | _ n ih =>
    subst hn
    by_cases hfull : parser.elementc=guacInstructionMaxElements
    · exact feed_of_full h.active hfull address (a++b)
    have hcall := guacParserAppend_of_ne hfull address a
    have hcall' := guacParserAppend_of_ne hfull address (a++b)
    cases startOutcome h address a with
    | stalled q pre rest hactive hcount hsplit _ hresult hstall hresume =>
      subst hsplit
      rw [hresult] at hcall
      have hpos : pre.length≠0 := by
        intro hzero
        rw [feed_of_parsed_zero h.active (by rw [hcall]; exact hzero),hcall] at herr
        exact hactive.2 herr
      -- the piece failed because it begins the last element and does not end it
      have hq : q.elementc=guacInstructionMaxElements := by
        by_contra hq
        have hqcall := guacParserAppend_of_ne hq (address+pre.length) rest
        rw [hstall] at hqcall
        rw [feed_of_parsed h.active (by rw [hcall]; exact hpos),hcall] at herr
        dsimp only [AppendResult.after_parser] at herr
        rw [drop_left,feed_of_parsed_zero hactive (by rw [hqcall]),hqcall] at herr
        exact hactive.2 herr
      have hcontent : q.state=.content ∧ q.elementc=parser.elementc+1 := by
        rcases hcount with hsame | hcontent
        · exact absurd (hsame.symm.trans hq) hfull
        · exact hcontent
      have hresume' := hresume b
      rw [←hcall'] at hresume'
      by_cases herr' : (guacParserAppend parser address (pre++rest++b)).parser.state=.error
      · exact feed_of_error h.active herr'
      by_cases hc : (guacParserAppend parser address (pre++rest++b)).parser.state=.complete
      · rw [←feed_of_complete h.active hc] at hc
        obtain ⟨es,tail,hne,hbound,hes,hsplit⟩ := feed_complete h hle address _ hc
        have hlen := length_pos_of_ne_nil hne
        have hnot := hquiet.elements es tail hes hne hsplit
        omega
      · have heq : guacParserAppend parser address (pre++rest++b)=
            (parseElement q (address+pre.length) (rest++b)).after pre := by
          rcases hresume' with ⟨herror,-⟩ | heq
          · exact absurd herror herr'
          · exact heq
        have hcount' : (guacParserAppend parser address (pre++rest++b)).parser.elementc=
            guacInstructionMaxElements := by
          rw [heq,AppendResult.after_parser,parseElement_content_elementc hcontent.1,hq]
        have hparsed : (guacParserAppend parser address (pre++rest++b)).parsed≠0 := by
          rw [heq,AppendResult.after_parser] at herr'
          rw [heq,AppendResult.after_parsed herr']
          omega
        rw [feed_of_parsed h.active hparsed]
        exact feed_of_full ⟨hc,herr'⟩ hcount' _ _
    | last e tail he hsplit =>
      rw [hsplit,feed_last h hfull he] at herr
      cases herr
    | next e tail he hsplit =>
      subst hsplit
      have hcount : (parser.beginContent (address+(e.digits.length+1)) 0).nextElement.elementc=
          parser.elementc+1 :=
        parser.beginContent_elementc (address+(e.digits.length+1)) 0
      rw [append_assoc,cons_append] at hquiet ⊢
      rw [feed_next h hfull he,AppendResult.after_parser] at herr ⊢
      exact ih tail.length (by simp; omega) (GuacParser.nextElement_start _) (by rw [hcount]; omega)
        _ tail (by rw [hcount]; exact hquiet.next he) herr rfl
    | failed hstays =>
      exact feed_of_error h.active (by rw [hcall']; exact hstays b)
    | tooLong hdigits hlong =>
      refine feed_of_error h.active ?_
      rw [hcall']
      exact parseElement_tooLong h address hdigits hlong
        (hquiet.length [] (a++b) (by simp) (by simp; omega) rfl)

/-- The last element that the table has room for cannot wait for its
terminator: the call after its bytes finds the table full. -/
theorem feed_unterminated (h : parser.ElementStart)
    (hcount : parser.elementc+1=guacInstructionMaxElements) {e : Element} (he : e.Delimited)
    (address : ℕ) : (feed parser address e.wire).parser.state=.error := by
  have hbegin := parser.beginContent_state (address+(e.digits.length+1)) 0
  have hnone : Partial [] := fun c tail hnil => absurd hnil (by simp)
  have hstall := parseElement_wire h he address []
  rw [append_nil,parseElement_stalled hbegin _ (Or.inr hnone)] at hstall
  have hcall := guacParserAppend_of_ne (by omega : parser.elementc≠guacInstructionMaxElements)
    address e.wire
  rw [hstall] at hcall
  have hactive : (parser.beginContent (address+(e.digits.length+1)) 0).Active := by
    constructor <;> rw [hbegin] <;> decide
  have hparsed : (guacParserAppend parser address e.wire).parsed≠0 := by
    rw [hcall,AppendResult.after_parsed hactive.2,Element.wire,length_append]
    simp
  rw [feed_of_parsed h.active hparsed,AppendResult.after_parser,hcall]
  exact feed_of_full hactive ((parser.beginContent_elementc ..).trans hcount) _ _

/-- Without its last semicolon, an instruction that fills the table fails. -/
theorem feed_fullTable (h : parser.ElementStart) {es : List Element} (hes : ∀ f∈es, f.Delimited)
    {e : Element} (he : e.Delimited)
    (hcount : parser.elementc+es.length+1=guacInstructionMaxElements) (address : ℕ) :
    (feed parser address (wireElements es++e.wire)).parser.state=.error := by
  induction es generalizing parser address with
  | nil => exact feed_unterminated h hcount he address
  | cons f es ih =>
    obtain ⟨hf,hrest⟩ := forall_mem_cons.mp hes
    rw [length_cons] at hcount
    have hnext : (parser.beginContent (address+(f.digits.length+1)) 0).nextElement.elementc=
        parser.elementc+1 := parser.beginContent_elementc (address+(f.digits.length+1)) 0
    rw [wireElements_cons,feed_next h (by omega) hf,AppendResult.after_parser]
    exact ih (GuacParser.nextElement_start _) hrest (by omega) _

/-- The last element of an instruction is followed by its semicolon. -/
theorem wireInstruction_concat (es : List Element) (e : Element) :
    wireInstruction (es++[e])=wireElements es++(e.wire++[59]) := by
  induction es with
  | nil => rfl
  | cons f es ih =>
    rw [wireElements_cons,←ih]
    cases es <;> rfl

end GuacServer.Parser
