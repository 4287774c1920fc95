import GuacServer.ParserSession

/-!
# Parts of an instruction

An instruction whose lengths are exact and whose elements do not fill the table is
parsed the same however it is split, so that no part of it fails. Where its text is
UTF-8, a semicolon is a character of its own: a part that ends with one is parsed to
its end. A stream of such instructions is read as these instructions.
-/

namespace GuacServer.Parser

open DecimalNumerals List Unicode

/-- The text of the element is UTF-8. -/
def Element.Utf8 (e : Element) : Prop := ∃ text : List Char, e.content=text.map utf8Char

/-- An instruction below the limits of the parser. -/
structure WithinLimits (es : List Element) : Prop where
  ne_nil : es≠[]
  length_lt : es.length<guacInstructionMaxElements
  wellFormed : ∀ e∈es, e.WellFormed
  utf8 : ∀ e∈es, e.Utf8

variable {es : List Element}

/-- Its lengths are those that the parser finds. -/
theorem WithinLimits.delimited (h : WithinLimits es) : ∀ e∈es, e.Delimited :=
  fun e he => (h.wellFormed e he).delimited

/-- It is an instruction, whatever follows. -/
theorem WithinLimits.head (h : WithinLimits es) (rest : List UInt8) :
    HeadInstruction (wireInstruction es++rest) es :=
  ⟨h.ne_nil,h.length_lt.le,h.delimited,rest,rfl⟩

/-- A byte of a longer encoding is no ASCII byte. -/
theorem utf8EncodeChar_ascii {c : Char} {b : UInt8} (hb : b∈String.utf8EncodeChar c)
    (hascii : b.toNat<128) : String.utf8EncodeChar c=[b] := by
  unfold String.utf8EncodeChar at hb ⊢
  dsimp only at hb ⊢
  split_ifs at hb ⊢
  · rw [mem_singleton.mp hb]
  · simp only [mem_cons,not_mem_nil,or_false] at hb
    rcases hb with rfl | rfl <;> simp only [UInt8.toNat_ofNat'] at hascii <;> omega
  · simp only [mem_cons,not_mem_nil,or_false] at hb
    rcases hb with rfl | rfl | rfl <;> simp only [UInt8.toNat_ofNat'] at hascii <;> omega
  · simp only [mem_cons,not_mem_nil,or_false] at hb
    rcases hb with rfl | rfl | rfl | rfl <;> simp only [UInt8.toNat_ofNat'] at hascii <;> omega

/-- A semicolon is a character of its own. -/
theorem utf8Char_semicolon {c : Char} (h : 59∈(utf8Char c).bytes) : (utf8Char c).bytes=[59] := by
  obtain ⟨lead,rest,hc,-⟩ := utf8EncodeChar_charsize c
  have hbytes : (utf8Char c).bytes=String.utf8EncodeChar c := by
    simp [CharBytes.bytes,utf8Char,hc]
  rw [hbytes] at h ⊢
  exact utf8EncodeChar_ascii h (by decide)

/-- UTF-8 text up to a semicolon consists of whole characters. -/
theorem textBytes_semicolon {text : List Char} {u v : List UInt8}
    (h : textBytes (text.map utf8Char)=u++59::v) :
    ∃ cs ds, text.map utf8Char=cs++ds ∧ textBytes cs=u++[59] := by
  induction text generalizing u with
  | nil => simp at h
  | cons c text ih =>
    rw [map_cons,textBytes_cons] at h
    by_cases hc : 59∈(utf8Char c).bytes
    · have hbytes := utf8Char_semicolon hc
      rw [hbytes] at h
      cases u with
      | nil => exact ⟨[utf8Char c],text.map utf8Char,rfl,by simp [hbytes]⟩
      | cons b u =>
        rw [cons_append,nil_append,cons_append,List.cons.injEq] at h
        obtain ⟨rfl,htail⟩ := h
        obtain ⟨cs,ds,hsplit,hcs⟩ := ih htail
        exact ⟨utf8Char c::cs,ds,by rw [map_cons,hsplit,cons_append],
          by rw [textBytes_cons,hbytes,hcs]; rfl⟩
    · obtain ⟨w,rfl,htail⟩ | ⟨w,hw,hv⟩ := append_eq_append_iff.mp h
      · obtain ⟨cs,ds,hsplit,hcs⟩ := ih htail
        exact ⟨utf8Char c::cs,ds,by rw [map_cons,hsplit,cons_append],
          by rw [textBytes_cons,hcs,append_assoc]⟩
      · cases w with
        | nil =>
          rw [append_nil] at hw
          rw [nil_append] at hv
          obtain ⟨cs,ds,hsplit,hcs⟩ := ih (u := []) hv.symm
          exact ⟨utf8Char c::cs,ds,by rw [map_cons,hsplit,cons_append],
            by rw [textBytes_cons,hcs,hw]; rfl⟩
        | cons b w =>
          rw [cons_append,List.cons.injEq] at hv
          exact absurd (by rw [hw,←hv.1]; simp) hc

/-- A length prefix within the limit does not exceed it on the way. -/
theorem steadyLength_digits {ds : List UInt8} (hds : ∀ d∈ds, IsDigit d)
    (hle : (numeral ds : ℤ)≤guacInstructionMaxLength) (rest : List UInt8) :
    SteadyLength (ds++46::rest) := by
  intro fs tail hfs hsplit hend _ ps hps
  have hsame : fs=ds := by
    rcases hend with rfl | hperiod
    · rw [append_nil] at hsplit
      exact absurd (hfs 46 (by rw [←hsplit]; simp)) (by decide)
    · obtain ⟨more,rfl⟩ : ∃ more, tail=46::more := by
        cases tail with
        | nil => simp at hperiod
        | cons b tail => exact ⟨tail,by simpa using hperiod⟩
      exact (digits_unique hfs hds hsplit.symm).1
  rw [hsame] at hps
  obtain ⟨qs,rfl⟩ := hps
  have hmono : numeral ps≤numeral (ps++qs) := by
    rw [numeral,numeral,numeralFrom_append]
    exact le_numeralFrom _ _
  unfold guacInstructionMaxLength at hle ⊢
  rw [wrap32_of_range] <;> omega

/-- Where a well-formed instruction is split into elements, a length prefix follows. -/
theorem wireInstruction_wireElements {es fs : List Element} (hes : ∀ e∈es, e.WellFormed)
    (hne : es≠[]) (hfs : ∀ f∈fs, f.Delimited) {rest tail : List UInt8}
    (h : wireInstruction es++rest=wireElements fs++tail) :
    ∃ (e : Element) (more : List UInt8), e.WellFormed ∧ tail=e.wire++more := by
  induction fs generalizing es with
  | nil =>
    obtain ⟨e,es,rfl⟩ := exists_cons_of_ne_nil hne
    refine ⟨e,?_⟩
    cases es with
    | nil => exact ⟨_,hes e (by simp),by simpa [wireElements] using h.symm⟩
    | cons f es => exact ⟨_,hes e (by simp),by simpa [wireElements] using h.symm⟩
  | cons f fs ih =>
    obtain ⟨e,es,rfl⟩ := exists_cons_of_ne_nil hne
    have he := (hes e (by simp)).delimited
    rw [wireElements_cons] at h
    cases es with
    | nil =>
      rw [wireInstruction_single,append_assoc] at h
      obtain ⟨-,htail⟩ := Element.wire_unique he (hfs f (by simp)) h
      exact absurd (List.cons.inj htail).1 (by decide)
    | cons g es =>
      rw [wireInstruction_cons,append_assoc] at h
      obtain ⟨-,htail⟩ := Element.wire_unique he (hfs f (by simp)) h
      exact ih (fun e he => hes e (mem_cons_of_mem _ he)) (by simp)
        (fun f hf => hfs f (mem_cons_of_mem _ hf)) (List.cons.inj htail).2

/-- An instruction within the limits gives the checks at the end of a piece nothing
to see. -/
theorem WithinLimits.quiet (h : WithinLimits es) (rest : List UInt8) :
    Quiet 0 (wireInstruction es++rest) := by
  constructor
  · intro fs tail hfs _ hsplit
    obtain ⟨e,more,he,rfl⟩ := wireInstruction_wireElements h.wellFormed h.ne_nil hfs hsplit
    rw [Element.wire,append_assoc,cons_append]
    exact steadyLength_digits e.digits_ok (by rw [he.1]; exact he.2) _
  · intro fs tail hfs hne hsplit
    obtain ⟨rfl,-⟩ := wireInstruction_unique h.delimited hfs h.ne_nil hne hsplit
    have hlt := h.length_lt
    omega

/-- No part of it fails, and only the whole completes it. -/
theorem WithinLimits.prefix_active (h : WithinLimits es) {a b : List UInt8}
    (hsplit : wireInstruction es=a++b) (hb : b≠[]) :
    (feed guacParserAlloc 0 a).parser.Active := by
  constructor
  · intro hc
    obtain ⟨fs,hfs⟩ := (feed_complete_iff guacParserAlloc 0 a).mp hc
    obtain ⟨tail,rfl⟩ := hfs.head
    rw [append_assoc] at hsplit
    obtain ⟨-,hnil⟩ := wireInstruction_unique h.delimited hfs.delimited h.ne_nil hfs.ne_nil
      ((append_nil _).trans hsplit)
    simp [hb] at hnil
  · intro herr
    have hquiet := h.quiet []
    rw [append_nil,hsplit] at hquiet
    have hfail := feed_error_append guacParserAlloc_start (Nat.zero_le _) 0 a b hquiet herr
    have hcomplete := (feed_complete_iff guacParserAlloc 0 _).mpr ⟨es,h.head []⟩
    rw [append_nil,hsplit] at hcomplete
    exact GuacParseState.noConfusion (hcomplete.symm.trans hfail)

/-- The parser within the text of an element, some characters of which are parsed. -/
def GuacParser.inText (parser : GuacParser) (address : ℕ) (e : Element) (cs : List CharBytes) :
    GuacParser :=
  (parser.beginContent (address+(e.digits.length+1)) e.content.length).withLength
    ((e.content.length : ℤ)-cs.length)

theorem GuacParser.inText_state (parser : GuacParser) (address : ℕ) (e : Element)
    (cs : List CharBytes) : (parser.inText address e cs).state=.content := rfl

theorem GuacParser.inText_active (parser : GuacParser) (address : ℕ) (e : Element)
    (cs : List CharBytes) : (parser.inText address e cs).Active := by
  constructor <;> rw [GuacParser.inText_state] <;> decide

theorem GuacParser.inText_elementc (parser : GuacParser) (address : ℕ) (e : Element)
    (cs : List CharBytes) : (parser.inText address e cs).elementc=parser.elementc+1 :=
  parser.beginContent_elementc ..

variable {parser : GuacParser}

/-- A call on part of the text of an element parses it to its end. -/
theorem guacParserAppend_text (h : parser.ElementStart)
    (hcount : parser.elementc≠guacInstructionMaxElements) {e : Element} (he : e.Delimited)
    {cs ds : List CharBytes} (hcs : e.content=cs++ds) (address : ℕ) :
    guacParserAppend parser address (e.digits++46::textBytes cs)=
      ⟨parser.inText address e cs,e.digits++46::textBytes cs,
        (e.digits++46::textBytes cs).length⟩ := by
  have hv := h.foldl_accumulate e.digits_ok
  rw [he.1] at hv
  have hlen : (cs.length : ℤ)≤e.content.length := by
    rw [hcs,length_append]
    omega
  have hactive := parser.inText_active address e cs
  have hnone : Partial [] := fun c tail hnil => absurd hnil (by simp)
  have hcall := guacParserAppend_of_ne hcount address (e.digits++46::(textBytes cs++[]))
  rw [parseElement_period h.1 e.digits_ok address _ (by rw [hv]; exact he.2),hv,
    parseElement_text (parser.beginContent_state ..) cs hlen,
    GuacParser.beginContent_elementLength,←GuacParser.inText,
    parseElement_stalled (parser.inText_state address e cs) _ (Or.inr hnone),
    AppendResult.after_after,append_nil] at hcall
  rw [hcall,AppendResult.after,if_neg hactive.2]
  simp

/-- Part of the text of an element is parsed to its end, and the element begun. -/
theorem feed_text (h : parser.ElementStart)
    (hcount : parser.elementc+1<guacInstructionMaxElements) {e : Element} (he : e.Delimited)
    {cs ds : List CharBytes} (hcs : e.content=cs++ds) (address : ℕ) :
    feed parser address (e.digits++46::textBytes cs)=
      ⟨parser.inText address e cs,e.digits++46::textBytes cs,
        (e.digits++46::textBytes cs).length⟩ := by
  have hactive := parser.inText_active address e cs
  have hfull : (parser.inText address e cs).elementc≠guacInstructionMaxElements := by
    rw [GuacParser.inText_elementc]
    omega
  have hnone : Partial [] := fun c tail hnil => absurd hnil (by simp)
  have hcall := guacParserAppend_text h (by omega) he hcs address
  have hlast := guacParserAppend_of_ne hfull (address+(e.digits++46::textBytes cs).length) []
  rw [parseElement_stalled (parser.inText_state address e cs) _ (Or.inr hnone)] at hlast
  rw [feed_of_parsed h.active (by rw [hcall]; simp),hcall]
  dsimp only
  rw [drop_length,take_length,feed_of_parsed_zero hactive (by rw [hlast]),hlast,
    AppendResult.after,if_neg hactive.2]
  simp

/-- Part of an element that ends with a semicolon ends within its text. -/
theorem Element.Utf8.wire_semicolon {e : Element} (h : e.Utf8) {a c : List UInt8}
    (hsplit : e.wire=a++59::c) :
    ∃ cs ds, e.content=cs++ds ∧ a++[59]=e.digits++46::textBytes cs := by
  obtain ⟨text,htext⟩ := h
  rw [Element.wire] at hsplit
  obtain ⟨w,ha,hw⟩ | ⟨w,hdigits,hw⟩ := append_eq_append_iff.mp hsplit
  · cases w with
    | nil => exact absurd (List.cons.inj hw).1 (by decide)
    | cons x u =>
      obtain ⟨rfl,hbytes⟩ := List.cons.inj hw
      rw [htext] at hbytes
      obtain ⟨cs,ds,hcs,htext'⟩ := textBytes_semicolon hbytes
      exact ⟨cs,ds,htext.trans hcs,by rw [ha,htext',append_assoc,cons_append]⟩
  · cases w with
    | nil => exact absurd (List.cons.inj hw).1 (by decide)
    | cons x u =>
      rw [cons_append,List.cons.injEq] at hw
      exact absurd (e.digits_ok x (by rw [hdigits]; simp)) (by rw [←hw.1]; decide)

/-- Part of an instruction that ends with a semicolon is parsed to its end, and some
element is begun before it. -/
theorem feed_semicolon (h : parser.ElementStart)
    (hcount : parser.elementc+es.length<guacInstructionMaxElements)
    (hes : ∀ e∈es, e.Delimited) (hutf8 : ∀ e∈es, e.Utf8) (address : ℕ) {a b : List UInt8}
    (hsplit : wireInstruction es=a++59::b) (hb : b≠[]) :
    (feed parser address (a++[59])).parser.Active ∧
      (feed parser address (a++[59])).parsed=(a++[59]).length ∧
      ∃ element∈(feed parser address (a++[59])).parser.elementv,
        element<address+(a++[59]).length := by
  induction es generalizing parser address a with
  | nil => simp [wireInstruction] at hsplit
  | cons e es ih =>
    have he := hes e (by simp)
    rw [length_cons] at hcount
    have htext : ∀ c, e.wire=a++59::c→(feed parser address (a++[59])).parser.Active ∧
        (feed parser address (a++[59])).parsed=(a++[59]).length ∧
        ∃ element∈(feed parser address (a++[59])).parser.elementv,
          element<address+(a++[59]).length := by
      intro c hwire
      obtain ⟨cs,ds,hcs,heq⟩ := (hutf8 e (by simp)).wire_semicolon hwire
      rw [heq,feed_text h (by omega) he hcs]
      refine ⟨parser.inText_active ..,rfl,address+(e.digits.length+1),?_,?_⟩
      · simp [GuacParser.inText,GuacParser.withLength,GuacParser.beginContent]
      · have hlen := congrArg List.length heq
        have hne : textBytes cs≠[] := by
          intro hnil
          rw [hnil] at heq
          exact absurd (append_inj_right' heq rfl) (by decide)
        have hpos := length_pos_of_ne_nil hne
        simp only [length_append,length_cons]
        omega
    cases es with
    | nil =>
      rw [wireInstruction_single] at hsplit
      obtain ⟨w,-,hw⟩ | ⟨w,hwire,hw⟩ := append_eq_append_iff.mp hsplit
      · have hlen := congrArg List.length hw
        have hpos := length_pos_of_ne_nil hb
        simp only [length_append,length_cons,length_nil] at hlen
        omega
      · cases w with
        | nil => exact absurd (List.cons.inj hw).2 hb
        | cons x w =>
          obtain ⟨rfl,-⟩ := List.cons.inj hw
          exact htext w hwire
    | cons f es =>
      rw [wireInstruction_cons] at hsplit
      obtain ⟨w,ha,hw⟩ | ⟨w,hwire,hw⟩ := append_eq_append_iff.mp hsplit
      · cases w with
        | nil => exact absurd (List.cons.inj hw).1 (by decide)
        | cons x w =>
          obtain ⟨rfl,hrest⟩ := List.cons.inj hw
          have hbegin := (parser.beginContent (address+(e.digits.length+1)) 0).nextElement_start
          have hnext : (parser.beginContent (address+(e.digits.length+1)) 0).nextElement.elementc=
                parser.elementc+1 :=
            parser.beginContent_elementc (address+(e.digits.length+1)) 0
          obtain ⟨hactive,hparsed,element,hmem,hlt⟩ := ih hbegin (by rw [hnext]; omega)
            (fun g hg => hes g (mem_cons_of_mem _ hg))
            (fun g hg => hutf8 g (mem_cons_of_mem _ hg)) (address+(e.wire.length+1)) hrest
          rw [ha,append_assoc,cons_append,feed_next h (by omega) he,
            AppendResult.after_parser,AppendResult.after_parsed hactive.2,hparsed]
          simp only [length_append,length_cons,length_nil] at hlt ⊢
          exact ⟨hactive,by omega,element,hmem,by omega⟩
      · cases w with
        | nil => exact absurd (List.cons.inj hw).1 (by decide)
        | cons x w =>
          rw [cons_append,List.cons.injEq] at hw
          obtain ⟨rfl,-⟩ := hw
          exact htext w hwire

/-- Nothing is read from an empty stream. -/
theorem readError_nil :
    readError []=some ⟨.closed, "End of stream reached while reading instruction"⟩ := by
  have hcall : guacParserAppend guacParserAlloc 0 []=⟨guacParserAlloc,[],0⟩ := by decide
  have hfeed : feed guacParserAlloc 0 []=⟨guacParserAlloc,[],0⟩ := by
    rw [feed_of_parsed_zero guacParserAlloc_start.active (by rw [hcall]),hcall]
  have hactive : (feed guacParserAlloc 0 (window [])).parser.Active := by
    rw [window,take_nil,hfeed]
    exact guacParserAlloc_start.active
  rw [readError_of_active hactive,if_pos (by decide)]

/-- The instruction at the head of a stream is read. -/
theorem WithinLimits.readError (h : WithinLimits es)
    (hlen : (wireInstruction es).length ≤ instructionbufSize) (rest : List UInt8) :
    readError (wireInstruction es++rest)=none := by
  have hcomplete := (feed_complete_iff guacParserAlloc 0 _).mpr
    ⟨es,h.head (rest.take (instructionbufSize-(wireInstruction es).length))⟩
  rw [←window_append hlen] at hcomplete
  rw [Parser.readError,show guacParserAlloc=guacParserReset guacParserAlloc from rfl,hcomplete]

/-- Between instructions, a stream of instructions is read as these instructions. -/
theorem session_instructions {instructions : List (List Element)}
    (h : ∀ es∈instructions, WithinLimits es ∧ (wireInstruction es).length ≤ instructionbufSize)
    {parser : GuacBufferedParser} {unparsed : List UInt8} (hboundary : parser.Boundary unparsed)
    {socket : List SocketEvent} (hd : Delivers socket)
    (hstream : unparsed++socketBytes socket=instructions.flatMap wireInstruction) :
    (session parser socket).1=instructions.map instructionOf := by
  induction instructions generalizing parser unparsed socket with
  | nil =>
    have hsafe : ChunkSafe [] := chunkSafe_of_length (Nat.zero_le _)
    have hquiet := hsafe [] [] (by simp) rfl
    obtain ⟨herror,-⟩ := guacParserRead_window hboundary hd (by rw [hstream]; exact hquiet)
    rw [hstream,flatMap_nil,readError_nil] at herror
    rw [session_of_error herror]
    rfl
  | cons es instructions ih =>
    obtain ⟨⟨hes,hlen⟩,hall⟩ := forall_mem_cons.mp h
    rw [flatMap_cons] at hstream
    have hquiet := hes.quiet ((instructions.flatMap wireInstruction).take
        (instructionbufSize-(wireInstruction es).length))
    rw [←window_append hlen,←hstream] at hquiet
    obtain ⟨herror,hread⟩ := guacParserRead_window hboundary hd hquiet
    rw [hstream,hes.readError hlen] at herror
    obtain ⟨fs,tail,hhead,-,hsplit,hinstruction,hboundary',hdelivers⟩ := hread herror
    obtain ⟨rfl,hrest⟩ := wireInstruction_unique hes.delimited hhead.delimited hes.ne_nil
      hhead.ne_nil (hstream.symm.trans hsplit)
    rw [session_of_read herror,hinstruction,map_cons]
    exact congrArg _ (ih hall hboundary' hdelivers hrest.symm)

end GuacServer.Parser
