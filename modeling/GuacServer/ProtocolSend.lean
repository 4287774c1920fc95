import Mathlib.Data.List.Forall2
import GuacServer.ParserProgress
import GuacServer.Socket

/-!
# Instructions as the protocol functions send them

Every protocol function writes its elements with a length prefix, separated
by commas and ended by a semicolon. What reaches the socket is stated once for
any list of elements; the parser then finds exactly those elements in it.
-/

namespace GuacServer.ProtocolSend

open Unicode DecimalNumerals GuacServer.Parser Socket

variable {ready : ℕ}

/-- __guac_socket_write_length_string. -/
def guacSocketWriteLengthString (str : List UInt8) : SocketOp :=
  chain [guacSocketWriteInt (guacUtf8Strlen str),guacSocketWriteString (ascii "."),
    guacSocketWriteString str]

/-- __guac_socket_write_length_int. -/
def guacSocketWriteLengthInt (i : ℤ) : SocketOp := guacSocketWriteLengthString (decimalInt i)

/-- Elements written one after the other with commas between them. -/
def elementOps : List (List UInt8)→List SocketOp
  | [] => []
  | [str] => [guacSocketWriteLengthString str]
  | str::strs =>
    guacSocketWriteLengthString str::guacSocketWriteString (ascii ",")::elementOps strs

/-- The form of every protocol function: elements and a semicolon. -/
def sendElements (strs : List (List UInt8)) : SocketOp :=
  chain (elementOps strs++[guacSocketWriteString (ascii ";")])

/-- The bytes of an element. -/
def lengthString (str : List UInt8) : List UInt8 := decimalInt (guacUtf8Strlen str)++46::cString str

/-- The bytes of elements with commas between them. -/
def elementBytes : List (List UInt8)→List UInt8
  | [] => []
  | [str] => lengthString str
  | str::strs => lengthString str++44::elementBytes strs

/-- An element is appended with its length. -/
theorem guacSocketWriteLengthString_appends (str : List UInt8) :
    Appends ready (guacSocketWriteLengthString str) (lengthString str) := by
  have hchain : Appends ready _ _ := chain_appends (List.Forall₂.cons
    (guacSocketWriteInt_appends (guacUtf8Strlen str)) (List.Forall₂.cons
      (guacSocketWriteString_appends (ascii ".")) (List.Forall₂.cons
        (guacSocketWriteString_appends str) List.Forall₂.nil)))
  have hperiod : cString (ascii ".")=[46] := by decide
  rw [hperiod] at hchain
  unfold guacSocketWriteLengthString lengthString
  simpa using hchain

/-- An integer is appended as an element. -/
theorem guacSocketWriteLengthInt_appends (i : ℤ) :
    Appends ready (guacSocketWriteLengthInt i) (lengthString (decimalInt i)) :=
  guacSocketWriteLengthString_appends (decimalInt i)

/-- Every operation of the form appends its own part. -/
theorem elementOps_appends (strs : List (List UInt8)) :
    ∃ texts, List.Forall₂ (Appends ready) (elementOps strs) texts ∧
      texts.flatten=elementBytes strs := by
  have hcomma : cString (ascii ",")=[44] := by decide
  have happends : Appends ready _ _ := guacSocketWriteString_appends (ascii ",")
  rw [hcomma] at happends
  induction strs with
  | nil => exact ⟨[],List.Forall₂.nil,rfl⟩
  | cons str strs ih =>
    have hstr : Appends ready _ _ := guacSocketWriteLengthString_appends str
    cases strs with
    | nil =>
      refine ⟨[lengthString str],List.Forall₂.cons hstr List.Forall₂.nil,?_⟩
      rw [List.flatten_cons,List.flatten_nil,List.append_nil]
      rfl
    | cons next strs =>
      obtain ⟨texts,htexts,hflatten⟩ := ih
      refine ⟨lengthString str::[44]::texts,
        List.Forall₂.cons hstr (List.Forall₂.cons happends htexts),?_⟩
      rw [List.flatten_cons,List.flatten_cons,hflatten]
      rfl

/-- The elements and their terminators are appended. -/
theorem sendElements_appends (strs : List (List UInt8)) :
    Appends ready (sendElements strs) (elementBytes strs++[59]) := by
  obtain ⟨texts,htexts,hflatten⟩ := elementOps_appends strs
  have hsemicolon : cString (ascii ";")=[59] := by decide
  have hlast : Appends ready _ _ := guacSocketWriteString_appends (ascii ";")
  rw [hsemicolon] at hlast
  have hchain : Appends ready _ _ :=
    chain_appends (List.rel_append htexts (List.Forall₂.cons hlast List.Forall₂.nil))
  rwa [List.flatten_append,hflatten,List.flatten_cons,List.flatten_nil,List.append_nil] at hchain

/-- The element that a text is written as: its length in characters and its
bytes. -/
def textElement (cs : List CharBytes) : Element := ⟨decimal cs.length,decimal_digits _,cs⟩

variable {cs : List CharBytes}

/-- A text without zero bytes is written as its element. -/
theorem lengthString_text (h : ∀ b∈textBytes cs, b≠0) :
    lengthString (textBytes cs)=(textElement cs).wire := by
  rw [lengthString,guacUtf8Strlen_text h,cString_of_ne_zero h]
  rfl

/-- The parser reads the text back. -/
theorem textElement_value (h : ∀ b∈textBytes cs, b≠0) :
    (textElement cs).value=textBytes cs := cString_of_ne_zero h

/-- The element of a text within the limit is well formed. -/
theorem textElement_wellFormed (h : cs.length≤8192) :
    (textElement cs).WellFormed := by
  refine ⟨numeral_decimal _,?_⟩
  unfold guacInstructionMaxLength
  exact_mod_cast h

/-- Texts written one after the other are an instruction. -/
theorem elementBytes_text {css : List (List CharBytes)} (h : ∀ cs∈css, ∀ b∈textBytes cs, b≠0)
    (hne : css≠[]) :
    elementBytes (css.map textBytes)++[59]=wireInstruction (css.map textElement) := by
  induction css with
  | nil => exact absurd rfl hne
  | cons cs css ih =>
    have hcs := lengthString_text (h cs (List.mem_cons_self ..))
    cases css with
    | nil =>
      rw [List.map_singleton,List.map_singleton,wireInstruction_single,←hcs,elementBytes]
    | cons next css =>
      have hrest := ih (fun c hc => h c (List.mem_cons_of_mem _ hc)) (by simp)
      simp only [List.map_cons] at hrest ⊢
      rw [elementBytes,wireInstruction_cons,←hrest,hcs,List.append_assoc]
      · rfl
      · simp

/-- The strings of the instruction that a call has completed in a buffer at
the given address. -/
def completedInstruction (address : ℕ) (r : AppendResult) : Instruction :=
  ⟨r.parser.opcode.map fun a => cString (r.buffer.drop (a-address)),r.parser.argc,
    r.parser.argv.map fun a => cString (r.buffer.drop (a-address))⟩

/-- An instruction at the head of a buffer is completed with its elements, and
what follows it is untouched. -/
theorem headInstruction_completed {es : List Element} (hne : es≠[])
    (hcount : es.length≤guacInstructionMaxElements) (hes : ∀ e∈es, e.Delimited)
    (parser : GuacParser) (address : ℕ) (tail : List UInt8) :
    (feed (guacParserReset parser) address (wireInstruction es++tail)).parser.state=.complete ∧
      completedInstruction address
        (feed (guacParserReset parser) address (wireInstruction es++tail))=instructionOf es ∧
      (feed (guacParserReset parser) address (wireInstruction es++tail)).parsed=
        (wireInstruction es).length ∧
      (feed (guacParserReset parser) address (wireInstruction es++tail)).buffer.drop
        (wireInstruction es).length=tail := by
  have hfeed := feed_instruction (guacParserReset_start parser).1 hne
    (Nat.le_trans (Nat.zero_add es.length).le hcount) hes address tail
  have hstrings := elementAddresses_strings es [] tail
  have haddresses : elementAddresses address es=(elementAddresses 0 es).map (· + address) := by
    rw [←elementAddresses_add,Nat.zero_add]
  rw [hfeed,←length_storedInstruction,List.drop_left]
  refine ⟨rfl,?_,rfl,rfl⟩
  rw [List.length_nil,List.nil_append] at hstrings
  simp only [completedInstruction,instructionOf,GuacParser.complete,GuacParser.argv,
    guacParserReset,List.nil_append,haddresses,←hstrings,List.head?_map,List.map_tail,
    List.map_map,Option.map_map,Function.comp_def,Nat.add_sub_cancel]
  simp [GuacParser.elementc]

/-- The buffer keeps its size. -/
theorem length_feed (parser : GuacParser) (address : ℕ) (buffer : List UInt8) :
    (feed parser address buffer).buffer.length=buffer.length := by
  induction hn : buffer.length using Nat.strong_induction_on generalizing parser address buffer with
  | _ n ih =>
    subst hn
    by_cases hactive : parser.Active
    · have hwithin := guacParserAppend_within hactive.1 address buffer
      by_cases hzero : (guacParserAppend parser address buffer).parsed=0
      · rw [feed_of_parsed_zero hactive hzero]
        exact hwithin.length_eq
      · have hle := hwithin.parsed_le
        rw [feed_of_parsed hactive hzero,AppendResult.after_buffer,List.length_append,
          List.length_take,hwithin.length_eq,ih _ (by rw [List.length_drop]; omega) _ _ _ rfl,
          List.length_drop]
        omega
    · rw [feed_of_not_active hactive]

/-- Instructions parsed one after the other from a buffer, each by repeated
calls from a reset parser; nothing if one of them is not complete. -/
def parseInstructions (parser : GuacParser) (address : ℕ) (buffer : List UInt8) :
    Option (List Instruction) :=
  if buffer=[] then some []
  else
    let r := feed (guacParserReset parser) address buffer
    if _h : r.parser.state=.complete ∧ 0<r.parsed ∧ r.parsed≤buffer.length then
      (parseInstructions r.parser (address+r.parsed) (r.buffer.drop r.parsed)).map
        (completedInstruction address r :: ·)
    else none
termination_by buffer.length
decreasing_by
  have hpos : 0<(feed (guacParserReset parser) address buffer).parsed := _h.2.1
  have hle : (feed (guacParserReset parser) address buffer).parsed≤buffer.length := _h.2.2
  change ((feed (guacParserReset parser) address buffer).buffer.drop
    (feed (guacParserReset parser) address buffer).parsed).length<buffer.length
  rw [List.length_drop,length_feed]
  omega

/-- Instructions that follow one another in a buffer are parsed in turn. -/
theorem parseInstructions_wire {ess : List (List Element)}
    (hne : ∀ es∈ess, es≠[] ∧ es.length≤guacInstructionMaxElements)
    (hess : ∀ es∈ess, ∀ e∈es, e.Delimited) (parser : GuacParser) (address : ℕ) :
    parseInstructions parser address (ess.flatMap wireInstruction)=
      some (ess.map instructionOf) := by
  induction ess generalizing parser address with
  | nil => rw [List.flatMap_nil,parseInstructions,if_pos rfl,List.map_nil]
  | cons es ess ih =>
    obtain ⟨hes,hcount⟩ := hne es (List.mem_cons_self ..)
    obtain ⟨hstate,hinstruction,hparsed,hdrop⟩ := headInstruction_completed hes hcount
      (hess es (List.mem_cons_self ..)) parser address (ess.flatMap wireInstruction)
    have htwo := two_mul_length_le_wireInstruction es
    have hpos : 0<es.length := List.length_pos_iff.mpr hes
    have hlength : (wireInstruction es++ess.flatMap wireInstruction).length=
        (wireInstruction es).length+(ess.flatMap wireInstruction).length := List.length_append
    have hbuffer : wireInstruction es++ess.flatMap wireInstruction≠[] := by
      rw [←List.length_pos_iff]
      omega
    rw [List.flatMap_cons,parseInstructions,if_neg hbuffer]
    dsimp only
    rw [dif_pos ⟨hstate,by omega,by omega⟩,hinstruction,hparsed,hdrop,
      ih (fun e he => hne e (List.mem_cons_of_mem _ he))
        (fun e he => hess e (List.mem_cons_of_mem _ he))]
    rfl

/-- Elements that are Unicode texts without the zero character, of at most
8192 characters each, are read back by the parser from what is written, in
whatever buffer and before whatever further bytes. -/
theorem sendElements_parse {elements : List (List Char)} (hne : elements≠[])
    (hcount : elements.length≤guacInstructionMaxElements)
    (hnul : ∀ text∈elements, ∀ c∈text, c≠Char.ofNat 0)
    (hlen : ∀ text∈elements, text.length≤8192) {writes : List (Option ℕ)}
    (hwrites : none ∉ writes) :
    ∃ socket, sendElements (elements.map utf8Encode) (guacSocketAlloc writes)=some (0,socket) ∧
      ∀ (parser : GuacParser) (address : ℕ) (tail : List UInt8),
        (feed (guacParserReset parser) address (socket.output++tail)).parser.state=.complete ∧
        completedInstruction address (feed (guacParserReset parser) address (socket.output++tail))=
          ⟨(elements.map utf8Encode).head?,elements.length-1,(elements.map utf8Encode).tail⟩ ∧
        (feed (guacParserReset parser) address (socket.output++tail)).parsed=socket.output.length ∧
        (feed (guacParserReset parser) address (socket.output++tail)).buffer.drop
          socket.output.length=tail := by
  obtain ⟨socket,hrun,-,-,houtput⟩ :=
    sendElements_appends (elements.map utf8Encode) (guacSocketAlloc writes) hwrites rfl
  refine ⟨socket,hrun,?_⟩
  let css : List (List CharBytes) := elements.map fun text => text.map utf8Char
  have hencode : elements.map utf8Encode=css.map textBytes := by
    rw [List.map_map]
    exact List.map_congr_left fun text _ => (utf8Encode_textBytes text).symm
  have hzeros : ∀ cs∈css, ∀ b∈textBytes cs, b≠0 := by
    intro cs hcs
    obtain ⟨text,htext,rfl⟩ := List.mem_map.mp hcs
    rw [utf8Encode_textBytes]
    exact utf8Encode_ne_zero (hnul text htext)
  have hdelimited : ∀ e∈css.map textElement, e.Delimited := by
    intro e he
    obtain ⟨cs,hcs,rfl⟩ := List.mem_map.mp he
    obtain ⟨text,htext,rfl⟩ := List.mem_map.mp hcs
    exact (textElement_wellFormed (by rw [List.length_map]; exact hlen text htext)).delimited
  have hcss : css≠[] := by simpa [css] using hne
  have hvalues : (css.map textElement).map Element.value=elements.map utf8Encode := by
    rw [hencode,List.map_map]
    exact List.map_congr_left fun cs hcs => textElement_value (hzeros cs hcs)
  have hwire : socket.output=wireInstruction (css.map textElement) := by
    rw [houtput,hencode,elementBytes_text hzeros hcss]
    rfl
  intro parser address tail
  have hcompleted := headInstruction_completed (by simpa using hcss)
    (by simpa [css] using hcount) hdelimited parser address tail
  rw [instructionOf,hvalues] at hcompleted
  rw [hwire]
  simpa [css] using hcompleted

/-- An instruction whose elements hold delimiters and characters of every
size. -/
theorem sendElements_parse_delimiters :
    ∃ socket, sendElements ([['n', 'a', 'm', 'e'], ['1', '.', 'é', ';', '€', ',', '😀'], []].map
        utf8Encode) (guacSocketAlloc [some 3])=some (0,socket) ∧
      ∀ (parser : GuacParser) (address : ℕ) (tail : List UInt8),
        (feed (guacParserReset parser) address (socket.output++tail)).parser.state=.complete ∧
        completedInstruction address (feed (guacParserReset parser) address (socket.output++tail))=
          ⟨([['n', 'a', 'm', 'e'], ['1', '.', 'é', ';', '€', ',', '😀'], []].map
              utf8Encode).head?, 2,
            ([['n', 'a', 'm', 'e'], ['1', '.', 'é', ';', '€', ',', '😀'], []].map utf8Encode).tail⟩ ∧
        (feed (guacParserReset parser) address (socket.output++tail)).parsed=socket.output.length ∧
        (feed (guacParserReset parser) address (socket.output++tail)).buffer.drop
          socket.output.length=tail :=
  sendElements_parse (by decide) (by decide)
    (fun text htext => forall_mem_of_all (List.all_eq_true.mp
      (by decide : List.all _ fun text => text.all fun c => decide (c≠Char.ofNat 0)) text htext))
    (by decide) (by decide)

end GuacServer.ProtocolSend
