import GuacServer.SocketNest

/-!
# Log instructions

A log message is formatted into a buffer of fixed size, which keeps as many of
its bytes as fit. The length prefix counts a character that is cut off there
as a whole one, so that the parser takes the end of the instruction for the
rest of it.
-/

namespace GuacServer.ProtocolLog

open Unicode DecimalNumerals GuacServer.Parser Socket ProtocolSend SocketNest

/-- The size of the message buffer of vguac_protocol_send_log. -/
def messageSize : ℕ := 4096

/-- The string that vsnprintf leaves in a buffer of the given size. -/
def vsnprintf (size : ℕ) (formatted : List UInt8) : List UInt8 := formatted.take (size-1)

/-- vguac_protocol_send_log, given the formatted message. -/
def vguacProtocolSendLog (formatted : List UInt8) : SocketOp :=
  chain [guacSocketWriteString (ascii "3.log,"),
    guacSocketWriteLengthString (vsnprintf messageSize formatted),
    guacSocketWriteString (ascii ";")]

/-- guac_protocol_send_log of a string with the format "%s". -/
def guacProtocolSendLog (message : List UInt8) : SocketOp := vguacProtocolSendLog (cString message)

/-- A parser that is fed what was sent accepts all of it as one log instruction,
whose argument the message starts with. -/
def ParsedAsLog (parser : GuacParser) (address : ℕ) (message sent : List UInt8) : Prop :=
  (feed (guacParserReset parser) address sent).parser.state=.complete ∧
    (feed (guacParserReset parser) address sent).parsed=sent.length ∧
    ∃ argument, argument <+: message ∧
      completedInstruction address (feed (guacParserReset parser) address sent)=
        ⟨some (ascii "log"), 1, [argument]⟩

/-- The characters of the opcode. -/
def logOpcode : List CharBytes := ['l', 'o', 'g'].map utf8Char

/-- Their bytes. -/
theorem textBytes_logOpcode : textBytes logOpcode=ascii "log" := by
  rw [logOpcode,utf8Encode_textBytes]
  decide

/-- None of them ends a string. -/
theorem logOpcode_ne_zero : ∀ b∈textBytes logOpcode, b≠0 := by
  rw [textBytes_logOpcode,show ascii "log" = [108,111,103] from rfl]
  simp

/-- A log instruction has the form of all instructions. -/
theorem vguacProtocolSendLog_appends {ready : ℕ} (formatted : List UInt8) :
    Appends ready (vguacProtocolSendLog formatted)
      (elementBytes [ascii "log", vsnprintf messageSize formatted]++[59]) := by
  have hopcode : cString (ascii "3.log,")=lengthString (ascii "log")++[44] := by decide +kernel
  have hsemicolon : cString (ascii ";")=[59] := by decide
  have hchain : Appends ready _ _ := chain_appends (List.Forall₂.cons
    (guacSocketWriteString_appends (ascii "3.log,")) (List.Forall₂.cons
      (guacSocketWriteLengthString_appends (vsnprintf messageSize formatted)) (List.Forall₂.cons
        (guacSocketWriteString_appends (ascii ";")) List.Forall₂.nil)))
  rw [hopcode,hsemicolon] at hchain
  unfold vguacProtocolSendLog
  simpa [elementBytes] using hchain

/-- The elements of a log instruction with a text. -/
theorem elementBytes_log {cs : List CharBytes} (hnul : ∀ b∈textBytes cs, b≠0) :
    elementBytes [ascii "log", textBytes cs]++[59]=
      wireInstruction [textElement logOpcode,textElement cs] := by
  have hzeros : ∀ text∈[logOpcode,cs], ∀ b∈textBytes text, b≠0 := by
    simpa using ⟨logOpcode_ne_zero,hnul⟩
  have hbytes := elementBytes_text hzeros (List.cons_ne_nil _ _)
  rwa [List.map_cons,List.map_singleton,textBytes_logOpcode] at hbytes

/-- Complete characters are accepted as the argument. -/
theorem parsedAsLog_text {cs : List CharBytes} (hnul : ∀ b∈textBytes cs, b≠0)
    (hlen : cs.length≤8192) {message : List UInt8} (hstarts : textBytes cs <+: message)
    (parser : GuacParser) (address : ℕ) :
    ParsedAsLog parser address message (elementBytes [ascii "log", textBytes cs]++[59]) := by
  have hdelimited : ∀ e∈[textElement logOpcode,textElement cs], e.Delimited := by
    intro e he
    rcases List.mem_pair.mp he with rfl | rfl
    · exact (textElement_wellFormed (by decide)).delimited
    · exact (textElement_wellFormed hlen).delimited
  have hcount : [textElement logOpcode,textElement cs].length≤guacInstructionMaxElements :=
    Nat.le_add_left 2 126
  have hcompleted :=
    headInstruction_completed (List.cons_ne_nil _ _) hcount hdelimited parser address []
  rw [List.append_nil,←elementBytes_log hnul] at hcompleted
  obtain ⟨hstate,hinstruction,hparsed,-⟩ := hcompleted
  refine ⟨hstate,hparsed,textBytes cs,hstarts,hinstruction.trans ?_⟩
  have hopcode : (textElement logOpcode).value=ascii "log" :=
    (textElement_value logOpcode_ne_zero).trans textBytes_logOpcode
  rw [instructionOf,List.map_cons,List.map_singleton,hopcode,textElement_value hnul]
  rfl

/-- A text does not end within a character. -/
theorem textBytes_ne_append_cut (cs ds : List CharBytes) {b : UInt8} {bytes : List UInt8}
    (hpart : (b::bytes).length<guacUtf8Charsize b) :
    textBytes ds≠textBytes cs++b::bytes := by
  intro h
  induction cs generalizing ds with
  | nil =>
    cases ds with
    | nil => cases h
    | cons d ds =>
      have hlead : d.lead=b := (List.cons.inj h).1
      have hlength := congrArg List.length h
      rw [textBytes_cons,List.length_append,CharBytes.length_bytes,hlead,textBytes_nil,
        List.nil_append] at hlength
      omega
  | cons c cs ih =>
    cases ds with
    | nil => cases h
    | cons d ds =>
      have hfirst : textBytes [d]++textBytes ds=textBytes [c]++(textBytes cs++b::bytes) := by
        simpa using h
      have hlength : [d].length=[c].length := rfl
      exact ih ds (textBytes_unique hlength hfirst).2

/-- What is accepted as a log instruction has complete characters as its
argument. -/
theorem textBytes_of_parsedAsLog {cut : List UInt8} (hnul : ∀ b∈cut, b≠0)
    {parser : GuacParser} {address : ℕ} {message : List UInt8}
    (h : ParsedAsLog parser address message (elementBytes [ascii "log", cut]++[59])) :
    ∃ ds, textBytes ds=cut := by
  obtain ⟨hstate,hparsed,argument,-,hinstruction⟩ := h
  obtain ⟨es,hhead⟩ := (feed_complete_iff parser address _).mp hstate
  obtain ⟨tail,hbuffer⟩ := hhead.head
  obtain ⟨-,hcompleted,hlength,-⟩ := headInstruction_completed hhead.ne_nil hhead.length_le
    hhead.delimited parser address tail
  rw [←hbuffer] at hcompleted hlength
  have htail : tail=[] := by
    have hsize := congrArg List.length hbuffer
    rw [←hparsed,hlength,List.length_append] at hsize
    exact List.eq_nil_of_length_eq_zero (by omega)
  have hcount : es.length=2 := by
    have hargc : es.length-1=1 := congrArg Instruction.argc (hcompleted.symm.trans hinstruction)
    omega
  obtain ⟨e,f,rfl⟩ := List.length_eq_two.mp hcount
  have hopcode : lengthString (ascii "log")=(textElement logOpcode).wire := by
    rw [←textBytes_logOpcode]
    exact lengthString_text logOpcode_ne_zero
  rw [htail,List.append_nil,elementBytes,elementBytes,wireInstruction_cons,
    wireInstruction_single,List.append_assoc,List.cons_append,hopcode] at hbuffer
  · obtain ⟨-,hrest⟩ := Element.wire_unique (textElement_wellFormed (by decide)).delimited
      (hhead.delimited e (List.mem_cons_self ..)) hbuffer
    have hwire := List.append_cancel_right (List.cons.inj hrest).2
    rw [lengthString,cString_of_ne_zero hnul,Element.wire] at hwire
    exact ⟨f.content,(digits_unique (decimal_digits _) f.digits_ok hwire).2.symm⟩
  · simp

/-- The part of a text that a buffer keeps is a text exactly if all of it is
kept or a character ends there. -/
theorem vsnprintf_text_iff (text : List Char) :
    (∃ ds, textBytes ds=vsnprintf messageSize (utf8Encode text)) ↔
      (utf8Encode text).length < messageSize ∨ CharacterEnd text (messageSize-1) := by
  constructor
  · rintro ⟨ds,hds⟩
    rw [vsnprintf,←utf8Encode_textBytes] at hds
    obtain ⟨k,bytes,htake,hbytes⟩ := textBytes_take (text.map utf8Char) (messageSize-1)
    rcases hbytes with rfl | ⟨b,rest,rfl,hpart⟩
    · rw [List.append_nil,←List.map_take,utf8Encode_textBytes,utf8Encode_textBytes] at htake
      rcases Nat.lt_or_ge (utf8Encode text).length messageSize with hlt | hge
      · exact Or.inl hlt
      · refine Or.inr ⟨k,?_⟩
        rw [←htake,List.length_take]
        omega
    · exact absurd (hds.trans htake) (textBytes_ne_append_cut _ ds hpart)
  · rintro (hlt | ⟨k,hk⟩)
    · refine ⟨text.map utf8Char,?_⟩
      rw [utf8Encode_textBytes,vsnprintf,List.take_of_length_le (by omega)]
    · refine ⟨(text.take k).map utf8Char,?_⟩
      rw [utf8Encode_textBytes,vsnprintf,utf8Encode_split text k,←hk,List.take_left]

/-- What is sent of a text is parsed as one log instruction exactly if all of it
is kept or a character ends there. -/
theorem parsedAsLog_iff {text : List Char} (hnul : ∀ c∈text, c≠Char.ofNat 0)
    (parser : GuacParser) (address : ℕ) :
    ParsedAsLog parser address (utf8Encode text)
        (elementBytes [ascii "log", vsnprintf messageSize (utf8Encode text)]++[59]) ↔
      (utf8Encode text).length < messageSize ∨ CharacterEnd text (messageSize-1) := by
  have hzeros : ∀ b∈vsnprintf messageSize (utf8Encode text), b≠0 := fun b hb =>
    utf8Encode_ne_zero hnul b (List.mem_of_mem_take hb)
  rw [←vsnprintf_text_iff]
  constructor
  · exact textBytes_of_parsedAsLog hzeros
  · rintro ⟨ds,hds⟩
    rw [←hds] at hzeros ⊢
    refine parsedAsLog_text hzeros ?_ (hds ▸ List.take_prefix _ _) parser address
    have hle := length_le_textBytes ds
    rw [hds,vsnprintf,List.length_take] at hle
    unfold messageSize at hle
    omega

/-- What is sent of a text, whatever portions the socket accepts of it. -/
theorem guacProtocolSendLog_output {text : List Char} (hnul : ∀ c∈text, c≠Char.ofNat 0)
    {writes : List (Option ℕ)} (hwrites : none ∉ writes) :
    ∃ socket, guacProtocolSendLog (utf8Encode text) (guacSocketAlloc writes)=some (0,socket) ∧
      socket.output=elementBytes [ascii "log", vsnprintf messageSize (utf8Encode text)]++[59] := by
  obtain ⟨socket,hrun,-,-,houtput⟩ :=
    vguacProtocolSendLog_appends (utf8Encode text) (guacSocketAlloc writes) hwrites rfl
  refine ⟨socket,?_,houtput⟩
  rw [guacProtocolSendLog,cString_of_ne_zero (utf8Encode_ne_zero hnul)]
  exact hrun

/-- A log message, whatever portions the socket accepts of it, is parsed as one
log instruction exactly if it fits into the buffer or a character ends there. -/
theorem guacProtocolSendLog_parse_iff {text : List Char} (hnul : ∀ c∈text, c≠Char.ofNat 0)
    {writes : List (Option ℕ)} (hwrites : none ∉ writes) (parser : GuacParser) (address : ℕ) :
    ∃ socket, guacProtocolSendLog (utf8Encode text) (guacSocketAlloc writes)=some (0,socket) ∧
      (ParsedAsLog parser address (utf8Encode text) socket.output ↔
        (utf8Encode text).length < messageSize ∨ CharacterEnd text (messageSize-1)) := by
  obtain ⟨socket,hrun,houtput⟩ := guacProtocolSendLog_output hnul hwrites
  refine ⟨socket,hrun,?_⟩
  rw [houtput]
  exact parsedAsLog_iff hnul parser address

/-- A short message of characters of several sizes. -/
theorem guacProtocolSendLog_parse_three :
    ∃ socket, guacProtocolSendLog (utf8Encode ['h', 'é', '€']) (guacSocketAlloc [some 3])=
        some (0,socket) ∧
      (ParsedAsLog guacParserAlloc 0 (utf8Encode ['h', 'é', '€']) socket.output ↔
        (utf8Encode ['h', 'é', '€']).length < messageSize ∨
          CharacterEnd ['h', 'é', '€'] (messageSize-1)) :=
  guacProtocolSendLog_parse_iff (by simp) (by simp) guacParserAlloc 0

/-- A message whose last character has one byte in the buffer. -/
def longMessage : List Char := List.replicate (messageSize-2) 'a' ++ ['é']

/-- Letters of one byte. -/
theorem length_utf8Encode_letters (n : ℕ) : (utf8Encode (List.replicate n 'a')).length=n := by
  have hletter : (String.utf8EncodeChar 'a').length=1 := by decide
  rw [utf8Encode,List.length_flatMap,List.map_replicate,hletter,List.sum_replicate_nat,Nat.mul_one]

/-- The message is cut within that character, and not parsed. -/
theorem guacProtocolSendLog_divided :
    ∃ socket, guacProtocolSendLog (utf8Encode longMessage) (guacSocketAlloc [])=some (0,socket) ∧
      ¬ParsedAsLog guacParserAlloc 0 (utf8Encode longMessage) socket.output := by
  have hnul : ∀ c∈longMessage, c≠Char.ofNat 0 := by
    intro c hc
    rcases List.mem_append.mp hc with hc | hc
    · rw [List.eq_of_mem_replicate hc]
      decide
    · rw [List.mem_singleton.mp hc]
      decide
  have hlast : (utf8Encode ['é']).length=2 := by decide
  have hlength : (utf8Encode longMessage).length=messageSize := by
    have hletters := length_utf8Encode_letters (messageSize-2)
    rw [utf8Encode] at hletters hlast
    rw [longMessage,utf8Encode,List.flatMap_append,List.length_append,hletters,hlast]
    rfl
  have hwrites : none ∉ ([] : List (Option ℕ)) := List.not_mem_nil
  obtain ⟨socket,hrun,houtput⟩ := guacProtocolSendLog_output hnul hwrites
  refine ⟨socket,hrun,?_⟩
  rw [houtput,parsedAsLog_iff hnul,hlength]
  rintro (hlt | ⟨k,hk⟩)
  · exact absurd hlt (lt_irrefl _)
  · rcases Nat.lt_or_ge (messageSize-2) k with hgt | hle
    · rw [List.take_of_length_le (by simp [longMessage]; omega),hlength] at hk
      exact absurd hk (by decide)
    · rw [longMessage,List.take_append_of_le_length (by rw [List.length_replicate]; exact hle),
        List.take_replicate,length_utf8Encode_letters] at hk
      unfold messageSize at hk hle
      omega

end GuacServer.ProtocolLog
