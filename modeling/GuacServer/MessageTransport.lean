import GuacServer.EncoderDrivers
import GuacServer.ProtocolSend

/-!
# Messages from the sender to their readers

Messages of texts that are sent over a socket which accepts everything are read by a
client as these messages, in whatever parts the bytes arrive. From a recording of
messages without semicolons the parser of the encoder reads them as well.
-/

namespace GuacServer.MessageTransport

open Unicode GuacServer.Parser Socket ProtocolSend EncoderJobs

/-- The bytes of a message. -/
def messageBytes (message : List (List Char)) : List UInt8 :=
  elementBytes (message.map utf8Encode)++[59]

/-- Messages sent one after the other. -/
def sendMessages (messages : List (List (List Char))) : SocketOp :=
  chain (messages.map fun message => sendElements (message.map utf8Encode))

/-- A message that the parser reads: of fewer elements than its table has, without zero
characters, and within its buffer. -/
structure Fits (message : List (List Char)) : Prop where
  ne_nil : message≠[]
  length_lt : message.length<guacInstructionMaxElements
  noZero : ∀ text∈message, ∀ c∈text, c≠Char.ofNat 0
  text_le : ∀ text∈message, text.length≤8192
  bytes_le : (messageBytes message).length ≤ instructionbufSize

/-- A message as an instruction. -/
def received (message : List (List Char)) : Instruction :=
  ⟨(message.map utf8Encode).head?,message.length-1,(message.map utf8Encode).tail⟩

variable {message : List (List Char)} {messages : List (List (List Char))}

theorem Fits.elements (h : Fits message) :
    ∃ es, WithinLimits es ∧ wireInstruction es=messageBytes message ∧
      instructionOf es=received message := by
  have hencode : message.map utf8Encode=(message.map (List.map utf8Char)).map textBytes := by
    rw [List.map_map]
    exact List.map_congr_left fun text _ => (utf8Encode_textBytes text).symm
  have hzeros : ∀ cs∈message.map (List.map utf8Char), ∀ b∈textBytes cs, b≠0 := by
    rw [List.forall_mem_map]
    intro text htext
    rw [utf8Encode_textBytes]
    exact utf8Encode_ne_zero (h.noZero text htext)
  have hvalues : ((message.map (List.map utf8Char)).map textElement).map Element.value=
      message.map utf8Encode := by
    rw [hencode,List.map_map]
    exact List.map_congr_left fun cs hcs => textElement_value (hzeros cs hcs)
  have hne : message.map (List.map utf8Char)≠[] := by simpa using h.ne_nil
  refine ⟨(message.map (List.map utf8Char)).map textElement,
    ⟨by simpa using hne,by simpa using h.length_lt,?_,?_⟩,
    by rw [messageBytes,hencode,elementBytes_text hzeros hne],?_⟩
  · rw [List.forall_mem_map,List.forall_mem_map]
    exact fun text htext => textElement_wellFormed (by simpa using h.text_le text htext)
  · rw [List.forall_mem_map,List.forall_mem_map]
    exact fun text _ => ⟨text,rfl⟩
  · rw [instructionOf,hvalues]
    simp [received]

/-- Messages have elements whose instructions they are. -/
theorem exists_elements (h : ∀ message∈messages, Fits message) :
    ∃ es : List (List Char)→List Element, (∀ message∈messages, WithinLimits (es message) ∧
        wireInstruction (es message)=messageBytes message) ∧
      (messages.map es).flatMap wireInstruction=messages.flatMap messageBytes ∧
      (messages.map es).map instructionOf=messages.map received := by
  choose! es hlimits hwire hreceived using fun message (hm : Fits message) => hm.elements
  refine ⟨es,fun message hmem => ⟨hlimits message (h message hmem),hwire message (h message hmem)⟩,
    ?_,?_⟩
  · rw [List.flatMap_map]
    exact List.flatMap_congr fun message hmem => hwire message (h message hmem)
  · rw [List.map_map]
    exact List.map_congr_left fun message hmem => hreceived message (h message hmem)

/-- Messages are written one after another. -/
theorem sendMessages_appends (messages : List (List (List Char))) {writes : List (Option ℕ)}
    (hwrites : none ∉ writes) :
    ∃ socket, sendMessages messages (guacSocketAlloc writes)=some (0,socket) ∧
      socket.output=messages.flatMap messageBytes := by
  have hsent : List.Forall₂ (Appends 0) (messages.map fun message =>
      sendElements (message.map utf8Encode)) (messages.map messageBytes) := by
    rw [List.forall₂_map_left_iff,List.forall₂_map_right_iff]
    exact List.forall₂_same.mpr fun message _ => sendElements_appends _
  obtain ⟨socket,hrun,-,-,houtput⟩ := chain_appends hsent (guacSocketAlloc writes) hwrites rfl
  exact ⟨socket,hrun,by rw [houtput,List.flatMap_def]; rfl⟩

/-- A client receives the messages that are sent, in whatever parts the bytes arrive. -/
theorem sendMessages_received (h : ∀ message∈messages, Fits message) {writes : List (Option ℕ)}
    (hwrites : none ∉ writes) :
    ∃ socket, sendMessages messages (guacSocketAlloc writes)=some (0,socket) ∧
      ∀ chunks, (∀ chunk∈chunks, chunk≠[]) → chunks.flatten=socket.output →
        (session guacBufferedParserAlloc (reads chunks)).1=messages.map received := by
  obtain ⟨socket,hrun,houtput⟩ := sendMessages_appends messages hwrites
  obtain ⟨es,hes,hwires,hreceived⟩ := exists_elements h
  refine ⟨socket,hrun,fun chunks hchunks hflatten => ?_⟩
  obtain ⟨hdelivers,hread⟩ := reads_delivers hchunks
  rw [←hreceived]
  refine session_instructions (List.forall_mem_map.mpr fun message hmem => ?_)
    guacBufferedParserAlloc_boundary hdelivers (by rw [List.nil_append,hread,hflatten,houtput,
      hwires])
  obtain ⟨hlimits,hwire⟩ := hes message hmem
  exact ⟨hlimits,hwire ▸ (h message hmem).bytes_le⟩

/-- Where no element has a semicolon, an instruction is all of its first piece. -/
theorem kept_of_noSemicolon {instructions : List (List Element)} (filled : ℕ)
    (h : ∀ es∈instructions, ∃ a, 59 ∉ a ∧ wireInstruction es=a++[59]) :
    KeptFrom filled instructions := by
  induction instructions generalizing filled with
  | nil => trivial
  | cons es instructions ih =>
    obtain ⟨⟨a,ha,hwire⟩,hrest⟩ := List.forall_mem_cons.mp h
    refine ⟨?_,ih _ hrest⟩
    rw [hwire,pieces_semicolon ha,List.headD_cons]
    exact le_total _ _

/-- The encoder reads from a recording the messages that were sent, if none of them has a
semicolon in an element. -/
theorem sendMessages_recorded (driver : Driver)
    (h : ∀ message∈messages, Fits message ∧ (messageBytes message).length<sizeofData ∧
      59 ∉ elementBytes (message.map utf8Encode)) {writes : List (Option ℕ)}
    (hwrites : none ∉ writes) :
    ∃ socket, sendMessages messages (guacSocketAlloc writes)=some (0,socket) ∧
      ∀ parts, parts.flatten=socket.output →
        (driver.run parts).ins.handled=(messages.map received).map some := by
  obtain ⟨socket,hrun,houtput⟩ := sendMessages_appends messages hwrites
  obtain ⟨es,hes,hwires,hreceived⟩ := exists_elements fun message hmem => (h message hmem).1
  refine ⟨socket,hrun,fun parts hflatten => ?_⟩
  rw [←hreceived]
  refine (driver.run_handled_iff (List.forall_mem_map.mpr fun message hmem => ?_)
    (by rw [hflatten,houtput,hwires])).mpr
    (kept_of_noSemicolon 0 (List.forall_mem_map.mpr fun message hmem => ?_))
  · obtain ⟨hlimits,hwire⟩ := hes message hmem
    exact ⟨hlimits,hwire ▸ (h message hmem).2.1⟩
  · exact ⟨_,(h message hmem).2.2,(hes message hmem).2⟩

/-- Two messages, one with an empty element. -/
def shortMessages : List (List (List Char)) := [[['n', 'o', 'p']], [['é'], []]]

theorem shortMessages_fit : ∀ message∈shortMessages, Fits message ∧
    (messageBytes message).length<sizeofData ∧ 59 ∉ elementBytes (message.map utf8Encode) := by
  refine List.forall_mem_cons.mpr ⟨?_,List.forall_mem_singleton.mpr ?_⟩ <;>
    exact ⟨⟨by decide,by decide,by simp,by decide,by decide +kernel⟩,by decide +kernel,
      by decide +kernel⟩

theorem sendMessages_received_short :
    ∃ socket, sendMessages shortMessages (guacSocketAlloc [some 3])=some (0,socket) ∧
      ∀ chunks, (∀ chunk∈chunks, chunk≠[]) → chunks.flatten=socket.output →
        (session guacBufferedParserAlloc (reads chunks)).1=shortMessages.map received :=
  sendMessages_received (fun message hmem => (shortMessages_fit message hmem).1) (by decide)

theorem sendMessages_recorded_short :
    ∃ socket, sendMessages shortMessages (guacSocketAlloc [])=some (0,socket) ∧
      ∀ parts, parts.flatten=socket.output →
        (Driver.run .recording parts).ins.handled=(shortMessages.map received).map some :=
  sendMessages_recorded .recording shortMessages_fit (by decide)

end GuacServer.MessageTransport
