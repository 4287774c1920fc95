import GuacServer.ParserPrefixes

/-!
# Handing a connection over to its process

guacd reads the select instruction of a connection and leaves the rest to the
process of that connection. What the parser has buffered behind the instruction
is forwarded first, then everything that is read from the socket.
-/

namespace GuacServer.GuacdTransfer

open DecimalNumerals GuacServer.Parser List Unicode

/-- guac_parser_expect, with the value it returns. -/
def guacParserExpect (parser : GuacBufferedParser) (socket : List SocketEvent)
    (opcode : List UInt8) : ℤ×ReadResult :=
  let read := guacParserRead parser socket
  if read.error≠none then (-1,read)
  else if read.parser.instruction.opcode≠some opcode then
    let error : GuacError := ⟨.protocolError, "Instruction read did not have expected opcode"⟩
    (-1,{ read with error := some error })
  else (if read.parser.state=.complete then 0 else 1,read)

/-- guac_parser_shift: the bytes that are copied, and the parser. -/
def guacParserShift (parser : GuacBufferedParser) (length : ℕ) : List UInt8×GuacBufferedParser :=
  let copyEnd :=
    if parser.unparsedEnd-parser.unparsedStart > length then parser.unparsedStart+length
    else parser.unparsedEnd
  ((parser.instructionbuf.drop parser.unparsedStart).take (copyEnd-parser.unparsedStart),
    { parser with unparsedStart := copyEnd })

/-- `__write_all`: whether it fails, the outcomes of write left over and the bytes written.
Each outcome is the number of bytes written at most, or a failure. -/
def writeAll : List (Option ℕ)→List UInt8→Bool×List (Option ℕ)×List UInt8
  | writes, [] => (false,writes,[])
  | [], buffer => (false,[],buffer)
  | none::writes, _ => (true,writes,[])
  | some n::writes, buffer =>
    let rest := writeAll writes (buffer.drop n)
    (rest.1,rest.2.1,buffer.take n++rest.2.2)

/-- guac_socket_read without guac_socket_select: the bytes read, of which there are none at
the end of the stream, or a failure. -/
def guacSocketRead (length : ℕ) : List SocketEvent→Option (List UInt8)×List SocketEvent
  | [] => (some [],[])
  | .timeout::socket => guacSocketRead length socket
  | .selectError::socket => guacSocketRead length socket
  | .readError::socket => (none,socket)
  | .data bytes::socket =>
    (some (bytes.take length),
      if bytes.length≤length then socket else .data (bytes.drop length)::socket)

/-- The size of the buffer of guacd_connection_write_thread. -/
def bufferSize : ℕ := 8192

variable {parser : GuacBufferedParser} {socket : List SocketEvent}

/-- Bytes that are shifted are no longer unparsed. -/
theorem guacParserShift_unparsed {length : ℕ} (hlength : 0<length)
    (h : (guacParserShift parser length).1≠[]) :
    (guacParserShift parser length).2.unparsedEnd - (guacParserShift parser length).2.unparsedStart<
      parser.unparsedEnd-parser.unparsedStart := by
  simp only [guacParserShift] at h ⊢
  by_cases hlong : parser.unparsedEnd-parser.unparsedStart > length
  · rw [if_pos hlong]
    omega
  · rw [if_neg hlong] at h ⊢
    by_contra hnone
    have hzero : parser.unparsedEnd-parser.unparsedStart=0 := by omega
    rw [hzero,take_zero] at h
    exact h rfl

/-- Bytes that are read have left the socket. -/
theorem guacSocketRead_some {length : ℕ} {socket' : List SocketEvent} {bytes : List UInt8}
    (h : guacSocketRead length socket=(some bytes,socket')) :
    socketBytes socket=bytes++socketBytes socket' := by
  induction socket with
  | nil =>
    cases h
    rfl
  | cons event socket ih =>
    cases event with
    | data delivered =>
      simp only [guacSocketRead,Prod.mk.injEq,Option.some.injEq] at h
      obtain ⟨rfl,rfl⟩ := h
      rw [socketBytes]
      split
      next hle => rw [take_of_length_le hle]
      next => rw [socketBytes,←append_assoc,take_append_drop]
    | timeout => exact ih h
    | selectError => exact ih h
    | readError => cases h

/-- The first loop of guacd_connection_write_thread, over what the parser has buffered. -/
def forwardBuffered (parser : GuacBufferedParser) (writes : List (Option ℕ)) :
    List (Option ℕ)×List UInt8 :=
  if _hsome : (guacParserShift parser bufferSize).1≠[] then
    let written := writeAll writes (guacParserShift parser bufferSize).1
    if written.1=true then (written.2.1,written.2.2)
    else
      let rest := forwardBuffered (guacParserShift parser bufferSize).2 written.2.1
      (rest.1,written.2.2++rest.2)
  else (writes,[])
termination_by parser.unparsedEnd-parser.unparsedStart
decreasing_by exact guacParserShift_unparsed (by decide) _hsome

/-- The second loop of guacd_connection_write_thread, over what is read from the socket. -/
def forwardSocket (socket : List SocketEvent) (writes : List (Option ℕ)) :
    List (Option ℕ)×List UInt8 :=
  match _hread : guacSocketRead bufferSize socket with
  | (some (b::bytes),socket') =>
    let written := writeAll writes (b::bytes)
    if written.1=true then (written.2.1,written.2.2)
    else
      let rest := forwardSocket socket' written.2.1
      (rest.1,written.2.2++rest.2)
  | _ => (writes,[])
termination_by (socketBytes socket).length
decreasing_by
  rw [guacSocketRead_some _hread,length_append,length_cons]
  omega

/-- guacd_connection_write_thread: the bytes that the process gets. -/
def guacdConnectionWriteThread (parser : GuacBufferedParser) (socket : List SocketEvent)
    (writes : List (Option ℕ)) : List UInt8 :=
  let buffered := forwardBuffered parser writes
  buffered.2++(forwardSocket socket buffered.1).2

/-- guacd_route_connection, as far as it decides whether the connection is handed over: the
bytes that its process gets, if it gets it. -/
def guacdRouteConnection (socket : List SocketEvent) (writes : List (Option ℕ)) :
    Option (List UInt8) :=
  let expected := guacParserExpect guacBufferedParserAlloc socket (ascii "select")
  if expected.1≠0 then none
  else if expected.2.parser.argc≠1 then none
  else some (guacdConnectionWriteThread expected.2.parser expected.2.socket writes)

/-- Without a failure everything is written, however little at a time. -/
theorem writeAll_eq {writes : List (Option ℕ)} (h : none ∉ writes) (buffer : List UInt8) :
    ∃ writes', writeAll writes buffer=(false,writes',buffer) ∧ none ∉ writes' := by
  induction writes generalizing buffer with
  | nil => cases buffer <;> exact ⟨[],rfl,h⟩
  | cons outcome writes ih =>
    rw [mem_cons,not_or] at h
    cases buffer with
    | nil => exact ⟨outcome::writes,rfl,by rw [mem_cons,not_or]; exact h⟩
    | cons b buffer =>
      cases outcome with
      | none => exact absurd rfl h.1
      | some n =>
        obtain ⟨writes',hrest,hnone⟩ := ih h.2 ((b::buffer).drop n)
        refine ⟨writes',?_,hnone⟩
        rw [writeAll,hrest]
        · simp only [take_append_drop]
        · exact nofun

/-- The unparsed bytes lie in the buffer between the two pointers. -/
def Buffered (parser : GuacBufferedParser) (unparsed : List UInt8) : Prop :=
  ∃ front back, parser.instructionbuf=front++(unparsed++back) ∧
    parser.unparsedStart=front.length ∧ parser.unparsedEnd=front.length+unparsed.length

variable {unparsed : List UInt8}

/-- A shift takes the first of the unparsed bytes. -/
theorem Buffered.shift (h : Buffered parser unparsed) (length : ℕ) :
    (guacParserShift parser length).1=unparsed.take length ∧
      Buffered (guacParserShift parser length).2 (unparsed.drop length) := by
  obtain ⟨front,back,hbuffer,hstart,hend⟩ := h
  have hsize : parser.unparsedEnd-parser.unparsedStart=unparsed.length := by omega
  have hdrop : parser.instructionbuf.drop parser.unparsedStart=unparsed++back := by
    rw [hbuffer,hstart,drop_left]
  simp only [guacParserShift,hsize,hdrop]
  by_cases hlong : unparsed.length > length
  · simp only [if_pos hlong,Nat.add_sub_cancel_left]
    refine ⟨take_append_of_le_length hlong.le,⟨front++unparsed.take length,back,?_,?_,?_⟩⟩
    · rw [hbuffer,append_assoc,←append_assoc (unparsed.take length),take_append_drop]
    · rw [length_append,length_take,Nat.min_eq_left hlong.le,hstart]
    · simp only [length_append,length_take,length_drop,hend]
      omega
  · have hall : unparsed.length≤length := Nat.not_lt.mp hlong
    simp only [if_neg hlong,hsize,take_left]
    rw [take_of_length_le hall,drop_eq_nil_of_le hall]
    refine ⟨rfl,⟨front++unparsed,back,?_,?_,?_⟩⟩
    · rw [hbuffer,append_assoc,nil_append]
    · rw [length_append,hend]
    · rw [length_append,length_nil,hend,Nat.add_zero]

/-- All unparsed bytes are forwarded. -/
theorem Buffered.forward (h : Buffered parser unparsed)
    {writes : List (Option ℕ)} (hwrites : none ∉ writes) :
    ∃ writes', forwardBuffered parser writes=(writes',unparsed) ∧ none ∉ writes' := by
  induction hn : unparsed.length using Nat.strong_induction_on generalizing
    parser unparsed writes with
  | _ n ih =>
    obtain ⟨hshift,hbuffered⟩ := h.shift bufferSize
    rw [forwardBuffered,hshift]
    by_cases hnil : unparsed=[]
    · subst hnil
      exact ⟨writes,by simp,hwrites⟩
    · have hpos := length_pos_of_ne_nil hnil
      have hsome : unparsed.take bufferSize≠[] := by
        rw [Ne,take_eq_nil_iff,not_or]
        exact ⟨by decide,hnil⟩
      obtain ⟨writes',hwritten,hnone⟩ := writeAll_eq hwrites (unparsed.take bufferSize)
      obtain ⟨writes'',hrest,hnone'⟩ := ih (unparsed.drop bufferSize).length
        (by rw [length_drop,bufferSize]; omega) hbuffered hnone rfl
      refine ⟨writes'',?_,hnone'⟩
      rw [dif_pos hsome,hwritten]
      simp only [Bool.false_eq_true,if_false,hrest,take_append_drop]

/-- A socket that delivers data goes on to do so. -/
theorem guacSocketRead_delivers {socket' : List SocketEvent} (h : Delivers socket) {length : ℕ}
    {bytes : List UInt8} (hread : guacSocketRead length socket=(some bytes,socket')) :
    Delivers socket' := by
  cases socket with
  | nil =>
    cases hread
    exact h
  | cons event socket =>
    obtain ⟨hevent,hrest⟩ := forall_mem_cons.mp h
    obtain ⟨delivered,hne,rfl⟩ := hevent
    simp only [guacSocketRead,Prod.mk.injEq] at hread
    rw [←hread.2]
    split
    next => exact hrest
    next hlong =>
      refine forall_mem_cons.mpr ⟨⟨_,?_,rfl⟩,hrest⟩
      rw [Ne,drop_eq_nil_iff]
      exact hlong

/-- Everything that the socket delivers is forwarded. -/
theorem forwardSocket_eq (h : Delivers socket) {writes : List (Option ℕ)}
    (hwrites : none ∉ writes) : (forwardSocket socket writes).2=socketBytes socket := by
  induction hn : (socketBytes socket).length using Nat.strong_induction_on generalizing
    socket writes with
  | _ n ih =>
    rw [forwardSocket]
    split
    next b bytes socket' hread =>
      have hbytes := guacSocketRead_some hread
      obtain ⟨writes',hwritten,hnone⟩ := writeAll_eq hwrites (b::bytes)
      have hrest := ih (socketBytes socket').length
        (by rw [←hn,hbytes,length_append,length_cons]; omega)
        (guacSocketRead_delivers h hread) hnone rfl
      rw [hwritten]
      simp only [Bool.false_eq_true,if_false,hrest,hbytes]
    next hread =>
      -- Data that is delivered would have been read.
      cases socket with
      | nil => rfl
      | cons event socket =>
        obtain ⟨bytes,hne,rfl⟩ := h event (mem_cons_self ..)
        cases htake : bytes.take bufferSize with
        | nil =>
          rcases take_eq_nil_iff.mp htake with hzero | hnil
          · exact absurd hzero (by decide)
          · exact absurd hnil hne
        | cons b taken => exact (hread _ _ _ (by rw [guacSocketRead,htake])).elim

/-- A parser between instructions has buffered what is unparsed. -/
theorem buffered_of_boundary (h : parser.Boundary unparsed) :
    Buffered parser unparsed := by
  obtain ⟨front,back,hbuffer,hstart,hend,-⟩ := h
  exact ⟨front,back,hbuffer,hstart,hend⟩

/-- Where the instruction at the head of the stream is read, all that follows it is buffered
or left at the socket. -/
theorem guacParserRead_remains {es : List Element} (hes : WithinLimits es) (hd : Delivers socket)
    {rest : List UInt8} (hstream : socketBytes socket=wireInstruction es++rest)
    (hread : (guacParserRead guacBufferedParserAlloc socket).error=none) :
    (wireInstruction es).length ≤ instructionbufSize ∧
      (guacParserRead guacBufferedParserAlloc socket).parser.instruction=instructionOf es ∧
      (guacParserRead guacBufferedParserAlloc socket).parser.state=.complete ∧
      Delivers (guacParserRead guacBufferedParserAlloc socket).socket ∧
      ∃ tail, Buffered (guacParserRead guacBufferedParserAlloc socket).parser tail ∧
        rest=tail++socketBytes (guacParserRead guacBufferedParserAlloc socket).socket := by
  cases guacBufferedParserAlloc_boundary.loopOutcome socket with
  | complete bytes tail fs hreceived herror hhead hsplit hbound hinstruction hboundary =>
    rw [nil_append] at hhead hsplit hbound
    have hbytes := hreceived.socketBytes_eq
    rw [hstream,hsplit,append_assoc] at hbytes
    obtain ⟨rfl,hrest⟩ := wireInstruction_unique hes.delimited hhead.delimited hes.ne_nil
      hhead.ne_nil hbytes
    refine ⟨?_,hinstruction,?_,hreceived.delivers hd,tail,buffered_of_boundary hboundary,hrest⟩
    · rw [hsplit,length_append] at hbound
      omega
    · -- A parser that was reset would have no opcode.
      obtain ⟨-,-,-,-,-,-,hstate⟩ := hboundary
      refine hstate.resolve_right fun hreset => ?_
      have hopcode := congrArg Instruction.opcode hinstruction
      simp only [GuacBufferedParser.instruction,hreset] at hopcode
      obtain ⟨e,es,rfl⟩ := exists_cons_of_ne_nil hes.ne_nil
      cases hopcode
  | failed bytes hreceived herror =>
    rw [hread] at herror
    cases herror
  | full bytes hreceived herror =>
    rw [hread] at herror
    cases herror
  | refused bytes capacity socket' error hreceived hcapacity hrefused herror =>
    rw [hread] at herror
    cases herror

/-- An instruction that fits in the buffer is read. -/
theorem guacParserRead_fits {es : List Element} (hes : WithinLimits es) (hd : Delivers socket)
    {rest : List UInt8} (hstream : socketBytes socket=wireInstruction es++rest)
    (hfits : (wireInstruction es).length ≤ instructionbufSize) :
    (guacParserRead guacBufferedParserAlloc socket).error=none := by
  have hquiet := hes.quiet (rest.take (instructionbufSize-(wireInstruction es).length))
  rw [←window_append hfits,←hstream,←nil_append (socketBytes socket)] at hquiet
  obtain ⟨herror,-⟩ := guacParserRead_window guacBufferedParserAlloc_boundary hd hquiet
  rw [herror,nil_append,hstream,hes.readError hfits]

/-- However a stream that begins with a select instruction is split into reads, and however
little write accepts at a time, the connection is handed over if the instruction has one
argument and fits in the buffer of the parser, and then its process gets exactly what
follows the instruction. -/
theorem handOver_lossless {es : List Element} (hes : WithinLimits es)
    (hselect : (instructionOf es).opcode=some (ascii "select")) (rest : List UInt8)
    {chunks : List (List UInt8)} (hchunks : ∀ chunk∈chunks, chunk≠[])
    (hstream : chunks.flatten=wireInstruction es++rest) {writes : List (Option ℕ)}
    (hwrites : none ∉ writes) :
    guacdRouteConnection (reads chunks) writes=
      if es.length=2 ∧ (wireInstruction es).length ≤ instructionbufSize then some rest
      else none := by
  obtain ⟨hdelivers,hbytes⟩ := reads_delivers hchunks
  rw [hstream] at hbytes
  have hne := length_pos_of_ne_nil hes.ne_nil
  simp only [guacdRouteConnection,guacParserExpect]
  by_cases hread : (guacParserRead guacBufferedParserAlloc (reads chunks)).error=none
  · obtain ⟨hfits,hinstruction,hstate,hdelivers',tail,hbuffered,rfl⟩ :=
      guacParserRead_remains hes hdelivers hbytes hread
    have hargc : (guacParserRead guacBufferedParserAlloc (reads chunks)).parser.argc=
        es.length-1 := congrArg Instruction.argc hinstruction
    rw [if_neg (not_not.mpr hread),hinstruction,if_neg (not_not.mpr hselect),if_pos hstate,
      if_neg (not_not.mpr rfl)]
    simp only [hargc]
    by_cases hone : es.length=2
    · rw [if_neg (by omega),if_pos ⟨hone,hfits⟩,guacdConnectionWriteThread]
      obtain ⟨writes',hforward,hnone⟩ := hbuffered.forward hwrites
      simp only [hforward,forwardSocket_eq hdelivers' hnone]
    · rw [if_pos (by omega),if_neg fun h => hone h.1]
  · have hlong : ¬(es.length=2 ∧ (wireInstruction es).length ≤ instructionbufSize) :=
      fun h => hread (guacParserRead_fits hes hdelivers hbytes h.2)
    rw [if_neg hlong,if_pos hread,if_pos (show (-1 : ℤ)≠0 by decide)]

theorem digits_six : ∀ d∈ascii "6", IsDigit d := forall_mem_of_all (by decide)

theorem digits_three : ∀ d∈ascii "3", IsDigit d := forall_mem_of_all (by decide)

/-- The instruction of a connection that asks for VNC. -/
def selectVnc : List Element :=
  [⟨ascii "6", digits_six, ['s', 'e', 'l', 'e', 'c', 't'].map utf8Char⟩,
    ⟨ascii "3", digits_three, ['v', 'n', 'c'].map utf8Char⟩]

theorem selectVnc_within : WithinLimits selectVnc where
  ne_nil := by simp [selectVnc]
  length_lt := by decide
  wellFormed := forall_mem_cons.mpr
    ⟨⟨by decide,by decide⟩,forall_mem_singleton.mpr ⟨by decide,by decide⟩⟩
  utf8 := forall_mem_cons.mpr ⟨⟨_,rfl⟩,forall_mem_singleton.mpr ⟨_,rfl⟩⟩

/-- A connection of which more arrives together with the end of its instruction. -/
theorem handOver_lossless_vnc :
    guacdRouteConnection (reads [ascii "6.select,3", ascii ".vnc;4.size", ascii ",1.9;"])
      [some 2,some 0,some 5]=some (ascii "4.size,1.9;") := by
  have hwire : wireInstruction selectVnc=ascii "6.select,3.vnc;" := by decide
  have hlossless := handOver_lossless selectVnc_within (by decide) (ascii "4.size,1.9;")
    (by decide : ∀ chunk∈[ascii "6.select,3",ascii ".vnc;4.size",ascii ",1.9;"], chunk≠[])
    (by rw [hwire]; decide) (by decide : none ∉ [some 2,some 0,some 5])
  rwa [hwire,if_pos (by decide)] at hlossless

end GuacServer.GuacdTransfer
