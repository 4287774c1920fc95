import GuacServer.ParserProgress

/-!
# Sessions and how a stream is split into reads

A session reads instructions until a read fails. Every successful read uses up
bytes, so a session ends. Between two splits of one stream nothing differs,
provided the two checks of the parser that see where a read ended never fail
in only one of them: such streams are described by their bytes alone.
-/

namespace GuacServer.Parser

open DecimalNumerals List Unicode

/-- Bytes still to be parsed or delivered. -/
def ReadLocals.pending (locals : ReadLocals) (socket : List SocketEvent) : ℕ :=
  (socketBytes socket).length+(locals.unparsedEnd-locals.unparsedStart)

/-- Bytes still to be parsed or delivered, between reads. -/
def GuacBufferedParser.pending (parser : GuacBufferedParser) (socket : List SocketEvent) : ℕ :=
  (socketBytes socket).length+(parser.unparsedEnd-parser.unparsedStart)

/-- Room for more bytes leaves the parse state alone. -/
theorem ReadLocals.makeRoom_state {locals room : ReadLocals} (h : locals.makeRoom=some room) :
    room.parser.state=locals.parser.state := by
  unfold makeRoom at h
  split at h
  · split at h
    · cases h
      rfl
    · cases h
  · cases h
    rfl

/-- A loop that reads an instruction uses up bytes unless it stops at once. -/
theorem readLoop_pending (locals : ReadLocals) (socket : List SocketEvent)
    (h : (readLoop locals socket).error=none) :
    (readLoop locals socket).parser.pending (readLoop locals socket).socket+locals.active≤
      locals.pending socket := by
  induction locals, socket using readLoop.induct with
  | case1 locals socket hactive hstalled hroom =>
    rw [readLoop_full hactive hstalled hroom] at h
    cases h
  | case2 locals socket hactive hstalled room hroom error socket' hreceive =>
    rw [readLoop_refused hactive hstalled hroom hreceive] at h
    cases h
  | case3 locals socket hactive hstalled room hroom bytes socket' hreceive ih =>
    rw [readLoop_received hactive hstalled hroom hreceive] at h ⊢
    have hrest := ih h
    have hbytes := (guacSocketReceive_ok hreceive).2.2
    have hsize := ReadLocals.makeRoom_size hroom
    have hstate := ReadLocals.makeRoom_state hroom
    have hcall := guacParserAppend_of_parsed_zero hactive hstalled.1 hstalled.2
    have hsame : (room.store bytes).parser.state=locals.parser.state := by
      change room.parser.state=locals.parser.state
      rw [hstate]
      exact congrArg (fun r : AppendResult => r.parser.state) hcall
    have hactive' : (room.store bytes).parser.toGuacParser.Active := by
      unfold GuacParser.Active
      rw [hsame]
      exact hactive
    have hflag : (room.store bytes).active=1 := if_pos hactive'
    have hone : locals.active=1 := if_pos hactive
    rw [hflag] at hrest
    rw [hone]
    simp only [ReadLocals.pending,ReadLocals.store,ReadLocals.append,hbytes,
      length_append] at hrest hsize ⊢
    omega
  | case4 locals socket hactive hmoved ih =>
    rw [readLoop_advance hactive hmoved] at h ⊢
    have hrest := ih h
    have hle := ReadLocals.call_parsed_le hactive
    have hflag := locals.active_le
    have hparsed : locals.call.parsed≠0 := by
      intro hzero
      have herr : locals.advance.parser.state=.error := by
        by_contra hne
        exact hmoved ⟨hzero,hne⟩
      have hdone : ¬locals.advance.parser.toGuacParser.Active := fun h' => h'.2 herr
      rw [readLoop_stopped hdone,ReadLocals.finish,if_pos herr] at h
      cases h
    simp only [ReadLocals.pending,ReadLocals.advance,ReadLocals.append] at hrest ⊢
    omega
  | case5 locals socket hdone =>
    have hflag : locals.active=0 := if_neg hdone
    rw [readLoop_stopped hdone,ReadLocals.finish] at h ⊢
    split at h
    · cases h
    · next hne =>
      rw [if_neg hne,hflag]
      exact Nat.le_refl _

variable {parser : GuacBufferedParser} {socket : List SocketEvent} {unparsed : List UInt8}

/-- Every successful read uses up bytes. -/
theorem guacParserRead_pending (h : (guacParserRead parser socket).error=none) :
    (guacParserRead parser socket).parser.pending (guacParserRead parser socket).socket<
      parser.pending socket := by
  unfold guacParserRead at h ⊢
  have hpending := readLoop_pending parser.readLocals socket h
  have hsame : parser.readLocals.pending socket=parser.pending socket := rfl
  have hactive : parser.readLocals.parser.toGuacParser.Active := by
    by_contra hdone
    rw [readLoop_stopped hdone,ReadLocals.finish] at h
    split at h
    · cases h
    · next herr =>
      refine hdone ⟨?_,herr⟩
      unfold GuacBufferedParser.readLocals
      dsimp only
      split
      · exact fun hc => by cases hc
      · assumption
  have hone : parser.readLocals.active=1 := if_pos hactive
  omega

/-- Reading instructions until a read fails: the instructions, and the error. -/
def session (parser : GuacBufferedParser) (socket : List SocketEvent) :
    List Instruction×GuacError :=
  match _hread : guacParserRead parser socket with
  | ⟨none,parser',socket'⟩ =>
    (parser'.instruction::(session parser' socket').1,(session parser' socket').2)
  | ⟨some error,_,_⟩ => ([],error)
termination_by parser.pending socket
decreasing_by
  all_goals
    have hpending := guacParserRead_pending (congrArg ReadResult.error _hread)
    rwa [_hread] at hpending

/-- A failed read ends the session. -/
theorem session_of_error {error : GuacError} (h : (guacParserRead parser socket).error=some error) :
    session parser socket=([],error) := by
  rw [session]
  split
  · next heq =>
    rw [heq] at h
    cases h
  · next heq =>
    rw [heq] at h
    cases h
    rfl

/-- After a successful read the session goes on. -/
theorem session_of_read (h : (guacParserRead parser socket).error=none) :
    session parser socket=((guacParserRead parser socket).parser.instruction::
        (session (guacParserRead parser socket).parser (guacParserRead parser socket).socket).1,
        (session (guacParserRead parser socket).parser
          (guacParserRead parser socket).socket).2) := by
  rw [session]
  split
  · next heq => rw [heq]
  · next heq =>
    rw [heq] at h
    cases h

/-- Parsers that read the same have the same session. -/
theorem session_congr {parser' : GuacBufferedParser}
    (h : guacParserRead parser socket=guacParserRead parser' socket) :
    session parser socket=session parser' socket := by
  cases herror : (guacParserRead parser socket).error with
  | some error => rw [session_of_error herror,session_of_error (by rw [←h]; exact herror)]
  | none =>
    have herror' : (guacParserRead parser' socket).error=none := by rw [←h,herror]
    rw [session_of_read herror,session_of_read herror',h]

/-- A read between instructions begins the next one with a reset parser. -/
theorem GuacBufferedParser.Boundary.readLocals (h : parser.Boundary unparsed) :
    parser.readLocals.parser = { parser with toGuacParser := guacParserAlloc } := by
  obtain ⟨-,-,-,-,-,-,hstate⟩ := h
  unfold GuacBufferedParser.readLocals
  dsimp only
  rcases hstate with hc | hreset
  · rw [if_pos hc]
    rfl
  · rw [if_neg (by rw [hreset]; decide),←hreset]

/-- A read between instructions starts with nothing parsed. -/
theorem GuacBufferedParser.Boundary.progress (h : parser.Boundary unparsed) :
    ∃ front back, Progress parser.readLocals front [] unparsed back unparsed := by
  have hparser := h.readLocals
  obtain ⟨front,back,hbuffer,hstart,hend,hbound,-⟩ := h
  refine ⟨front,back,?_⟩
  constructor
  · rw [hparser]
    exact hbuffer
  · exact hstart
  · exact hstart
  · exact hend
  · exact hbound
  · rw [length_nil,Nat.zero_add]
  · rfl
  · intro _
    rw [hparser]
    rfl
  · rw [hparser,length_nil,Nat.add_zero,←feed_offsetBy,Nat.zero_add]
    exact sameOutcome_after_nil _

/-- A read between instructions has one of the loop's outcomes. -/
theorem GuacBufferedParser.Boundary.loopOutcome (h : parser.Boundary unparsed)
    (socket : List SocketEvent) : LoopOutcome unparsed socket (guacParserRead parser socket) := by
  obtain ⟨front,back,hprogress⟩ := h.progress
  exact hprogress.loopOutcome socket

/-- The socket delivers data until the end of the stream, always ready. -/
def Delivers (socket : List SocketEvent) : Prop :=
  ∀ event∈socket, ∃ bytes, bytes≠[] ∧ event=.data bytes

variable {socket' : List SocketEvent} {bytes : List UInt8}

/-- Received bytes are the first ones of the stream. -/
theorem Received.socketBytes_eq (h : Received socket bytes socket') :
    socketBytes socket=bytes++socketBytes socket' := by
  induction h with
  | none socket => rfl
  | piece hpiece _ ih => rw [(guacSocketReceive_ok hpiece).2.2,ih,append_assoc]

/-- A socket that delivers data does so after a piece, and refuses more only at
the end of the stream. -/
theorem Delivers.receive (h : Delivers socket) {capacity : ℕ} (hcapacity : 0<capacity) :
    (∃ bytes socket', guacSocketReceive capacity socket=(.ok bytes,socket') ∧ Delivers socket') ∨
      socket=[] ∧ guacSocketReceive capacity socket=
        (.error ⟨.closed, "End of stream reached while reading instruction"⟩, []) := by
  cases socket with
  | nil => exact Or.inr ⟨rfl,rfl⟩
  | cons event socket =>
    obtain ⟨hevent,hrest⟩ := forall_mem_cons.mp h
    obtain ⟨bytes,hne,rfl⟩ := hevent
    have htake : bytes.take capacity≠[] := by
      rw [Ne,take_eq_nil_iff]
      rintro (hzero | hnil)
      · omega
      · exact hne hnil
    left
    refine ⟨_,_,by rw [guacSocketReceive,if_neg htake],?_⟩
    split
    · exact hrest
    · next hlong =>
      refine forall_mem_cons.mpr ⟨⟨_,?_,rfl⟩,hrest⟩
      rw [Ne,drop_eq_nil_iff]
      exact hlong

/-- Data is delivered after any received pieces. -/
theorem Received.delivers (h : Received socket bytes socket') (hd : Delivers socket) :
    Delivers socket' := by
  induction h with
  | none socket => exact hd
  | piece hpiece _ ih =>
    obtain ⟨hne,hle,-⟩ := guacSocketReceive_ok hpiece
    have hpos := length_pos_of_ne_nil hne
    rcases hd.receive (Nat.lt_of_lt_of_le hpos hle) with ⟨bytes',socket'',heq,hrest⟩ | ⟨-,heq⟩
    · rw [hpiece] at heq
      cases heq
      exact ih hrest
    · rw [hpiece] at heq
      cases heq

/-- The bytes of an instruction that fit the buffer. -/
def window (stream : List UInt8) : List UInt8 := stream.take instructionbufSize

/-- Bytes that fit the buffer are the start of the window. -/
theorem window_append {received : List UInt8} (h : received.length ≤ instructionbufSize)
    (rest : List UInt8) :
    window (received++rest)=received++rest.take (instructionbufSize-received.length) := by
  rw [window,take_append,take_of_length_le h]

/-- The error, if any, that reading the first instruction of a stream ends in,
when it does not depend on the reads. -/
def readError (stream : List UInt8) : Option GuacError :=
  match (feed guacParserAlloc 0 (window stream)).parser.state with
  | .complete => none
  | .error => some ⟨.protocolError, "Instruction parse error"⟩
  | _ =>
    if stream.length < instructionbufSize then
      some ⟨.closed, "End of stream reached while reading instruction"⟩
    else some ⟨.noMemory, "Instruction too long"⟩

variable {stream : List UInt8}

/-- An active parser has failed to complete the window's instruction. -/
theorem readError_of_active (h : (feed guacParserAlloc 0 (window stream)).parser.Active) :
    readError stream=if stream.length < instructionbufSize then
      some ⟨.closed, "End of stream reached while reading instruction"⟩
    else some ⟨.noMemory, "Instruction too long"⟩ := by
  unfold readError
  split
  · next hc => exact absurd hc h.1
  · next herr => exact absurd herr h.2
  · rfl

/-- Reading the first instruction of a quiet stream gives the same however the
stream is split. -/
theorem guacParserRead_window (h : parser.Boundary unparsed) (hd : Delivers socket)
    (hquiet : Quiet 0 (window (unparsed++socketBytes socket))) :
    (guacParserRead parser socket).error=readError (unparsed++socketBytes socket) ∧
      ((guacParserRead parser socket).error=none→∃ es tail,
        HeadInstruction (unparsed++socketBytes socket) es ∧
        (wireInstruction es).length ≤ instructionbufSize ∧
        unparsed++socketBytes socket=
          wireInstruction es++(tail++socketBytes (guacParserRead parser socket).socket) ∧
        (guacParserRead parser socket).parser.instruction=instructionOf es ∧
        (guacParserRead parser socket).parser.Boundary tail ∧
        Delivers (guacParserRead parser socket).socket) := by
  cases h.loopOutcome socket with
  | complete bytes tail es hreceived herror hhead hsplit hbound hinstruction hboundary =>
    rw [hreceived.socketBytes_eq,←append_assoc]
    have hsplit' : unparsed++bytes++socketBytes (guacParserRead parser socket).socket=
        wireInstruction es++(tail++socketBytes (guacParserRead parser socket).socket) := by
      rw [hsplit,append_assoc]
    have hread : readError (unparsed++bytes++
        socketBytes (guacParserRead parser socket).socket)=none := by
      have hwindow : HeadInstruction (window (unparsed++bytes++
          socketBytes (guacParserRead parser socket).socket)) es := by
        rw [window_append hbound,hsplit]
        exact ⟨hhead.ne_nil,hhead.length_le,hhead.delimited,_,append_assoc ..⟩
      have hcomplete := (feed_complete_iff guacParserAlloc 0 _).mpr ⟨es,hwindow⟩
      rw [readError,show guacParserAlloc=guacParserReset guacParserAlloc from rfl,hcomplete]
    refine ⟨by rw [herror,hread],fun _ => ⟨es,tail,?_,?_,hsplit',hinstruction,hboundary,
      hreceived.delivers hd⟩⟩
    · exact ⟨hhead.ne_nil,hhead.length_le,hhead.delimited,_,hsplit'⟩
    · rw [hsplit,length_append] at hbound
      omega
  | failed bytes hreceived herror hbound hfeed =>
    rw [hreceived.socketBytes_eq,←append_assoc] at hquiet ⊢
    rw [window_append hbound] at hquiet
    have hwindow := feed_error_append guacParserAlloc_start (Nat.zero_le _) 0 _ _ hquiet hfeed
    refine ⟨?_,fun hnone => ?_⟩
    · rw [herror,readError,window_append hbound,hwindow]
    · rw [herror] at hnone
      cases hnone
  | full bytes hreceived herror hbound hfeed =>
    rw [hreceived.socketBytes_eq,←append_assoc]
    have hwindow : window (unparsed++bytes++
        socketBytes (guacParserRead parser socket).socket)=unparsed++bytes := by
      rw [window_append hbound.le,hbound,Nat.sub_self,take_zero,append_nil]
    refine ⟨?_,fun hnone => ?_⟩
    · rw [herror,readError_of_active (by rw [hwindow]; exact hfeed),if_neg]
      rw [length_append,hbound]
      omega
    · rw [herror] at hnone
      cases hnone
  | refused bytes capacity socket' error hreceived hcapacity hrefused herror hbound hfeed =>
    rcases (hreceived.delivers hd).receive hcapacity with ⟨more,socket'',hok,-⟩ | ⟨hnil,hclosed⟩
    · rw [hrefused] at hok
      cases hok
    · rw [hrefused] at hclosed
      obtain ⟨herr,-⟩ := Prod.mk.inj hclosed
      cases herr
      have hstream : unparsed++socketBytes socket=unparsed++bytes := by
        rw [hreceived.socketBytes_eq,hnil,socketBytes,append_nil]
      have hwindow : window (unparsed++bytes)=unparsed++bytes := take_of_length_le hbound.le
      rw [hstream]
      refine ⟨?_,fun hnone => ?_⟩
      · rw [herror,readError_of_active (by rw [hwindow]; exact hfeed),if_pos hbound]
      · rw [herror] at hnone
        cases hnone

/-- Every instruction of the stream, as far as it fits the buffer, is quiet. -/
def ChunkSafe (stream : List UInt8) : Prop :=
  ∀ (instructions : List (List Element)) (rest : List UInt8),
    (∀ es∈instructions, HeadInstruction (wireInstruction es) es ∧
      (wireInstruction es).length ≤ instructionbufSize) →
    stream=instructions.flatMap wireInstruction++rest→Quiet 0 (window rest)

/-- The condition passes on to the bytes after an instruction. -/
theorem ChunkSafe.next {es : List Element} {rest : List UInt8}
    (h : ChunkSafe (wireInstruction es++rest)) (hes : HeadInstruction (wireInstruction es) es)
    (hlen : (wireInstruction es).length ≤ instructionbufSize) : ChunkSafe rest := by
  intro instructions tail hall hsplit
  refine h (es::instructions) tail (forall_mem_cons.mpr ⟨⟨hes,hlen⟩,hall⟩) ?_
  rw [flatMap_cons,hsplit,append_assoc]

/-- Between instructions, sessions on the same bytes are the same however the
bytes are split. -/
theorem session_split (hsafe : ChunkSafe stream)
    {parser' : GuacBufferedParser} {unparsed' : List UInt8} (h : parser.Boundary unparsed)
    (h' : parser'.Boundary unparsed') (hd : Delivers socket)
    (hd' : Delivers socket') (hstream : unparsed++socketBytes socket=stream)
    (hstream' : unparsed' ++ socketBytes socket' = stream) :
    session parser socket=session parser' socket' := by
  induction hn : stream.length using Nat.strong_induction_on generalizing
    stream parser parser' unparsed unparsed' socket socket' with
  | _ n ih =>
    have hquiet : Quiet 0 (window stream) := hsafe [] stream (by simp) rfl
    obtain ⟨herror,hread⟩ := guacParserRead_window h hd (by rw [hstream]; exact hquiet)
    obtain ⟨herror',hread'⟩ := guacParserRead_window h' hd' (by rw [hstream']; exact hquiet)
    rw [hstream] at herror hread
    rw [hstream'] at herror' hread'
    cases hcase : readError stream with
    | some error =>
      rw [hcase] at herror herror'
      rw [session_of_error herror,session_of_error herror']
    | none =>
      rw [hcase] at herror herror'
      obtain ⟨es,tail,hhead,hlen,hsplit,hinstruction,hboundary,hdelivers⟩ := hread herror
      obtain ⟨es',tail',hhead',-,hsplit',hinstruction',hboundary',hdelivers'⟩ := hread' herror'
      obtain ⟨rfl,hrest⟩ := wireInstruction_unique hhead.delimited hhead'.delimited hhead.ne_nil
        hhead'.ne_nil (hsplit.symm.trans hsplit')
      have hself : HeadInstruction (wireInstruction es) es :=
        ⟨hhead.ne_nil,hhead.length_le,hhead.delimited,[],(append_nil _).symm⟩
      have hpos := length_pos_of_ne_nil hhead.ne_nil
      have hbytes := two_mul_length_le_wireInstruction es
      rw [hsplit] at hsafe hn
      rw [length_append] at hn
      rw [session_of_read herror,session_of_read herror',hinstruction,hinstruction',
        ih _ (by omega) (hsafe.next hself hlen) hboundary hboundary' hdelivers hdelivers' rfl
          hrest.symm rfl]

/-- An allocated parser is between instructions, with nothing buffered. -/
theorem guacBufferedParserAlloc_boundary : guacBufferedParserAlloc.Boundary [] :=
  ⟨[],[],rfl,rfl,rfl,Nat.zero_le _,Or.inr rfl⟩

/-- The socket that delivers the given reads. -/
def reads (chunks : List (List UInt8)) : List SocketEvent := chunks.map .data

/-- Such a socket delivers the concatenation of its reads. -/
theorem reads_delivers {chunks : List (List UInt8)} (h : ∀ chunk∈chunks, chunk≠[]) :
    Delivers (reads chunks) ∧ socketBytes (reads chunks)=chunks.flatten := by
  constructor
  · intro event hevent
    obtain ⟨chunk,hchunk,rfl⟩ := mem_map.mp hevent
    exact ⟨chunk,h chunk hchunk,rfl⟩
  · induction chunks with
    | nil => rfl
    | cons chunk chunks ih =>
      have hrest := ih fun c hc => h c (mem_cons_of_mem _ hc)
      unfold reads at hrest ⊢
      rw [map_cons,socketBytes,hrest,flatten_cons]

/-- Lengths of at most nine digits never wrap around, and fewer than 256 bytes
hold no 128 elements. -/
theorem chunkSafe_of_length (h : stream.length≤9) : ChunkSafe stream := by
  intro instructions rest _ hsplit
  have hrest : (window rest).length≤9 := by
    have hlen := congrArg List.length hsplit
    rw [length_append] at hlen
    rw [window,length_take]
    omega
  constructor
  · intro es tail _ _ hwindow ds more hds htail _ hle ps hps
    have hlen : ds.length≤9 := by
      have hlen := congrArg List.length hwindow
      rw [htail,length_append,length_append] at hlen
      omega
    have hexact : ∀ qs, qs <+: ds → wrap32 (numeral qs)=numeral qs := by
      intro qs hqs
      have hdigits : ∀ d∈qs, IsDigit d := fun d hd => hds d (hqs.subset hd)
      have hlt := numeral_lt hdigits
      have hpow : 10^qs.length≤10^9 :=
        Nat.pow_le_pow_right (by decide) (Nat.le_trans hqs.length_le hlen)
      rw [wrap32_of_range] <;> omega
    rw [hexact ds (prefix_refl ds)] at hle
    rw [hexact ps hps]
    obtain ⟨qs,rfl⟩ := hps
    have hmono : numeral ps≤numeral (ps++qs) := by
      rw [numeral,numeral,numeralFrom_append]
      exact le_numeralFrom _ _
    omega
  · intro es tail _ _ hwindow hcount
    have hlen := congrArg List.length hwindow
    have hbytes := two_mul_length_le_wireInstruction es
    rw [length_append] at hlen
    unfold guacInstructionMaxElements at hcount
    omega

/-- The instructions read from a stream, and the error that ends the session,
do not depend on how the stream is split into reads, if the stream is safe. -/
theorem guacParserRead_chunks (hsafe : ChunkSafe stream)
    (chunks chunks' : List (List UInt8)) (hne : ∀ chunk∈chunks, chunk≠[])
    (hne' : ∀ chunk∈chunks', chunk≠[]) (hstream : chunks.flatten=stream)
    (hstream' : chunks'.flatten=stream) :
    session guacBufferedParserAlloc (reads chunks)=
      session guacBufferedParserAlloc (reads chunks') := by
  obtain ⟨hd,hbytes⟩ := reads_delivers hne
  obtain ⟨hd',hbytes'⟩ := reads_delivers hne'
  have hboundary := guacBufferedParserAlloc_boundary
  exact session_split hsafe hboundary hboundary hd hd' (by rw [hbytes,hstream]; rfl)
    (by rw [hbytes',hstream']; rfl)

/-- Two instructions read at once and in three reads. -/
theorem guacParserRead_chunks_nine : session guacBufferedParserAlloc (reads [ascii "1.a;2.bc;"])=
      session guacBufferedParserAlloc (reads [ascii "1", ascii ".a;2.b", ascii "c;"]) := by
  have hsafe : ChunkSafe (ascii "1.a;2.bc;") := chunkSafe_of_length (by decide)
  exact guacParserRead_chunks hsafe _ _ (by decide) (by decide) (by decide) (by decide)

/-- A first piece that ends an instruction, or that is none, decides the first
read. -/
theorem guacParserRead_data (hne : bytes≠[])
    (hlen : bytes.length ≤ instructionbufSize)
    (hdone : ¬(feed guacParserAlloc 0 bytes).parser.Active) (socket : List SocketEvent) :
    (guacParserRead guacBufferedParserAlloc (.data bytes::socket)).error=none ↔
      (feed guacParserAlloc 0 bytes).parser.state≠.error := by
  obtain ⟨front,back,h⟩ := guacBufferedParserAlloc_boundary.progress
  have hactive : guacBufferedParserAlloc.readLocals.parser.toGuacParser.Active :=
    guacParserAlloc_start.active
  have hstalled : guacBufferedParserAlloc.readLocals.Stalled := by decide
  have hroom : guacBufferedParserAlloc.readLocals.append.makeRoom=
      some guacBufferedParserAlloc.readLocals := by
    rw [(h.stalled hactive hstalled).1]
    rfl
  have hreceive : guacSocketReceive (instructionbufSize-0) (.data bytes::socket)=
      (.ok bytes,socket) := by
    rw [guacSocketReceive,Nat.sub_zero,take_of_length_le hlen,if_neg hne,if_pos hlen]
  rw [guacParserRead,readLoop_received hactive hstalled hroom hreceive]
  exact (h.store hactive hstalled hlen).readLoop_done hdone socket

/-- An instruction that fills the table is read if it comes in one piece, and
is an error if its last semicolon comes in another. -/
theorem session_fullTable {es : List Element} (hes : ∀ f∈es, f.Delimited) {e : Element}
    (he : e.Delimited) (hcount : es.length+1=guacInstructionMaxElements)
    (hlen : (wireElements es++e.wire).length < instructionbufSize) :
    session guacBufferedParserAlloc (reads [wireElements es++e.wire++ascii ";"])≠
      session guacBufferedParserAlloc (reads [wireElements es++e.wire,ascii ";"]) := by
  have hwhole : (feed guacParserAlloc 0 (wireElements es++e.wire++ascii ";")).parser.state=
      .complete := by
    have hall : ∀ f∈es++[e], f.Delimited :=
      forall_mem_append.mpr ⟨hes,forall_mem_singleton.mpr he⟩
    have hfeed := feed_instruction guacParserAlloc_start (concat_ne_nil e es)
      (by rw [length_append]; exact (Nat.zero_add _).trans_le hcount.le) hall 0 []
    rw [append_nil,wireInstruction_concat,←append_assoc] at hfeed
    exact congrArg (fun r => r.parser.state) hfeed
  have hpiece : (feed guacParserAlloc 0 (wireElements es++e.wire)).parser.state=.error :=
    feed_fullTable guacParserAlloc_start hes he
      ((congrArg (· + 1) (Nat.zero_add es.length)).trans hcount) 0
  have hne : wireElements es++e.wire≠[] := by
    simp [Element.wire]
  have hread := (guacParserRead_data (append_ne_nil_of_left_ne_nil hne _)
    (by rw [length_append]; exact hlen) (fun h => h.1 hwhole) []).mpr (by rw [hwhole]; decide)
  have hfail := (guacParserRead_data hne hlen.le (fun h => h.2 hpiece) [.data (ascii ";")]).not.mpr
    (not_not.mpr hpiece)
  obtain ⟨error,herror⟩ := Option.ne_none_iff_exists'.mp hfail
  intro heq
  have hinstructions := congrArg Prod.fst heq
  rw [reads,reads,map_singleton,session_of_read hread] at hinstructions
  rw [map_cons,map_singleton,session_of_error herror] at hinstructions
  cases hinstructions

/-- All of an instruction with as many elements as the parser holds, but for
its last semicolon. -/
def fullTable : List UInt8 := (List.replicate 127 (ascii "0.,")).flatten++ascii "0."

/-- An element without content. -/
def emptyElement : Element := ⟨[48],forall_mem_singleton.mpr (by decide),[]⟩

/-- The instruction is read from one piece, and an error if its semicolon
comes in another. -/
theorem guacParserRead_fullTable : session guacBufferedParserAlloc (reads [fullTable++ascii ";"])≠
      session guacBufferedParserAlloc (reads [fullTable,ascii ";"]) := by
  have hempty : emptyElement.Delimited := ⟨by decide,by decide⟩
  have htable : fullTable=wireElements (List.replicate 127 emptyElement)++emptyElement.wire := by
    rw [wireElements,flatMap_def,map_replicate]
    rfl
  rw [htable]
  refine session_fullTable (fun f hf => ?_) hempty (by rw [length_replicate]; rfl) ?_
  · rw [eq_of_mem_replicate hf]
    exact hempty
  · rw [←htable,fullTable,length_append,length_flatten,map_replicate,
      sum_replicate_nat]
    decide

end GuacServer.Parser
