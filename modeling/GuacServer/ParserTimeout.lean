import GuacServer.ParserSession

/-!
# Reading on after a timeout

guac_parser_read leaves the parser half way through an instruction when the
socket times out, but forgets how far the buffer was read. A caller that reads
again gets what it would have got without the timeout as long as each timeout
falls between instructions: no byte of the next one has been received, or all
of them have, so that the call returns before it waits.
-/

namespace GuacServer.Parser

open DecimalNumerals List Unicode

/-- The same deliveries without any timeout. -/
def withoutTimeouts (socket : List SocketEvent) : List SocketEvent := socket.filter (· ≠ .timeout)

/-- The error is the timeout of the selection. -/
def ReadResult.TimedOut (result : ReadResult) : Prop :=
  result.error.map GuacError.status=some .timeout

instance (result : ReadResult) : Decidable result.TimedOut :=
  inferInstanceAs (Decidable (result.error.map GuacError.status=some .timeout))

/-- A reception never lengthens what the socket has in store, and a timeout
shortens it. -/
theorem guacSocketReceive_length (capacity : ℕ) (socket : List SocketEvent) :
    (guacSocketReceive capacity socket).2.length ≤ socket.length ∧
      (socketBytes (guacSocketReceive capacity socket).2).length≤(socketBytes socket).length ∧
      ∀ error, (guacSocketReceive capacity socket).1=.error error → error.status=.timeout →
        socket=.timeout::(guacSocketReceive capacity socket).2 := by
  cases socket with
  | nil =>
    refine ⟨Nat.le_refl _,Nat.le_refl _,?_⟩
    intro error herror hstatus
    cases herror
    cases hstatus
  | cons event socket =>
    cases event with
    | timeout => exact ⟨Nat.le_succ _,Nat.le_refl _,fun _ _ _ => rfl⟩
    | selectError =>
      refine ⟨Nat.le_succ _,Nat.le_refl _,?_⟩
      intro error herror hstatus
      cases herror
      cases hstatus
    | readError =>
      refine ⟨Nat.le_succ _,Nat.le_refl _,?_⟩
      intro error herror hstatus
      cases herror
      cases hstatus
    | data bytes =>
      rw [guacSocketReceive]
      split
      · refine ⟨Nat.le_succ _,by simp [socketBytes],?_⟩
        intro error herror hstatus
        cases herror
        cases hstatus
      · refine ⟨?_,?_,by intro error herror; cases herror⟩
        · dsimp only
          split <;> simp
        · dsimp only
          split <;> simp [socketBytes]

/-- Room for more bytes leaves the parser's own pointers alone. -/
theorem ReadLocals.makeRoom_pointers {locals room : ReadLocals} (h : locals.makeRoom=some room) :
    room.parser.unparsedStart=locals.parser.unparsedStart ∧
      room.parser.unparsedEnd=locals.parser.unparsedEnd := by
  unfold makeRoom at h
  split at h
  · split at h
    · cases h
      exact ⟨rfl,rfl⟩
    · cases h
  · cases h
    exact ⟨rfl,rfl⟩

/-- A loop that fails leaves the parser's own pointers alone. -/
theorem readLoop_pointers (locals : ReadLocals) (socket : List SocketEvent)
    (h : (readLoop locals socket).error≠none) :
    (readLoop locals socket).parser.unparsedStart=locals.parser.unparsedStart ∧
      (readLoop locals socket).parser.unparsedEnd=locals.parser.unparsedEnd := by
  induction locals, socket using readLoop.induct with
  | case1 locals socket hactive hstalled hroom =>
    rw [readLoop_full hactive hstalled hroom]
    exact ⟨rfl,rfl⟩
  | case2 locals socket hactive hstalled room hroom error socket' hreceive =>
    rw [readLoop_refused hactive hstalled hroom hreceive]
    have hpointers := ReadLocals.makeRoom_pointers hroom
    exact hpointers
  | case3 locals socket hactive hstalled room hroom bytes socket' hreceive ih =>
    rw [readLoop_received hactive hstalled hroom hreceive] at h ⊢
    obtain ⟨hstart,hend⟩ := ReadLocals.makeRoom_pointers hroom
    obtain ⟨hstart',hend'⟩ := ih h
    exact ⟨hstart'.trans hstart,hend'.trans hend⟩
  | case4 locals socket hactive hmoved ih =>
    rw [readLoop_advance hactive hmoved] at h ⊢
    exact ih h
  | case5 locals socket hdone =>
    rw [readLoop_stopped hdone,ReadLocals.finish] at h ⊢
    split at h
    · next herr =>
      rw [if_pos herr]
      exact ⟨rfl,rfl⟩
    · exact absurd rfl h

/-- A loop never lengthens what the socket has in store, and shortens it if it
times out. -/
theorem readLoop_length (locals : ReadLocals) (socket : List SocketEvent) :
    (readLoop locals socket).socket.length ≤ socket.length ∧
      (socketBytes (readLoop locals socket).socket).length≤(socketBytes socket).length ∧
      ((readLoop locals socket).TimedOut →
        (readLoop locals socket).socket.length<socket.length) := by
  induction locals, socket using readLoop.induct with
  | case1 locals socket hactive hstalled hroom =>
    rw [readLoop_full hactive hstalled hroom]
    exact ⟨Nat.le_refl _,Nat.le_refl _,fun h => by cases h⟩
  | case2 locals socket hactive hstalled room hroom error socket' hreceive =>
    rw [readLoop_refused hactive hstalled hroom hreceive]
    obtain ⟨hlen,hbytes,htimeout⟩ :=
      guacSocketReceive_length (instructionbufSize-room.unparsedEnd) socket
    rw [hreceive] at hlen hbytes htimeout
    refine ⟨hlen,hbytes,fun h => ?_⟩
    rw [htimeout error rfl (Option.some.inj h)]
    exact Nat.lt_succ_self _
  | case3 locals socket hactive hstalled room hroom bytes socket' hreceive ih =>
    rw [readLoop_received hactive hstalled hroom hreceive]
    obtain ⟨hlen,hbytes,-⟩ := guacSocketReceive_length (instructionbufSize-room.unparsedEnd) socket
    rw [hreceive] at hlen hbytes
    exact ⟨Nat.le_trans ih.1 hlen,Nat.le_trans ih.2.1 hbytes,
      fun h => Nat.lt_of_lt_of_le (ih.2.2 h) hlen⟩
  | case4 locals socket hactive hmoved ih =>
    rw [readLoop_advance hactive hmoved]
    exact ih
  | case5 locals socket hdone =>
    rw [readLoop_stopped hdone,ReadLocals.finish]
    split
    · exact ⟨Nat.le_refl _,Nat.le_refl _,fun h => by cases h⟩
    · exact ⟨Nat.le_refl _,Nat.le_refl _,fun h => by cases h⟩

/-- What a session with retries can still use up: bytes and events. -/
def GuacBufferedParser.remaining (parser : GuacBufferedParser) (socket : List SocketEvent) : ℕ :=
  parser.pending socket+socket.length

variable {parser : GuacBufferedParser} {socket : List SocketEvent}

/-- The read of an instruction and the read that times out both use something
up. -/
theorem guacParserRead_remaining
    (h : (guacParserRead parser socket).error=none ∨ (guacParserRead parser socket).TimedOut) :
    (guacParserRead parser socket).parser.remaining (guacParserRead parser socket).socket<
      parser.remaining socket := by
  have hlen : (guacParserRead parser socket).socket.length ≤ socket.length :=
    (readLoop_length parser.readLocals socket).1
  unfold GuacBufferedParser.remaining
  rcases h with hnone | htimeout
  · have hpending := guacParserRead_pending hnone
    omega
  · have hne : (guacParserRead parser socket).error≠none := by
      intro hnone
      rw [ReadResult.TimedOut,hnone] at htimeout
      cases htimeout
    obtain ⟨hstart,hend⟩ := readLoop_pointers parser.readLocals socket hne
    obtain ⟨-,hbytes,hshorter⟩ := readLoop_length parser.readLocals socket
    have hsame : parser.readLocals.parser.unparsedStart=parser.unparsedStart ∧
        parser.readLocals.parser.unparsedEnd=parser.unparsedEnd := by
      unfold GuacBufferedParser.readLocals
      dsimp only
      split <;> exact ⟨rfl,rfl⟩
    have hless : (guacParserRead parser socket).socket.length<socket.length := hshorter htimeout
    unfold guacParserRead at *
    unfold GuacBufferedParser.pending
    rw [hstart,hend,hsame.1,hsame.2]
    omega

/-- A session whose caller reads again after every timeout. -/
def sessionRetry (parser : GuacBufferedParser) (socket : List SocketEvent) :
    List Instruction×GuacError :=
  match _hread : guacParserRead parser socket with
  | ⟨none,parser',socket'⟩ =>
    (parser'.instruction::(sessionRetry parser' socket').1,(sessionRetry parser' socket').2)
  | ⟨some error,parser',socket'⟩ =>
    if _htimeout : error.status=.timeout then sessionRetry parser' socket' else ([],error)
termination_by parser.remaining socket
decreasing_by
  · have hremaining := guacParserRead_remaining (Or.inl (congrArg ReadResult.error _hread))
    rwa [_hread] at hremaining
  · have htimedOut : (guacParserRead parser socket).TimedOut := by
      rw [_hread]
      exact congrArg some _htimeout
    have hremaining := guacParserRead_remaining (Or.inr htimedOut)
    rwa [_hread] at hremaining

/-- The calls of guac_parser_read that such a session makes, with what the
socket has in store at each. -/
def retryCalls (parser : GuacBufferedParser) (socket : List SocketEvent) :
    List (GuacBufferedParser×List SocketEvent) :=
  if _hmore : (guacParserRead parser socket).error=none ∨
      (guacParserRead parser socket).TimedOut then
    (parser,socket)::retryCalls (guacParserRead parser socket).parser
      (guacParserRead parser socket).socket
  else [(parser,socket)]
termination_by parser.remaining socket
decreasing_by exact guacParserRead_remaining _hmore

/-- Bytes that are delivered before a timeout, when nothing but data comes
before it. -/
def bytesBeforeTimeout : List SocketEvent→Option (List UInt8)
  | .timeout::_ => some []
  | .data bytes::socket =>
    if bytes=[] then none else (bytesBeforeTimeout socket).map (bytes ++ ·)
  | _ => none

/-- Bytes in the internal buffer that are not parsed yet. -/
def GuacBufferedParser.unparsed (parser : GuacBufferedParser) : List UInt8 :=
  (parser.instructionbuf.drop parser.unparsedStart).take (parser.unparsedEnd-parser.unparsedStart)

/-- No timeout interrupts the call within an instruction: if one is to come,
no byte of an instruction comes before it, or enough bytes to finish one. -/
def TimeoutSafe (parser : GuacBufferedParser) (socket : List SocketEvent) : Prop :=
  ∀ bytes∈bytesBeforeTimeout socket, parser.unparsed++bytes=[] ∨
    ¬(feed guacParserAlloc 0 (parser.unparsed++bytes)).parser.Active

instance (parser : GuacBufferedParser) (socket : List SocketEvent) :
    Decidable (TimeoutSafe parser socket) :=
  inferInstanceAs (Decidable (∀ bytes∈bytesBeforeTimeout socket, parser.unparsed++bytes=[] ∨
    ¬(feed guacParserAlloc 0 (parser.unparsed++bytes)).parser.Active))

/-- A failure other than a timeout ends the session. -/
theorem sessionRetry_of_error {error : GuacError}
    (h : (guacParserRead parser socket).error=some error) (hstatus : error.status≠.timeout) :
    sessionRetry parser socket=([],error) := by
  rw [sessionRetry]
  split
  · next heq =>
    rw [heq] at h
    cases h
  · next heq =>
    rw [heq] at h
    cases h
    rw [dif_neg hstatus]

/-- After a timeout the caller reads again. -/
theorem sessionRetry_of_timeout (h : (guacParserRead parser socket).TimedOut) :
    sessionRetry parser socket=
      sessionRetry (guacParserRead parser socket).parser (guacParserRead parser socket).socket := by
  rw [sessionRetry]
  split
  · next heq =>
    rw [heq] at h
    cases h
  · next error parser' socket' heq =>
    rw [heq] at h ⊢
    rw [dif_pos (Option.some.inj h)]

/-- After a successful read the session goes on. -/
theorem sessionRetry_of_read (h : (guacParserRead parser socket).error=none) :
    sessionRetry parser socket=((guacParserRead parser socket).parser.instruction::
        (sessionRetry (guacParserRead parser socket).parser
          (guacParserRead parser socket).socket).1,
        (sessionRetry (guacParserRead parser socket).parser
          (guacParserRead parser socket).socket).2) := by
  rw [sessionRetry]
  split
  · next heq => rw [heq]
  · next heq =>
    rw [heq] at h
    cases h

variable {socket' : List SocketEvent}

/-- A reception without a timeout is the same once all timeouts are gone. -/
theorem guacSocketReceive_withoutTimeouts {capacity : ℕ} {received : Except GuacError (List UInt8)}
    (h : guacSocketReceive capacity socket=(received,socket'))
    (hnot : ∀ error, received=.error error → error.status≠.timeout) :
    guacSocketReceive capacity (withoutTimeouts socket)=(received,withoutTimeouts socket') := by
  cases socket with
  | nil =>
    cases h
    rfl
  | cons event socket =>
    cases event with
    | timeout =>
      cases h
      exact absurd rfl (hnot _ rfl)
    | selectError =>
      cases h
      rfl
    | readError =>
      cases h
      rfl
    | data bytes =>
      have hfilter : withoutTimeouts (.data bytes::socket)=
          .data bytes::withoutTimeouts socket := rfl
      rw [hfilter]
      rw [guacSocketReceive] at h ⊢
      split at h
      · next hnil =>
        cases h
        rw [if_pos hnil]
      · next hne =>
        cases h
        rw [if_neg hne]
        split <;> rfl

/-- A loop that does not time out is the same once all timeouts are gone. -/
theorem readLoop_withoutTimeouts (locals : ReadLocals) (socket : List SocketEvent)
    (h : ¬(readLoop locals socket).TimedOut) :
    readLoop locals (withoutTimeouts socket)=
      ⟨(readLoop locals socket).error,(readLoop locals socket).parser,
        withoutTimeouts (readLoop locals socket).socket⟩ := by
  induction locals, socket using readLoop.induct with
  | case1 locals socket hactive hstalled hroom =>
    rw [readLoop_full hactive hstalled hroom,readLoop_full hactive hstalled hroom]
  | case2 locals socket hactive hstalled room hroom error socket' hreceive =>
    rw [readLoop_refused hactive hstalled hroom hreceive] at h ⊢
    have hnot : ∀ e, (Except.error error : Except GuacError (List UInt8))=.error e →
        e.status≠.timeout := by
      intro e he hstatus
      cases he
      exact h (congrArg some hstatus)
    rw [readLoop_refused hactive hstalled hroom (guacSocketReceive_withoutTimeouts hreceive hnot)]
  | case3 locals socket hactive hstalled room hroom bytes socket' hreceive ih =>
    rw [readLoop_received hactive hstalled hroom hreceive] at h ⊢
    have hreceive' := guacSocketReceive_withoutTimeouts hreceive (fun _ he => by cases he)
    rw [readLoop_received hactive hstalled hroom hreceive']
    exact ih h
  | case4 locals socket hactive hmoved ih =>
    rw [readLoop_advance hactive hmoved] at h ⊢
    rw [readLoop_advance hactive hmoved]
    exact ih h
  | case5 locals socket hdone =>
    rw [readLoop_stopped hdone,readLoop_stopped hdone]
    unfold ReadLocals.finish
    split <;> rfl

/-- Pieces received before a timeout are the bytes before it. -/
theorem Received.beforeTimeout {bytes : List UInt8}
    (h : Received socket bytes (.timeout::socket')) : bytesBeforeTimeout socket=some bytes := by
  generalize hend : SocketEvent.timeout::socket' = rest at h
  induction h with
  | none socket =>
    rw [←hend]
    rfl
  | piece hpiece _ ih =>
    have hrest := ih hend
    unfold guacSocketReceive at hpiece
    split at hpiece
    · cases hpiece
    · cases hpiece
    · cases hpiece
    · cases hpiece
    · next data socket =>
      split at hpiece
      · cases hpiece
      · next hne =>
        cases hpiece
        have hdata : data≠[] := by
          rintro rfl
          exact hne take_nil
        rw [bytesBeforeTimeout,if_neg hdata]
        split at hrest
        · next hle =>
          rw [hrest,take_of_length_le hle]
          rfl
        · next hlong =>
          have hdrop := mt drop_eq_nil_iff.mp hlong
          rw [bytesBeforeTimeout,if_neg hdrop] at hrest
          obtain ⟨m,hm,rfl⟩ := Option.map_eq_some_iff.mp hrest
          rw [hm,←append_assoc,take_append_drop]
          rfl

/-- Without received bytes the socket is as it was. -/
theorem Received.eq_of_nil (h : Received socket [] socket') :
    socket=socket' := by
  generalize hnil : ([] : List UInt8)=bytes at h
  cases h with
  | none => rfl
  | piece hpiece _ =>
    exact absurd (append_eq_nil_iff.mp hnil.symm).1 (guacSocketReceive_ok hpiece).1

/-- Making room moves nothing when nothing is unparsed and no element begun. -/
theorem ReadLocals.makeRoom_parser {locals room : ReadLocals} (h : locals.makeRoom=some room)
    (hempty : locals.unparsedEnd=locals.instrStart) (helements : locals.parser.elementv=[]) :
    room.parser=locals.parser := by
  unfold makeRoom at h
  split at h
  · split at h
    · cases h
      unfold shift
      dsimp only
      rw [hempty,Nat.sub_self,take_zero,drop_zero,nil_append,helements,
        map_nil,←helements]
    · cases h
  · cases h
    rfl

/-- A call between instructions that times out has received nothing. -/
theorem guacParserRead_timedOut {unparsed : List UInt8} (h : parser.Boundary unparsed)
    (hsafe : TimeoutSafe parser socket) (htimeout : (guacParserRead parser socket).TimedOut) :
    unparsed=[] ∧ socket=.timeout::(guacParserRead parser socket).socket := by
  have hunparsed : parser.unparsed=unparsed := by
    obtain ⟨front,back,hbuffer,hstart,hend,-⟩ := h
    rw [GuacBufferedParser.unparsed,hbuffer,hstart,hend,drop_left,
      Nat.add_sub_cancel_left,take_left]
  unfold ReadResult.TimedOut at htimeout
  cases h.loopOutcome socket with
  | complete bytes tail es hreceived herror _ _ _ _ _ =>
    rw [herror] at htimeout
    cases htimeout
  | failed bytes hreceived herror _ _ =>
    rw [herror] at htimeout
    cases htimeout
  | full bytes hreceived herror _ _ =>
    rw [herror] at htimeout
    cases htimeout
  | refused bytes capacity socket' error hreceived _ hrefused herror _ hfeed =>
    rw [herror] at htimeout
    have hevent := (guacSocketReceive_length capacity socket').2.2 error (by rw [hrefused])
      (Option.some.inj htimeout)
    rw [hrefused] at hevent
    rw [hevent] at hreceived
    rcases hsafe bytes hreceived.beforeTimeout with hnone | hdone
    · rw [hunparsed] at hnone
      obtain ⟨rfl,hbytes⟩ := append_eq_nil_iff.mp hnone
      rw [hbytes] at hreceived
      exact ⟨rfl,hreceived.eq_of_nil⟩
    · rw [hunparsed] at hdone
      exact absurd hfeed hdone

/-- A call that times out at once leaves the parser reset and nothing else
changed. -/
theorem guacParserRead_timeout (h : parser.Boundary []) (socket : List SocketEvent) :
    (guacParserRead parser (.timeout::socket)).parser=parser.readLocals.parser := by
  obtain ⟨front,back,hprogress⟩ := h.progress
  have hparser := h.readLocals
  have hactive : parser.readLocals.parser.toGuacParser.Active := by
    rw [hparser]
    exact guacParserAlloc_start.active
  have hcall := hprogress.call_eq
  have hnodigits : ∀ d∈([] : List UInt8), IsDigit d := by simp
  have hlt : guacParserAlloc.elementc≠guacInstructionMaxElements := by decide
  rw [hparser] at hcall
  dsimp only at hcall
  rw [guacParserAppend_of_ne hlt,
    parseElement_exhausted guacParserAlloc_start.1 hnodigits _ (by decide)] at hcall
  have hstalled : parser.readLocals.Stalled := by
    unfold ReadLocals.Stalled
    rw [hcall]
    exact ⟨rfl,by decide⟩
  have happend := (hprogress.stalled hactive hstalled).1
  rcases hprogress.makeRoom hactive hstalled with ⟨-,hlen⟩ | ⟨room,-,-,hroom,-⟩
  · cases hlen
  · have hempty : parser.readLocals.unparsedEnd=parser.readLocals.instrStart := by
      rw [hprogress.unparsedEnd,hprogress.instrStart]
      rfl
    have hsame := ReadLocals.makeRoom_parser hroom hempty (by rw [hparser]; rfl)
    rw [guacParserRead,readLoop_refused hactive hstalled (by rw [happend]; exact hroom) rfl]
    exact hsame

/-- Reading again after timeouts gives what is read without timeouts, if no
timeout interrupts a call within an instruction. -/
theorem sessionRetry_boundary {unparsed : List UInt8} (h : parser.Boundary unparsed)
    (socket : List SocketEvent)
    (hsafe : ∀ call∈retryCalls parser socket, TimeoutSafe call.1 call.2) :
    sessionRetry parser socket=session parser (withoutTimeouts socket) := by
  induction hn : parser.remaining socket using Nat.strong_induction_on generalizing
    parser unparsed socket with
  | _ n ih =>
    subst hn
    have hcall : (parser,socket)∈retryCalls parser socket := by
      rw [retryCalls]
      split <;> exact mem_cons_self ..
    have hlater : (guacParserRead parser socket).error=none ∨
        (guacParserRead parser socket).TimedOut→∀ call∈retryCalls
          (guacParserRead parser socket).parser (guacParserRead parser socket).socket,
            TimeoutSafe call.1 call.2 := by
      intro hmore call hmem
      refine hsafe call ?_
      rw [retryCalls,dif_pos hmore]
      exact mem_cons_of_mem _ hmem
    by_cases htimeout : (guacParserRead parser socket).TimedOut
    · have hhere : TimeoutSafe parser socket := hsafe _ hcall
      obtain ⟨rfl,hsocket⟩ := guacParserRead_timedOut h hhere htimeout
      have hparser : (guacParserRead parser socket).parser=parser.readLocals.parser := by
        have hread := guacParserRead_timeout h (guacParserRead parser socket).socket
        rwa [←hsocket] at hread
      have hreset := h.readLocals
      have hboundary : (guacParserRead parser socket).parser.Boundary [] := by
        obtain ⟨front,back,hbuffer,hstart,hend,hbound,-⟩ := h
        rw [hparser,hreset]
        exact ⟨front,back,hbuffer,hstart,hend,hbound,Or.inr rfl⟩
      have hlocals : (guacParserRead parser socket).parser.readLocals=parser.readLocals := by
        have hstart : parser.readLocals=⟨{ parser with toGuacParser := guacParserAlloc },
            parser.unparsedStart,parser.unparsedEnd,parser.unparsedStart⟩ := by
          rw [←hreset]
          rfl
        rw [hparser,hreset,hstart]
        rfl
      have hrest := ih _ (guacParserRead_remaining (Or.inr htimeout)) hboundary _
        (hlater (Or.inr htimeout)) rfl
      have hsame : withoutTimeouts (guacParserRead parser socket).socket=
          withoutTimeouts socket := by
        conv_rhs => rw [hsocket]
        rfl
      rw [sessionRetry_of_timeout htimeout,hrest,hsame]
      exact session_congr (congrArg (fun locals => readLoop locals _) hlocals)
    · have hread := readLoop_withoutTimeouts parser.readLocals socket htimeout
      cases herror : (guacParserRead parser socket).error with
      | some error =>
        have hstatus : error.status≠.timeout := by
          intro hstatus
          refine htimeout ?_
          rw [ReadResult.TimedOut,herror]
          exact congrArg some hstatus
        rw [sessionRetry_of_error herror hstatus]
        exact (session_of_error (by rw [guacParserRead,hread]; exact herror)).symm
      | none =>
        obtain ⟨tail,hboundary⟩ : ∃ tail, (guacParserRead parser socket).parser.Boundary tail := by
          cases h.loopOutcome socket with
          | complete _ tail _ _ _ _ _ _ _ hboundary => exact ⟨tail,hboundary⟩
          | failed _ _ hfailed _ _ =>
            rw [herror] at hfailed
            cases hfailed
          | full _ _ hfailed _ _ =>
            rw [herror] at hfailed
            cases hfailed
          | refused _ _ _ _ _ _ _ hfailed _ _ =>
            rw [herror] at hfailed
            cases hfailed
        have hrest := ih _ (guacParserRead_remaining (Or.inl herror)) hboundary _
          (hlater (Or.inl herror)) rfl
        have hread' : guacParserRead parser (withoutTimeouts socket)=
            ⟨none,(guacParserRead parser socket).parser,
              withoutTimeouts (guacParserRead parser socket).socket⟩ := by
          rw [←herror]
          exact hread
        rw [sessionRetry_of_read herror,session_of_read (by rw [hread']),hread',hrest]

/-- From an allocated parser, reading again after timeouts gives exactly the
instructions that are read without timeouts, whenever no timeout of the run
interrupts a call within an instruction. -/
theorem guacParserRead_retry (socket : List SocketEvent)
    (hsafe : ∀ call∈retryCalls guacBufferedParserAlloc socket, TimeoutSafe call.1 call.2) :
    sessionRetry guacBufferedParserAlloc socket=
      session guacBufferedParserAlloc (withoutTimeouts socket) :=
  sessionRetry_boundary guacBufferedParserAlloc_boundary socket hsafe

/-- Timeouts before and between instructions, and after the last. -/
theorem guacParserRead_retry_between : sessionRetry guacBufferedParserAlloc
        [.timeout,.data (ascii "3.a"), .data (ascii "bc;3.nop;"), .timeout]=
      session guacBufferedParserAlloc [.data (ascii "3.a"), .data (ascii "bc;3.nop;")] :=
  guacParserRead_retry [.timeout,.data (ascii "3.a"),.data (ascii "bc;3.nop;"),.timeout]
    (by decide +kernel)

/-- A timeout within an instruction changes what is read. -/
theorem guacParserRead_retry_within :
    sessionRetry guacBufferedParserAlloc [.data (ascii "3.a"), .timeout, .data (ascii "bc;")]≠
      session guacBufferedParserAlloc [.data (ascii "3.a"), .data (ascii "bc;")] := by
  decide +kernel

end GuacServer.Parser
