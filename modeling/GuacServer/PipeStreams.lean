import GuacServer.OutputStreams
import GuacServer.TerminalPipe

/-!
# Pipe streams to clients

A terminal has at most one pipe stream open. What it sends for it is delivered
to the client here: each pipe keeps its blobs, and also what guac_terminal_echo
read between its opening and its end. Until its first pipe stream the buffer of
a terminal is not initialised and not read.
-/

namespace GuacServer.Terminal

open List OutputStreams StateRuns Unicode UserStreams

variable {H : Type} {env : TerminalEnv} {term term' : GuacTerminal}

/-- A pipe that was opened. -/
structure Pipe where
  /-- The name, as it is sent. -/
  name : List UInt8
  stream : Fin guacClientMaxStreams
  /-- The bytes other than ESC that guac_terminal_echo read until the end. -/
  received : List UInt8
  blobs : List (List UInt8)
  /-- How often it was ended. -/
  ends : ℕ
  /-- How often its stream was freed. -/
  frees : ℕ
  deriving DecidableEq

/-- The streams of a client and the pipes opened on them, the latest one first. -/
structure PipeClient (H : Type) where
  streams : OwnerSession H guacClientMaxStreams
  pipes : List Pipe

/-- guac_client_free_stream on a live stream. -/
def PipeClient.free (client : PipeClient H) (stream : Fin guacClientMaxStreams) :
    Option (OwnerSession H guacClientMaxStreams) :=
  client.streams.free (fun index => (index-1).tdiv 2) guacClientClosedStreamIndex stream

/-- What is done for the pipe of a terminal. A pipe is opened on a stream of its own, and where
none is left NULL is dereferenced. Its stream is freed after its end. -/
def deliver : PipeInstruction→PipeClient H→Option (PipeClient H)
  | .pipe name, client =>
    match guacClientAllocStream client.streams.owner with
    | some (some stream,owner) => some
      { streams := ⟨owner,stream::client.streams.live⟩
        pipes := ⟨name.takeWhile (· ≠ 0),stream,[],[],0,0⟩::client.pipes }
    | _ => none
  | .blob data, client =>
    match client.pipes with
    | [] => none
    | pipe::pipes => some
      { client with pipes := { pipe with blobs := pipe.blobs++[data] } :: pipes }
  | .finish, client =>
    match client.pipes with
    | [] => none
    | pipe::pipes => (client.free pipe.stream).map fun streams =>
      ⟨streams,{ pipe with ends := pipe.ends+1, frees := pipe.frees+1 } :: pipes⟩

/-- A terminal and its client. -/
structure PipeSession (H : Type) where
  term : GuacTerminal
  client : PipeClient H

/-- A byte is read while pipes are open. -/
def hear (c : UInt8) (pipes : List Pipe) : List Pipe :=
  pipes.map fun pipe =>
    if pipe.ends=0 then { pipe with received := pipe.received++[c] } else pipe

/-- What guac_terminal_echo reads of an operation is recorded. -/
def PipeSession.heard (op : TerminalOp) (session : PipeSession H) : PipeClient H :=
  match op with
  | .write c _ =>
    if session.term.charHandler=.echo ∧ c≠0x1B then
      { session.client with pipes := hear c session.client.pipes }
    else session.client
  | _ => session.client

/-- What a terminal has sent until its next state is delivered. -/
def advance (term term' : GuacTerminal) (client : PipeClient H) : Option (PipeSession H) :=
  (run deliver (term'.pipeSent.drop term.pipeSent.length) client).map fun client => ⟨term',client⟩

/-- What is done to a terminal and its client. -/
inductive PipeOp
  | terminal (op : TerminalOp)
  /-- guac_terminal_free closes the pipe stream. -/
  | terminalFree
  /-- guac_client_alloc_stream for something else. -/
  | allocStream
  /-- guac_client_free_stream for something else. -/
  | freeStream (stream : Fin guacClientMaxStreams)

/-- A stream belongs to a pipe that was not ended. -/
def PipeClient.Piping (client : PipeClient H) (stream : Fin guacClientMaxStreams) : Prop :=
  ∃ pipe∈client.pipes, pipe.ends=0 ∧ pipe.stream=stream

instance (client : PipeClient H) (stream : Fin guacClientMaxStreams) :
    Decidable (client.Piping stream) :=
  inferInstanceAs (Decidable (∃ pipe∈client.pipes, _))

/-- A terminal and its client after something is done. -/
def pipeStep (env : TerminalEnv) (op : PipeOp) (session : PipeSession H) : Option (PipeSession H) :=
  match op with
  | .terminal op =>
    (terminalStep env op session.term).bind fun term' =>
      advance session.term term' (session.heard op)
  | .terminalFree =>
    advance session.term (guacTerminalPipeStreamClose session.term) session.client
  | .allocStream => (session.client.streams.alloc clientStreamIndex).map fun streams =>
      { session with client := { session.client with streams := streams } }
  | .freeStream stream =>
    if session.client.Piping stream then none
    else (session.client.free stream).map fun streams =>
      { session with client := { session.client with streams := streams } }

/-! ## Pipes that carry all output -/

/-- All that was read was sent, and the pipe was ended and freed once. -/
structure Pipe.Closed (pipe : Pipe) : Prop where
  ends : pipe.ends=1
  frees : pipe.frees=1
  received : pipe.blobs.flatten=pipe.received

/-- All that was read was sent but for what is buffered. -/
structure Pipe.Open (pipe : Pipe) (buffered : List UInt8) : Prop where
  ends : pipe.ends=0
  frees : pipe.frees=0
  received : pipe.blobs.flatten++buffered=pipe.received

/-- Every pipe that was opened carries what was read while it was open. Only the latest one
may still be open, on a live stream. -/
structure PipesFaithful (session : PipeSession H) : Prop where
  closed : session.term.pipeStream=false→∀ pipe∈session.client.pipes, pipe.Closed
  opened : session.term.pipeStream=true→∃ pipe pipes, session.client.pipes=pipe::pipes ∧
    pipe.Open session.term.pipeBuffer ∧ pipe.stream∈session.client.streams.live ∧
    ∀ earlier∈pipes, earlier.Closed
  fits : session.client.pipes≠[] → session.term.pipeBuffer.length≤pipeBufferSize

/-- The streams of the client are handed out as they should be. -/
def PipeClient.Allots (client : PipeClient H) : Prop :=
  ∃ history, Allotted clientStreamIndex client.streams history

variable {client : PipeClient H} {session : PipeSession H}

/-- Nothing is sent for a pipe stream that is left alone. -/
theorem PipesFaithful.of_samePipe (h : PipesFaithful ⟨term,client⟩) (hsame : SamePipe term term') :
    PipesFaithful ⟨term',client⟩ := by
  obtain ⟨hclosed,hopened,hfits⟩ := h
  refine ⟨?_,?_,?_⟩
  · rw [hsame.stream]
    exact hclosed
  · rw [hsame.stream,hsame.buffer]
    exact hopened
  · rw [hsame.buffer]
    exact hfits

/-- The client after something is sent between two states of a terminal. -/
def Sends (term term' : GuacTerminal) (client client' : PipeClient H) : Prop :=
  ∃ news, term'.pipeSent=term.pipeSent++news ∧ run deliver news client=some client'

theorem Sends.refl (term : GuacTerminal) (client : PipeClient H) : Sends term term client client :=
  ⟨[],(append_nil _).symm,rfl⟩

theorem Sends.trans {term'' : GuacTerminal} {client' client'' : PipeClient H}
    (h : Sends term term' client client') (h' : Sends term' term'' client' client'') :
    Sends term term'' client client'' := by
  obtain ⟨news,hsent,hrun⟩ := h
  obtain ⟨news',hsent',hrun'⟩ := h'
  refine ⟨news++news',?_,?_⟩
  · rw [hsent',hsent,append_assoc]
  · rw [run_append,hrun]
    exact hrun'

theorem Sends.of_sent {term'' : GuacTerminal} {client' : PipeClient H}
    (h : Sends term term' client client') (hsame : term''.pipeSent=term'.pipeSent) :
    Sends term term'' client client' := by
  obtain ⟨news,hsent,hrun⟩ := h
  exact ⟨news,hsame.trans hsent,hrun⟩

theorem Sends.advance {client' : PipeClient H} (h : Sends term term' client client') :
    advance term term' client=some ⟨term',client'⟩ := by
  obtain ⟨news,hsent,hrun⟩ := h
  unfold Terminal.advance
  rw [hsent,drop_left,hrun]
  rfl

/-- Pipes stay faithful and streams allotted by what is sent. -/
def Delivers (term term' : GuacTerminal) (client : PipeClient H) : Prop :=
  ∃ client', Sends term term' client client' ∧ PipesFaithful ⟨term',client'⟩ ∧ client'.Allots

theorem Delivers.refl (h : PipesFaithful ⟨term,client⟩) (hallots : client.Allots) :
    Delivers term term client :=
  ⟨client,Sends.refl _ _,h,hallots⟩

/-! ## Flush, write, close and open -/

/-- What is buffered is sent by a flush of an open pipe. -/
theorem sends_pipeStreamFlush (hopen : term.pipeStream=true) (streams : OwnerSession H _)
    (pipe : Pipe) (pipes : List Pipe) :
    ∃ blobs, blobs.flatten=pipe.blobs.flatten++term.pipeBuffer ∧
      Sends term (guacTerminalPipeStreamFlush term) ⟨streams,pipe::pipes⟩
        ⟨streams,{ pipe with blobs := blobs } :: pipes⟩ ∧
      (guacTerminalPipeStreamFlush term).pipeStream=true ∧
      (guacTerminalPipeStreamFlush term).pipeBuffer=[] := by
  unfold guacTerminalPipeStreamFlush
  by_cases hbuffer : term.pipeBuffer=[]
  · rw [if_neg (fun hflush => hflush.2 hbuffer),hbuffer]
    exact ⟨pipe.blobs,(append_nil _).symm,Sends.refl _ _,hopen,rfl⟩
  · rw [if_pos ⟨hopen,hbuffer⟩]
    refine ⟨pipe.blobs++[term.pipeBuffer],?_,⟨[.blob term.pipeBuffer],rfl,rfl⟩,hopen,rfl⟩
    rw [flatten_append,flatten_singleton]

theorem delivers_flush (h : PipesFaithful ⟨term,client⟩) (hallots : client.Allots) :
    Delivers term (guacTerminalPipeStreamFlush term) client := by
  by_cases hopen : term.pipeStream=true
  · obtain ⟨pipe,pipes,hpipes,hpipe,hlive,hearlier⟩ := h.opened hopen
    obtain ⟨streams,_⟩ := client
    cases hpipes
    obtain ⟨blobs,hblobs,hsends,hopened,hempty⟩ := sends_pipeStreamFlush hopen streams pipe pipes
    refine ⟨_,hsends,⟨fun hclosed => ?_,fun _ => ?_,fun _ => ?_⟩,hallots⟩
    · cases hopened.symm.trans hclosed
    · refine ⟨_,_,rfl,⟨hpipe.ends,hpipe.frees,?_⟩,hlive,hearlier⟩
      rw [hempty,append_nil]
      exact hblobs.trans hpipe.received
    · rw [hempty]
      exact Nat.zero_le _
  · have hnone : guacTerminalPipeStreamFlush term=term := if_neg fun hflush => hopen hflush.1
    rw [hnone]
    exact .refl h hallots

/-- Nothing is read for pipes that were ended. -/
theorem hear_closed {pipes : List Pipe} (c : UInt8) (hclosed : ∀ pipe∈pipes, pipe.Closed) :
    hear c pipes=pipes := by
  refine (map_congr_left fun pipe hmem => if_neg ?_).trans (map_id pipes)
  rw [(hclosed pipe hmem).ends]
  exact one_ne_zero

/-- The byte is read for the pipe that is open. -/
theorem hear_open {pipe : Pipe} {pipes : List Pipe} (c : UInt8) (hopen : pipe.ends=0)
    (hearlier : ∀ earlier∈pipes, earlier.Closed) :
    hear c (pipe::pipes) = { pipe with received := pipe.received++[c] } :: pipes := by
  have hkept := hear_closed c hearlier
  unfold hear at hkept ⊢
  rw [map_cons,if_pos hopen,hkept]

/-- A byte goes into the buffer, which is sent first if it is full. -/
theorem delivers_write (h : PipesFaithful ⟨term,client⟩) (hallots : client.Allots)
    (hopen : term.pipeStream=true) (c : UInt8) :
    Delivers term (guacTerminalPipeStreamWrite term c)
      { client with pipes := hear c client.pipes } := by
  obtain ⟨pipe,pipes,hpipes,hpipe,hlive,hearlier⟩ := h.opened hopen
  have hfits := h.fits (by rw [hpipes]; exact cons_ne_nil _ _)
  obtain ⟨streams,_⟩ := client
  cases hpipes
  dsimp only at hfits hlive ⊢
  rw [hear_open c hpipe.ends hearlier]
  unfold guacTerminalPipeStreamWrite
  rw [if_pos hopen]
  dsimp only
  by_cases hfull : term.pipeBuffer.length=pipeBufferSize
  · obtain ⟨blobs,hblobs,hsends,hopened,hempty⟩ := sends_pipeStreamFlush hopen streams
      { pipe with received := pipe.received++[c] } pipes
    rw [if_pos hfull]
    refine ⟨_,hsends.of_sent rfl,⟨fun hclosed => ?_,fun _ => ?_,fun _ => ?_⟩,hallots⟩
    · cases hopened.symm.trans hclosed
    · refine ⟨_,_,rfl,⟨hpipe.ends,hpipe.frees,?_⟩,hlive,hearlier⟩
      dsimp only
      rw [hempty,nil_append,hblobs,hpipe.received]
    · dsimp only
      rw [hempty,nil_append,length_singleton]
      decide
  · rw [if_neg hfull]
    refine ⟨_,⟨[],(append_nil _).symm,rfl⟩,⟨fun hclosed => ?_,fun _ => ?_,fun _ => ?_⟩,hallots⟩
    · cases hopen.symm.trans hclosed
    · refine ⟨_,_,rfl,⟨hpipe.ends,hpipe.frees,?_⟩,hlive,hearlier⟩
      rw [←append_assoc,hpipe.received]
    · rw [length_append,length_singleton]
      omega

/-- A stream that is freed was live. -/
theorem free_live (client : PipeClient H) {stream : Fin guacClientMaxStreams}
    (hlive : stream∈client.streams.live) :
    ∃ streams, client.free stream=some streams ∧ streams.live=client.streams.live.erase stream :=
  ⟨_,if_pos hlive,rfl⟩

/-- An open pipe is ended and freed once all of its buffer is sent, so that a stream is left. -/
theorem pipesFaithful_close (h : PipesFaithful ⟨term,client⟩) (hallots : client.Allots) :
    ∃ client', Sends term (guacTerminalPipeStreamClose term) client client' ∧
      PipesFaithful ⟨guacTerminalPipeStreamClose term,client'⟩ ∧ client'.Allots ∧
      (guacTerminalPipeStreamClose term).pipeStream=false ∧
      (client'.streams.live.length<guacClientMaxStreams ↔
        term.pipeStream=true ∨ client.streams.live.length<guacClientMaxStreams) := by
  unfold guacTerminalPipeStreamClose
  by_cases hopen : term.pipeStream=true
  · obtain ⟨pipe,pipes,hpipes,hpipe,hlive,hearlier⟩ := h.opened hopen
    obtain ⟨history,hallotted⟩ := hallots
    obtain ⟨streams,_⟩ := client
    cases hpipes
    rw [if_pos hopen]
    obtain ⟨blobs,hblobs,hsends,-,hempty⟩ := sends_pipeStreamFlush hopen streams pipe pipes
    obtain ⟨freed,hfree,hfreed⟩ :=
      free_live ⟨streams,{ pipe with blobs := blobs } :: pipes⟩ hlive
    have hdelivered : run deliver [.finish] ⟨streams,{ pipe with blobs := blobs } :: pipes⟩=
        some ⟨freed,{ pipe with blobs := blobs, ends := pipe.ends+1, frees := pipe.frees+1 }::
          pipes⟩ := by
      unfold run deliver
      dsimp only
      rw [hfree]
      rfl
    have hended : ({ pipe with blobs := blobs, ends := pipe.ends+1, frees := pipe.frees+1 } :
        Pipe).Closed := by
      refine ⟨?_,?_,hblobs.trans hpipe.received⟩
      · exact congrArg (· + 1) hpipe.ends
      · exact congrArg (· + 1) hpipe.frees
    refine ⟨_,hsends.trans ⟨[.finish],rfl,hdelivered⟩,⟨fun _ => ?_,
      fun hopened => Bool.noConfusion hopened,fun _ => ?_⟩,
      hallotted.free clientStreamIndex_place (by decide) hfree,rfl,iff_of_true ?_ (Or.inl hopen)⟩
    · exact forall_mem_cons.mpr ⟨hended,hearlier⟩
    · dsimp only
      rw [hempty]
      exact Nat.zero_le _
    · have hle := hallotted.length_le
      have hpos := length_pos_of_mem hlive
      dsimp only at hle hpos ⊢
      rw [hfreed,length_erase_of_mem hlive]
      dsimp only
      omega
  · rw [if_neg hopen]
    exact ⟨client,Sends.refl _ _,h,hallots,Bool.eq_false_iff.mpr hopen,(or_iff_right hopen).symm⟩

theorem delivers_close (h : PipesFaithful ⟨term,client⟩) (hallots : client.Allots) :
    Delivers term (guacTerminalPipeStreamClose term) client := by
  obtain ⟨client',hsends,hfaithful,hallots',-⟩ := pipesFaithful_close h hallots
  exact ⟨client',hsends,hfaithful,hallots'⟩

/-- A pipe is opened exactly if a stream is left. -/
theorem deliver_pipe (name : List UInt8) (hallots : client.Allots) :
    (∃ stream owner, deliver (.pipe name) client=some
        { streams := ⟨owner,stream::client.streams.live⟩
          pipes := ⟨name.takeWhile (· ≠ 0),stream,[],[],0,0⟩::client.pipes } ∧
      (∃ history, Allotted clientStreamIndex ⟨owner,stream::client.streams.live⟩ history) ∧
      client.streams.live.length<guacClientMaxStreams) ∨
      deliver (.pipe name) client=none ∧ client.streams.live.length=guacClientMaxStreams := by
  obtain ⟨history,hallotted⟩ := hallots
  by_cases hleft : client.streams.live.length<guacClientMaxStreams
  · obtain ⟨stream,owner,history',halloc,-,-,hallotted'⟩ := hallotted.allocates (by decide) hleft
    refine Or.inl ⟨stream,owner,?_,⟨history',hallotted'⟩,hleft⟩
    rw [deliver,guacClientAllocStream,halloc]
  · have hfull : client.streams.live.length=guacClientMaxStreams :=
      hallotted.length_le.antisymm (not_lt.mp hleft)
    refine Or.inr ⟨?_,hfull⟩
    rw [deliver,guacClientAllocStream,allocStream,if_pos (hallotted.active_iff.mpr hfull)]

/-- Another pipe takes the place of one that is open. -/
theorem pipesFaithful_open (h : PipesFaithful ⟨term,client⟩) (hallots : client.Allots)
    (name : List UInt8) (flags : ℤ) :
    (Delivers term (guacTerminalPipeStreamOpen term name flags) client ∧
      (term.pipeStream=true ∨ client.streams.live.length<guacClientMaxStreams)) ∨
      run deliver ((guacTerminalPipeStreamOpen term name flags).pipeSent.drop
          term.pipeSent.length) client=none ∧
        ¬(term.pipeStream=true ∨ client.streams.live.length<guacClientMaxStreams) := by
  obtain ⟨closed,hsends,hfaithful,hallots',hclosed,hleft⟩ := pipesFaithful_close h hallots
  rcases deliver_pipe name hallots' with ⟨stream,owner,hdelivered,hallotted,hless⟩ | ⟨hnone,hfull⟩
  · have hopened : run deliver [.pipe name] closed=some
        { streams := ⟨owner,stream::closed.streams.live⟩
          pipes := ⟨name.takeWhile (· ≠ 0),stream,[],[],0,0⟩::closed.pipes } := by
      unfold run
      rw [hdelivered]
      rfl
    refine Or.inl ⟨⟨_,hsends.trans ⟨[.pipe name],rfl,hopened⟩,
      ⟨fun hclosed' => Bool.noConfusion hclosed',fun _ => ?_,fun _ => ?_⟩,hallotted⟩,hleft.mp hless⟩
    · exact ⟨_,_,rfl,⟨rfl,rfl,rfl⟩,mem_cons_self ..,hfaithful.closed hclosed⟩
    · exact Nat.zero_le _
  · obtain ⟨news,hsent,hrun⟩ := hsends
    have hopened : (guacTerminalPipeStreamOpen term name flags).pipeSent=
        term.pipeSent++(news++[.pipe name]) := by
      rw [←append_assoc,←hsent]
      rfl
    refine Or.inr ⟨?_,fun hpossible => (hleft.mpr hpossible).ne hfull⟩
    rw [hopened,drop_left,run_append,hrun,Option.bind_some,run,hnone]

/-! ## Runs -/

/-- A pipe is opened only while a stream is left, which is so after another pipe is closed, and
only live streams of something else are freed. -/
def PipePossible (op : PipeOp) (session : PipeSession H) : Prop :=
  match op with
  | .terminal (.write c _) =>
    session.term.charHandler=.openPipeStream→IsStringTerminator c → session.term.pipeStream=true ∨
        session.client.streams.live.length<guacClientMaxStreams
  | .freeStream stream =>
    stream∈session.client.streams.live ∧ ¬session.client.Piping stream
  | _ => True

/-- What guac_terminal_echo reads goes into the pipe that is open. -/
theorem delivers_echo (h : PipesFaithful ⟨term,client⟩) (hallots : client.Allots) (c : UInt8) :
    Delivers term (echoPipe term c)
      (if c≠0x1B then { client with pipes := hear c client.pipes } else client) := by
  unfold echoPipe
  by_cases hescape : c=0x1B
  · have hskipped : ¬(term.pipeStream && decide (c≠0x1B))=true := by
      rw [decide_eq_false (not_not.mpr hescape),Bool.and_false]
      exact Bool.false_ne_true
    rw [if_neg (not_not.mpr hescape),if_neg hskipped]
    exact .refl h hallots
  · rw [if_pos hescape,decide_eq_true hescape,Bool.and_true]
    by_cases hopen : term.pipeStream=true
    · rw [if_pos hopen]
      exact delivers_write h hallots hopen c
    · have hnone : hear c client.pipes=client.pipes :=
        hear_closed c (h.closed (Bool.eq_false_iff.mpr hopen))
      rw [if_neg hopen,hnone]
      exact .refl h hallots

/-- What is done to the pipe stream of a terminal is delivered. -/
theorem delivers_pipeEffect (h : PipesFaithful session) (hallots : session.client.Allots)
    (op : TerminalOp) :
    Delivers session.term (pipeEffect op session.term) (session.heard op) ∧
        PipePossible (.terminal op) session ∨
      run deliver ((pipeEffect op session.term).pipeSent.drop session.term.pipeSent.length)
        (session.heard op)=none ∧ ¬PipePossible (.terminal op) session := by
  obtain ⟨term,client⟩ := session
  have hsame : Delivers term term client := .refl h hallots
  cases op with
  | write c uninitializedWidth =>
    by_cases hecho : term.charHandler=.echo
    · have heffect : pipeEffect (.write c uninitializedWidth) term=echoPipe term c := by
        unfold pipeEffect pipeChar
        rw [hecho]
      have hheard : PipeSession.heard (.write c uninitializedWidth) ⟨term,client⟩=
          if c≠0x1B then { client with pipes := hear c client.pipes } else client :=
        if_congr (and_iff_right hecho) rfl rfl
      rw [heffect,hheard]
      refine Or.inl ⟨delivers_echo h hallots c,fun hopens => ?_⟩
      cases hecho.symm.trans hopens
    have hheard : PipeSession.heard (.write c uninitializedWidth) ⟨term,client⟩=client :=
      if_neg fun hread => hecho hread.1
    rw [hheard]
    unfold pipeEffect pipeChar PipePossible
    dsimp only
    cases hhandler : term.charHandler with
    | echo => exact absurd hhandler hecho
    | openPipeStream =>
      by_cases hends : IsStringTerminator c
      · dsimp only
        rw [if_pos hends]
        rcases pipesFaithful_open h hallots term.statics.pipeParam term.statics.pipeFlags with
          ⟨hopened,hleft⟩ | ⟨hnone,hlast⟩
        · exact Or.inl ⟨hopened,fun _ _ => hleft⟩
        · exact Or.inr ⟨hnone,fun hpossible => hlast (hpossible rfl hends)⟩
      · dsimp only
        rw [if_neg hends]
        exact Or.inl ⟨hsame,fun _ hends' => absurd hends' hends⟩
    | closePipeStream =>
      exact Or.inl ⟨iteInduction (motive := fun t => Delivers term t client)
        (fun _ => delivers_close h hallots) fun _ => hsame,nofun⟩
    | _ => exact Or.inl ⟨hsame,nofun⟩
  | flush =>
    exact Or.inl ⟨iteInduction (motive := fun t => Delivers term t client)
      (fun _ => delivers_flush h hallots) fun _ => hsame,trivial⟩
  | resize => exact Or.inl ⟨hsame,trivial⟩
  | scrollDisplayDown => exact Or.inl ⟨hsame,trivial⟩
  | scrollDisplayUp => exact Or.inl ⟨hsame,trivial⟩

/-- Pipes stay faithful while the stream of an open one stays live. -/
theorem PipesFaithful.of_streams (h : PipesFaithful session)
    {streams : OwnerSession H guacClientMaxStreams}
    (hlive : ∀ pipe∈session.client.pipes, pipe.ends=0 →
      pipe.stream∈session.client.streams.live → pipe.stream∈streams.live) :
    PipesFaithful { session with client := { session.client with streams := streams } } := by
  refine ⟨h.closed,fun hopen => ?_,h.fits⟩
  obtain ⟨pipe,pipes,hpipes,hpipe,hstream,hearlier⟩ := h.opened hopen
  refine ⟨pipe,pipes,hpipes,hpipe,hlive pipe ?_ hpipe.ends hstream,hearlier⟩
  rw [hpipes]
  exact mem_cons_self ..

/-- A stream that is allocated leaves the others live. -/
theorem mem_live_alloc {name : ℤ→ℤ} {size : ℕ} {session session' : OwnerSession H size}
    (halloc : session.alloc name=some session') {stream : Fin size}
    (hlive : stream∈session.live) : stream∈session'.live := by
  obtain ⟨⟨allocated,owner⟩,-,rfl⟩ := Option.map_eq_some_iff.mp halloc
  cases allocated with
  | none => exact hlive
  | some other => exact mem_cons_of_mem other hlive

/-- A step is taken exactly if it is possible, and keeps the pipes faithful. -/
def StepsFaithfully (env : TerminalEnv) (op : PipeOp) (session : PipeSession H) : Prop :=
  (∃ session', pipeStep env op session=some session' ∧ PipesFaithful session' ∧
      session'.client.Allots) ∧ PipePossible op session ∨
    pipeStep env op session=none ∧ ¬PipePossible op session

theorem steps_terminal (env : TerminalEnv) (h : PipesFaithful session)
    (hallots : session.client.Allots) (op : TerminalOp) :
    StepsFaithfully env (.terminal op) session := by
  obtain ⟨term',hstep⟩ : ∃ term', terminalStep env op session.term=some term' := by
    cases op
    all_goals exact ⟨_,rfl⟩
  have hsame := samePipe_terminalStep hstep
  have hadvance : pipeStep env (.terminal op) session=
      advance session.term term' (session.heard op) := by
    unfold pipeStep
    dsimp only
    rw [hstep]
    rfl
  unfold StepsFaithfully
  rw [hadvance]
  rcases delivers_pipeEffect h hallots op with
    ⟨⟨client',hsends,hfaithful,hallots'⟩,hpossible⟩ | ⟨hnone,hnot⟩
  · exact Or.inl ⟨⟨_,(hsends.of_sent hsame.sent).advance,hfaithful.of_samePipe hsame,
      hallots'⟩,hpossible⟩
  · refine Or.inr ⟨?_,hnot⟩
    unfold advance
    rw [hsame.sent,hnone]
    rfl

theorem steps_freeStream (env : TerminalEnv) (h : PipesFaithful session)
    (hallots : session.client.Allots) (stream : Fin guacClientMaxStreams) :
    StepsFaithfully env (.freeStream stream) session := by
  unfold StepsFaithfully pipeStep PipePossible
  by_cases hpiping : session.client.Piping stream
  · exact Or.inr ⟨if_pos hpiping,fun hpossible => hpossible.2 hpiping⟩
  by_cases hlive : stream∈session.client.streams.live
  · obtain ⟨streams,hfree,hfreed⟩ := free_live session.client hlive
    obtain ⟨history,hallotted⟩ := hallots
    have hkept : PipesFaithful { session with client := { session.client with
        streams := streams } } := by
      refine h.of_streams fun pipe hpipe hends hpiped => ?_
      rw [hfreed]
      refine (mem_erase_of_ne fun heq => ?_).mpr hpiped
      exact hpiping ⟨pipe,hpipe,hends,heq⟩
    refine Or.inl ⟨⟨_,?_,hkept,
      hallotted.free clientStreamIndex_place (by decide) hfree⟩,hlive,hpiping⟩
    dsimp only
    rw [if_neg hpiping,hfree]
    rfl
  · refine Or.inr ⟨?_,fun hpossible => hlive hpossible.1⟩
    dsimp only
    rw [if_neg hpiping]
    exact congrArg _ (if_neg hlive)

theorem steps_faithfully (env : TerminalEnv) (h : PipesFaithful session)
    (hallots : session.client.Allots) (op : PipeOp) : StepsFaithfully env op session := by
  cases op with
  | terminal op => exact steps_terminal env h hallots op
  | terminalFree =>
    obtain ⟨client',hsends,hfaithful,hallots'⟩ := delivers_close h hallots
    exact Or.inl ⟨⟨_,hsends.advance,hfaithful,hallots'⟩,trivial⟩
  | allocStream =>
    obtain ⟨history,hallotted⟩ := hallots
    obtain ⟨streams,history',halloc,hallotted'⟩ := hallotted.alloc (by decide)
    have hkept : PipesFaithful { session with client := { session.client with
        streams := streams } } :=
      h.of_streams fun _ _ _ hlive => mem_live_alloc halloc hlive
    refine Or.inl ⟨⟨_,?_,hkept,history',hallotted'⟩,trivial⟩
    unfold pipeStep
    dsimp only
    rw [halloc]
    rfl
  | freeStream stream => exact steps_freeStream env h hallots stream

/-- From a terminal without a pipe stream and a client without streams, every run of writes,
flushes and all else that is done to them reaches states in which every pipe that was opened
carries what guac_terminal_echo read while it was open, and was ended and freed once if it was
closed or replaced. It goes on unless a pipe is opened while all streams are taken. -/
theorem pipes_carry_output (env : TerminalEnv) (term : GuacTerminal)
    (hclosed : term.pipeStream=false) (ops : List PipeOp) {session : PipeSession H}
    (hrun : run (pipeStep env) ops ⟨term,⟨freshOwnerSession,[]⟩⟩=some session) :
    PipesFaithful session ∧ ∀ op, (pipeStep env op session).isSome ↔ PipePossible op session := by
  have hfresh : PipesFaithful ⟨term,⟨(freshOwnerSession : OwnerSession H _),[]⟩⟩ :=
    ⟨fun _ => nofun,fun hopen => Bool.noConfusion (hclosed.symm.trans hopen),
      fun hpipes => absurd rfl hpipes⟩
  obtain ⟨hfaithful,hallots⟩ : PipesFaithful session ∧ session.client.Allots := by
    refine run_keeps (I := fun made => PipesFaithful made ∧ made.client.Allots)
      (fun {op made next} hmade hstep => ?_) ?_ hrun
    · rcases steps_faithfully env hmade.1 hmade.2 op with ⟨⟨next',hnext,hkept⟩,-⟩ | ⟨hnone,-⟩
      · cases hstep.symm.trans hnext
        exact hkept
      · cases hstep.symm.trans hnone
    · exact ⟨hfresh,_,freshOwnerSession_allotted _⟩
  refine ⟨hfaithful,fun op => ?_⟩
  rcases steps_faithfully env hfaithful hallots op with
    ⟨⟨next,hnext,-⟩,hpossible⟩ | ⟨hnone,hnot⟩
  · rw [hnext]
    exact iff_of_true rfl hpossible
  · rw [hnone]
    exact iff_of_false Bool.false_ne_true hnot

/-- A pipe that is flushed, then replaced by another, which is closed. -/
def replacedPipe : List PipeOp :=
  let write := fun s => (ascii s).map fun c => PipeOp.terminal (.write c 0)
  write "\x1B]482202;2;a\x07hi" ++ [.terminal .flush]++write "yo\x1B]482202;b\x07z\x1B]482203;\x07"

/-- Each of the two pipes carries what was written while it was open. -/
theorem pipes_carry_output_replaced : ∃ session : PipeSession Unit,
      run (pipeStep consoleEnv) replacedPipe
        ⟨guacTerminalAlloc consoleMemory consoleSettings 640 384,⟨freshOwnerSession,[]⟩⟩=
        some session ∧
      session.client.pipes.map (fun pipe => (pipe.name,pipe.blobs,pipe.ends))=
        [(ascii "b", [ascii "z"], 1), (ascii "a", [ascii "hi", ascii "yo"], 1)] ∧
      PipesFaithful session := by
  obtain ⟨session,hrun,hpipes⟩ : ∃ session : PipeSession Unit,
      run (pipeStep consoleEnv) replacedPipe
        ⟨guacTerminalAlloc consoleMemory consoleSettings 640 384,⟨freshOwnerSession,[]⟩⟩=
        some session ∧
      session.client.pipes.map (fun pipe => (pipe.name,pipe.blobs,pipe.ends))=
        [(ascii "b", [ascii "z"], 1),(ascii "a", [ascii "hi",ascii "yo"], 1)] :=
    ⟨_,rfl,rfl⟩
  exact ⟨session,hrun,hpipes,(pipes_carry_output consoleEnv _ rfl replacedPipe hrun).1⟩

end GuacServer.Terminal
