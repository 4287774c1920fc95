import GuacServer.EncoderParser
import GuacServer.ParserPrefixes

/-!
# What a call of the parser of the encoder service does

A piece of the stream ends with its only semicolon. A call that is given a piece
parses it to its end. It takes the first of the piece's bytes as the start of the
instruction: where this is not so, and the end of the buffer is reached within the
instruction, the instruction is lost. Otherwise the call has parsed what a reading
of the whole instruction would have parsed, and the buffer is filled behind the
piece, or up to the length of the piece if the end of the buffer is reached.
-/

namespace GuacServer.EncoderParser

open GuacServer.Parser List

/-- The same with other bytes in the accumulation buffer. -/
def InsTransVideo.withData (ins : InsTransVideo) (data : List UInt8) : InsTransVideo :=
  { ins with data := data }

@[simp] theorem InsTransVideo.withData_data (ins : InsTransVideo) (data : List UInt8) :
    (ins.withData data).data=data := rfl

@[simp] theorem InsTransVideo.withData_withData (ins : InsTransVideo) (data data' : List UInt8) :
    (ins.withData data).withData data' = ins.withData data' := rfl

variable {ins : InsTransVideo} {es : List Element} {a b : List UInt8}

theorem InsTransVideo.withData_self {data : List UInt8} (h : ins.data=data) :
    ins.withData data=ins := by
  rw [←h]
  rfl

/-- The locals with the true start of the instruction, which the shift of the buffer
does not know. -/
def InsLocals.begunAt (start : ℕ) (locals : InsLocals) : ReadLocals :=
  { locals.read with instrStart := start }

/-- Nothing is handled before an instruction is complete. -/
theorem InsLocals.dispatch_of_active {locals : InsLocals}
    (h : locals.read.parser.toGuacParser.Active) : locals.dispatch=locals := if_neg h.1

/-- A round that parses something. -/
theorem insLoop_advance {locals : InsLocals} (hactive : locals.read.parser.toGuacParser.Active)
    (hparsed : locals.read.call.parsed≠0) (herr : locals.read.call.parser.state≠.error) :
    insLoop locals=insLoop locals.advance := by
  rw [insLoop]
  simp only [InsLocals.dispatch_of_active hactive,if_neg herr,dif_neg hparsed]

/-- A round that handles an instruction. -/
theorem insLoop_dispatch (locals : InsLocals) : insLoop locals=insLoop locals.dispatch := by
  have hsame : locals.dispatch.dispatch=locals.dispatch := if_neg locals.dispatch_state
  rw [insLoop.eq_def locals,insLoop.eq_def locals.dispatch,hsame]

section

variable {locals room : InsLocals} (hactive : locals.read.parser.toGuacParser.Active)
  (hstalled : locals.read.Stalled) (hroom : locals.append.makeRoom=some room)

include hactive hstalled hroom

/-- A round that takes bytes from the accumulation buffer. -/
theorem insLoop_fill (hbytes : room.fill.1≠[]) : insLoop locals=insLoop room.fill.2 := by
  rw [←InsLocals.dispatch_of_active hactive] at hroom
  rw [insLoop]
  simp only [InsLocals.dispatch_of_active hactive,if_neg hstalled.2,dif_pos hstalled.1]
  split
  · next hnone => rw [hroom] at hnone; cases hnone
  · next hsome =>
    rw [hroom] at hsome
    cases hsome
    rw [dif_neg hbytes]

/-- A round that finds no bytes in the accumulation buffer. -/
theorem insLoop_finish (hbytes : room.fill.1=[]) : insLoop locals=room.finish := by
  rw [←InsLocals.dispatch_of_active hactive] at hroom
  rw [insLoop]
  simp only [InsLocals.dispatch_of_active hactive,if_neg hstalled.2,dif_pos hstalled.1]
  split
  · next hnone => rw [hroom] at hnone; cases hnone
  · next hsome =>
    rw [hroom] at hsome
    cases hsome
    rw [dif_pos hbytes]

end

/-- An instruction is lost where it is handled without being known, or is about to be.
There are fewer than so many before it. -/
def Lost (n : ℕ) (handled : List (Option Instruction)) (dangling : Bool) : Prop :=
  none∈handled ∨ dangling=true ∧ handled.length<n

/-- What is handled next does not bring it back. -/
theorem Lost.dispatch {n : ℕ} {locals : InsLocals} (h : Lost n locals.handled locals.dangling) :
    Lost n locals.dispatch.handled locals.dispatch.dangling := by
  unfold InsLocals.dispatch
  split_ifs
  · obtain hnone | ⟨hdangling,-⟩ := h
    · exact Or.inl (mem_append_left _ hnone)
    · exact Or.inl (mem_append_right _ (by simp [InsLocals.insHandleCompleteInstruction,
        hdangling]))
  · exact h

/-- A shift does not bring it back. -/
theorem Lost.makeRoom {n : ℕ} {locals room : InsLocals} (h : Lost n locals.handled locals.dangling)
    (hroom : locals.makeRoom=some room) : Lost n room.handled room.dangling := by
  unfold InsLocals.makeRoom at hroom
  split_ifs at hroom
  · cases hroom
    obtain hnone | ⟨hdangling,hlen⟩ := h
    · exact Or.inl hnone
    · exact Or.inr ⟨by simp [hdangling],hlen⟩
  · cases hroom
    exact h

/-- No call brings it back. -/
theorem Lost.insLoop {n : ℕ} {locals : InsLocals} (h : Lost n locals.handled locals.dangling) :
    Lost n (insLoop locals).ins.handled (insLoop locals).ins.dangling := by
  have hmade : ∀ {locals : InsLocals}, Lost n locals.handled locals.dangling→∀ room,
      locals.dispatch.append.makeRoom=some room→Lost n room.handled room.dangling := by
    intro locals h room hroom
    have hbegun : Lost n locals.dispatch.append.handled locals.dispatch.append.dangling :=
      h.dispatch
    exact hbegun.makeRoom hroom
  induction locals using insLoop.induct with
  | case1 locals begun herr =>
    rw [EncoderParser.insLoop,if_pos herr]
    exact h.dispatch
  | case2 locals begun herr hzero hroom =>
    rw [EncoderParser.insLoop,if_neg herr,dif_pos hzero]
    split
    · exact h.dispatch
    · next hsome => cases hroom.symm.trans hsome
  | case3 locals begun herr hzero room hroom hbytes =>
    rw [EncoderParser.insLoop,if_neg herr,dif_pos hzero]
    split
    · next hnone => cases hroom.symm.trans hnone
    · next hsome =>
      cases hroom.symm.trans hsome
      rw [dif_pos hbytes]
      exact hmade h room hroom
  | case4 locals begun herr hzero room hroom hbytes ih =>
    rw [EncoderParser.insLoop,if_neg herr,dif_pos hzero]
    split
    · next hnone => cases hroom.symm.trans hnone
    · next hsome =>
      cases hroom.symm.trans hsome
      rw [dif_neg hbytes]
      exact ih (hmade h room hroom)
  | case5 locals begun herr hparsed ih =>
    rw [EncoderParser.insLoop,if_neg herr,dif_neg hparsed]
    exact ih h.dispatch

/-- A call begins elements behind those that are begun. -/
theorem guacParserAppend_elementv (parser : GuacParser) (address : ℕ) (buffer : List UInt8) :
    parser.elementv <+: (guacParserAppend parser address buffer).parser.elementv := by
  have hcontent : ∀ (p : GuacParser) (n : ℕ) (rest : List UInt8),
      (parseContent p n rest).parser.elementv=p.elementv := by
    intro p n rest
    unfold parseContent
    rcases contentLoop p.elementLength rest with ⟨m,after,parsed,stop⟩
    cases stop <;> rfl
  have hlength : parser.elementv <+: (parseLength parser address buffer).1.elementv := by
    unfold parseLength
    rcases lengthLoop parser.elementLength buffer with ⟨m,parsed,stop⟩
    cases stop <;> by_cases hm : m > guacInstructionMaxLength <;> simp [checkLength,hm]
  unfold guacParserAppend parseElement
  by_cases hfull : parser.elementc=guacInstructionMaxElements ∧ parser.state≠.complete
  · simp only [if_pos hfull,prefix_rfl]
  · rw [if_neg hfull]
    by_cases hstate : parser.state=.length
    · rw [if_pos hstate]
      dsimp only
      split
      · rw [hcontent]
        exact hlength
      · exact hlength
    · rw [if_neg hstate]
      dsimp only
      split
      · simp only [hcontent,prefix_rfl]
      · exact prefix_rfl

/-- Rounds that take no bytes from the accumulation buffer and handle nothing. -/
structure Rounds (locals locals' : InsLocals) : Prop where
  loop : insLoop locals=insLoop locals'
  instrStart : locals'.read.instrStart=locals.read.instrStart
  unparsedEnd : locals'.read.unparsedEnd=locals.read.unparsedEnd
  data : locals'.data=locals.data
  handled : locals'.handled=locals.handled
  dangling : locals'.dangling=locals.dangling
  elementv : locals.read.parser.elementv <+: locals'.read.parser.elementv

/-- No round. -/
theorem Rounds.refl (locals : InsLocals) : Rounds locals locals :=
  ⟨rfl,rfl,rfl,rfl,rfl,rfl,prefix_rfl⟩

/-- One more round that parses something. -/
theorem Rounds.advance {locals locals' : InsLocals}
    (hactive : locals.read.parser.toGuacParser.Active) (hparsed : locals.read.call.parsed≠0)
    (herr : locals.read.call.parser.state≠.error) (h : Rounds locals.advance locals') :
    Rounds locals locals' where
  loop := (insLoop_advance hactive hparsed herr).trans h.loop
  instrStart := h.instrStart
  unparsedEnd := h.unparsedEnd
  data := h.data
  handled := h.handled
  dangling := h.dangling
  elementv := (guacParserAppend_elementv ..).trans h.elementv

/-- All bytes in the buffer are parsed as far as they can be. -/
def InsLocals.Settled (locals : InsLocals) : Prop :=
  locals.read.parser.state=.complete ∨ locals.read.parser.toGuacParser.Active ∧ locals.read.Stalled

variable {locals : InsLocals} {start : ℕ} {front done unparsed back received : List UInt8}

/-- Bytes that are no error are parsed as far as they can be. -/
theorem settle (h : Progress (locals.begunAt start) front done unparsed back received)
    (hok : (feed guacParserAlloc 0 received).parser.state≠.error) :
    ∃ settled done' unparsed', Rounds locals settled ∧ settled.Settled ∧
      Progress (settled.begunAt start) front done' unparsed' back received := by
  induction hn : unparsed.length using Nat.strong_induction_on generalizing
    locals done unparsed with
  | _ n ih =>
    subst hn
    have hcall : locals.read.call=guacParserAppend locals.read.parser.toGuacParser
        (front.length+done.length) unparsed := h.call_eq
    have hfeed : (feed locals.read.parser.toGuacParser (front.length+done.length)
        unparsed).parser.state≠.error := fun herr => hok (h.outcome.error_iff.mpr herr)
    by_cases hc : locals.read.parser.state=.complete
    · exact ⟨locals,done,unparsed,.refl locals,Or.inl hc,h⟩
    have hstate : locals.read.parser.state≠.error := by
      intro herr
      rw [feed_of_not_active fun hactive => hactive.2 herr] at hfeed
      exact hfeed herr
    have hactive : locals.read.parser.toGuacParser.Active := ⟨hc,hstate⟩
    have herr : locals.read.call.parser.state≠.error := by
      intro herr
      rw [hcall] at herr
      exact hfeed (feed_of_error hactive herr)
    by_cases hparsed : locals.read.call.parsed=0
    · exact ⟨locals,done,unparsed,.refl locals,Or.inr ⟨hactive,hparsed,herr⟩,h⟩
    · have hle := (guacParserAppend_within hactive.1 (front.length+done.length) unparsed).parsed_le
      rw [←hcall] at hle
      have hnext : Progress (locals.advance.begunAt start) front
          (done++locals.read.call.buffer.take locals.read.call.parsed)
          (unparsed.drop locals.read.call.parsed) back received := h.advance hactive hparsed herr
      obtain ⟨settled,done',unparsed',hrounds,hsettled,hprogress⟩ :=
        ih (unparsed.drop locals.read.call.parsed).length
          (by rw [length_drop]; omega) hnext rfl
      exact ⟨settled,done',unparsed',hrounds.advance hactive hparsed herr,hsettled,hprogress⟩

/-- A stalled call leaves the locals as they are. -/
theorem append_of_stalled (h : Progress (locals.begunAt start) front done unparsed back received)
    (hactive : locals.read.parser.toGuacParser.Active) (hstalled : locals.read.Stalled) :
    locals.append=locals := by
  have hsame := congrArg (fun r : ReadLocals => { r with instrStart := locals.read.instrStart })
    (h.stalled hactive hstalled).1
  have hread : locals.read.append=locals.read := hsame
  rw [InsLocals.append,hread]

/-- There is room for more bytes once the buffer is shifted, and the instruction is not
lost if the shift does not go beyond its start. -/
theorem makeRoom_known (h : Progress (locals.begunAt start) front done unparsed back received)
    (hactive : locals.read.parser.toGuacParser.Active) (hstalled : locals.read.Stalled)
    (hroom : locals.read.unparsedEnd < instructionbufSize ∨
      locals.read.instrStart≠0 ∧ locals.read.instrStart ≤ start) :
    ∃ room start' front' back', locals.append.makeRoom=some room ∧
      Progress (room.begunAt start') front' done unparsed back' received ∧
      room.read.parser.toGuacParser.Active ∧ room.read.Stalled ∧
      room.read.unparsedEnd=(if locals.read.unparsedEnd < instructionbufSize then
        locals.read.unparsedEnd else locals.read.unparsedEnd-locals.read.instrStart) ∧
      room.read.unparsedEnd < instructionbufSize ∧ room.data=locals.data ∧
      room.handled=locals.handled ∧ room.dangling=locals.dangling := by
  have hbound : locals.read.unparsedEnd ≤ instructionbufSize := h.bound
  rw [append_of_stalled h hactive hstalled,InsLocals.makeRoom]
  by_cases hfull : locals.read.unparsedEnd=instructionbufSize
  · obtain ⟨hne,hle⟩ := hroom.resolve_left (by omega)
    obtain ⟨⟨back',hprogress⟩,hactive',hstalled',helements⟩ := h.shiftBack hactive hstalled hle
    rw [if_pos hfull,if_pos hne]
    refine ⟨_,_,_,back',rfl,hprogress,hactive',hstalled',?_,?_,rfl,rfl,?_⟩
    · rw [if_neg (by omega)]
      rfl
    · have hsize : 0 < instructionbufSize := by decide
      change locals.read.unparsedEnd-locals.read.instrStart < instructionbufSize
      omega
    · have hnone : (locals.read.parser.elementv.any (· < locals.read.instrStart))=false := by
        rw [any_eq_false]
        intro element helement
        have hle := helements element helement
        simp only [decide_eq_true_eq]
        omega
      dsimp only
      rw [hnone,Bool.or_false]
  · rw [if_neg hfull]
    exact ⟨locals,start,front,back,rfl,h,hactive,hstalled,
      (if_pos (by omega)).symm,by omega,rfl,rfl,rfl⟩

/-- A shift beyond the start of an element loses the instruction. -/
theorem makeRoom_lost {n : ℕ} (hlen : locals.handled.length<n)
    (hfull : locals.read.unparsedEnd=instructionbufSize)
    (hbegun : ∃ element∈locals.read.parser.elementv, element<locals.read.instrStart)
    {room : InsLocals} (hroom : locals.makeRoom=some room) :
    Lost n room.handled room.dangling := by
  obtain ⟨element,helement,hlt⟩ := hbegun
  rw [InsLocals.makeRoom,if_pos hfull,if_pos (by omega)] at hroom
  cases hroom
  refine Or.inr ⟨?_,hlen⟩
  have hany : locals.read.parser.elementv.any (· < locals.read.instrStart)=true :=
    any_eq_true.mpr ⟨element,helement,by simpa using hlt⟩
  dsimp only
  rw [hany,Bool.or_true]

/-- Between calls all bytes received from the start of the instruction are parsed, and
the instruction is not lost. -/
structure Following (ins : InsTransVideo) (received : List UInt8) : Prop where
  progress : ∃ front done back, Progress ⟨ins.parser,ins.parser.unparsedStart,
    ins.parser.unparsedEnd,front.length⟩ front done [] back received
  active : ins.parser.toGuacParser.Active
  begun : received≠[]→∃ element∈ins.parser.elementv, element < ins.parser.unparsedEnd
  known : ins.dangling=false
  data : ins.data=[]
  room : ins.parser.unparsedEnd < instructionbufSize

/-- The outcome of a call that loses nothing: the instructions handled so far, the bytes
of the instruction that follows, and how far the buffer is filled. -/
structure Parsed (result : InsResult) (handled : List (Option Instruction))
    (received : List UInt8) (filled : ℕ) : Prop where
  ok : result.ok=true
  following : Following result.ins received
  handled : result.ins.handled=handled
  filled : result.ins.parser.unparsedEnd=filled

/-- A return with everything parsed. -/
theorem parsed_finish (h : Progress (locals.begunAt start) front done [] back received)
    (hactive : locals.read.parser.toGuacParser.Active)
    (hbegun : received≠[]→∃ element∈locals.read.parser.elementv,element<locals.read.unparsedEnd)
    (hknown : locals.dangling=false) (hdata : locals.data=[])
    (hroom : locals.read.unparsedEnd < instructionbufSize) :
    Parsed locals.finish locals.handled received locals.read.unparsedEnd := by
  have hstart : start=front.length := h.instrStart
  refine ⟨rfl,⟨⟨front,done,back,?_⟩,hactive,hbegun,hknown,hdata,hroom⟩,rfl,rfl⟩
  exact ⟨h.buffer,rfl,h.unparsedStart,h.unparsedEnd,h.bound,h.length,h.unparsed_eq,h.opcode,
    h.outcome⟩

/-- A parser that is reset follows from where it is. -/
theorem progress_reset {read : ReadLocals} (hparser : read.parser.toGuacParser=guacParserAlloc)
    (hstart : read.unparsedStart=read.unparsedEnd)
    (hbuffer : read.unparsedEnd≤read.parser.instructionbuf.length)
    (hbound : read.unparsedEnd ≤ instructionbufSize) :
    Progress { read with instrStart := read.unparsedEnd }
      (read.parser.instructionbuf.take read.unparsedEnd) [] []
      (read.parser.instructionbuf.drop read.unparsedEnd) [] := by
  have hlen : (read.parser.instructionbuf.take read.unparsedEnd).length=read.unparsedEnd := by
    rw [length_take]
    omega
  constructor
  · simp
  · exact hlen.symm
  · rw [hlen]
    exact hstart
  · exact hlen.symm
  · exact hbound
  · rfl
  · rfl
  · intro _
    rw [hparser]
    rfl
  · rw [hparser,length_nil,Nat.add_zero,←feed_offsetBy,Nat.zero_add]
    exact sameOutcome_after_nil _

/-- A reset parser finds nothing in no bytes. -/
theorem stalled_reset {read : ReadLocals} (hparser : read.parser.toGuacParser=guacParserAlloc)
    (hstart : read.unparsedStart=read.unparsedEnd) : read.Stalled := by
  have hnil : read.unparsed=[] := by
    rw [ReadLocals.unparsed,hstart,Nat.sub_self,take_zero]
  have hcall : ∀ address, guacParserAppend guacParserAlloc address []=⟨guacParserAlloc,[],0⟩ :=
    fun _ => rfl
  rw [ReadLocals.Stalled,ReadLocals.call,hnil,hparser,hcall]
  exact ⟨rfl,guacParserAlloc_start.active.2⟩

/-- The end of a call that has parsed its piece and found the end of the instruction. -/
theorem insLoop_complete (hes : WithinLimits es)
    (h : Progress (locals.begunAt start) front done unparsed back (wireInstruction es))
    (hcomplete : locals.read.parser.state=.complete) (hknown : locals.dangling=false)
    (hdata : locals.data=[])
    (hroom : locals.read.unparsedEnd < instructionbufSize ∨
      locals.read.instrStart≠0 ∧ locals.read.instrStart≤locals.read.unparsedEnd) :
    Parsed (insLoop locals) (locals.handled++[some (instructionOf es)]) []
      (if locals.read.unparsedEnd < instructionbufSize then locals.read.unparsedEnd
        else locals.read.unparsedEnd-locals.read.instrStart) := by
  obtain ⟨fs,hhead,hsplit,hinstruction⟩ := h.complete hcomplete
  obtain ⟨rfl,hnil⟩ := wireInstruction_unique hes.delimited hhead.delimited hes.ne_nil hhead.ne_nil
    ((append_nil _).trans hsplit)
  have hbegun : locals.read.unparsedStart=front.length+done.length := h.unparsedStart
  have hend : locals.read.unparsedEnd=front.length+done.length+unparsed.length := h.unparsedEnd
  have hbuffer : locals.read.parser.instructionbuf=front++(done++(unparsed++back)) := h.buffer
  have hlen := congrArg List.length hbuffer
  simp only [length_append] at hlen
  rw [←hnil,length_nil] at hend hlen
  have hdispatch : locals.dispatch = { locals with
      read := { locals.read with
        parser := { locals.read.parser with
          toGuacParser := insParserReset locals.read.parser.toGuacParser } }
      handled := locals.handled++[some (instructionOf es)]
      dangling := false } := by
    rw [InsLocals.dispatch,if_pos hcomplete,InsLocals.insHandleCompleteInstruction,hknown,
      if_neg Bool.false_ne_true,show locals.read.parser.instruction=instructionOf es from
        hinstruction]
  have hparser : locals.dispatch.read.parser.toGuacParser=guacParserAlloc := by
    rw [hdispatch]
    rfl
  obtain ⟨hstart',hend',hinstr,hdata'⟩ := locals.dispatch_pointers
  have hreset : Progress (locals.dispatch.begunAt locals.dispatch.read.unparsedEnd) _ [] [] _ [] :=
    progress_reset hparser (by omega) (by rw [hend',hdispatch]; dsimp only; omega)
      (by rw [hend']; exact h.bound)
  have hactive : locals.dispatch.read.parser.toGuacParser.Active := by
    rw [hparser]
    exact guacParserAlloc_start.active
  have hstalled := stalled_reset hparser (by omega)
  obtain ⟨room,start',front',back',hmade,hprogress,hactive',-,hfilled,hlt,hsame,hhandled,
    hdangling⟩ := makeRoom_known hreset hactive hstalled (by rw [hend',hinstr]; exact hroom)
  rw [hend',hinstr] at hfilled
  have hnone : room.data=[] := by rw [hsame,hdata',hdata]
  have hbytes : room.fill.1=[] := by simp [InsLocals.fill,insReadInstructions,hnone]
  have hparsed := parsed_finish hprogress hactive' (fun hne => absurd rfl hne)
    (by rw [hdangling,hdispatch]) hnone hlt
  rw [insLoop_dispatch,insLoop_finish hactive hstalled hmade hbytes]
  rw [hfilled,hhandled,hdispatch] at hparsed
  exact hparsed

/-- The end of a call that has parsed its piece within an instruction. -/
theorem insLoop_within (hes : WithinLimits es) (hsplit : wireInstruction es=a++59::b)
    (hb : b≠[]) (h : Progress (locals.begunAt start) front done unparsed back (a++[59]))
    (hactive : locals.read.parser.toGuacParser.Active) (hstalled : locals.read.Stalled)
    (hknown : locals.dangling=false) (hdata : locals.data=[])
    (hroom : locals.read.unparsedEnd < instructionbufSize ∨
      locals.read.instrStart≠0 ∧ locals.read.instrStart ≤ start) :
    Parsed (insLoop locals) locals.handled (a++[59])
      (if locals.read.unparsedEnd < instructionbufSize then locals.read.unparsedEnd
        else locals.read.unparsedEnd-locals.read.instrStart) := by
  obtain ⟨room,start',front',back',hmade,hprogress,hactive',hstalled',hfilled,hlt,hsame,
    hhandled,hdangling⟩ := makeRoom_known h hactive hstalled hroom
  obtain ⟨-,hparsed,element,helement,hbefore⟩ := feed_semicolon guacParserAlloc_start
    ((Nat.zero_add _).trans_lt hes.length_lt) hes.delimited hes.utf8 0 hsplit hb
  obtain ⟨q,hq,-,hfeed,-⟩ := hprogress.stalled_feed hactive' hstalled'
  have hend := hprogress.unparsedEnd
  have hlen := hprogress.length
  rw [hfeed] at hparsed helement
  have hnil : unparsed=[] := length_eq_zero_iff.mp (by dsimp only at hparsed; omega)
  rw [hnil] at hprogress
  have hbytes : room.fill.1=[] := by simp [InsLocals.fill,insReadInstructions,hsame,hdata]
  have hbegun : ∃ element∈room.read.parser.elementv, element<room.read.unparsedEnd := by
    rw [show room.read.parser.toGuacParser=q.offsetBy front'.length from hq]
    refine ⟨element+front'.length,mem_map_of_mem helement,?_⟩
    change room.read.unparsedEnd=_ at hend
    omega
  rw [insLoop_finish hactive hstalled hmade hbytes,←hfilled,←hhandled]
  exact parsed_finish hprogress hactive' (fun _ => hbegun) (by rw [hdangling,hknown])
    (by rw [hsame,hdata]) hlt

/-- Bytes taken from the accumulation buffer are parsed as far as they can be. -/
theorem fill_settle (hes : WithinLimits es)
    (h : Progress (locals.begunAt start) front done unparsed back received)
    (hactive : locals.read.parser.toGuacParser.Active) (hstalled : locals.read.Stalled)
    (hsplit : wireInstruction es=received++locals.fill.1++b) :
    ∃ settled done' unparsed' back', Rounds locals.fill.2 settled ∧ settled.Settled ∧
      Progress (settled.begunAt start) front done' unparsed' back' (received++locals.fill.1) ∧
      (settled.read.parser.state=.complete ↔ b=[]) := by
  have hlen : locals.fill.1.length ≤ instructionbufSize-locals.read.unparsedEnd := by
    simp only [InsLocals.fill,insReadInstructions,length_take]
    exact Nat.min_le_left ..
  have hstore : Progress (locals.fill.2.begunAt start) front done (unparsed++locals.fill.1)
      (back.drop locals.fill.1.length) (received++locals.fill.1) :=
    h.store hactive hstalled hlen
  have hwhole : (feed guacParserAlloc 0 (wireInstruction es)).parser.state=.complete := by
    have hhead := hes.head []
    rw [append_nil] at hhead
    exact (feed_complete_iff guacParserAlloc 0 _).mpr ⟨es,hhead⟩
  have hok : (feed guacParserAlloc 0 (received++locals.fill.1)).parser.state≠.error := by
    by_cases hb : b=[]
    · rw [hb,append_nil] at hsplit
      rw [←hsplit,hwhole]
      decide
    · exact (hes.prefix_active hsplit hb).2
  obtain ⟨settled,done',unparsed',hrounds,hsettled,hprogress⟩ := settle hstore hok
  refine ⟨settled,done',unparsed',_,hrounds,hsettled,hprogress,?_,?_⟩
  · intro hc
    obtain ⟨fs,hhead,hfs,-⟩ := hprogress.complete hc
    rw [hfs,append_assoc] at hsplit
    obtain ⟨-,hnil⟩ := wireInstruction_unique hes.delimited hhead.delimited hes.ne_nil
      hhead.ne_nil ((append_nil _).trans hsplit)
    exact (append_eq_nil_iff.mp hnil.symm).2
  · intro hb
    rw [hb,append_nil] at hsplit
    rcases hsettled with hc | ⟨hactive',hstalled'⟩
    · exact hc
    · obtain ⟨q,-,hq,hfeed,-⟩ := hprogress.stalled_feed hactive' hstalled'
      rw [←hsplit] at hfeed
      rw [hfeed] at hwhole
      exact absurd hwhole hq.1

/-- Nothing is found in no bytes where what was received is no error. -/
theorem stalled_of_nil (h : Progress (locals.begunAt start) front done [] back received)
    (hactive : locals.read.parser.toGuacParser.Active)
    (hok : (feed guacParserAlloc 0 received).parser.state≠.error) : locals.read.Stalled := by
  have hcall : locals.read.call=guacParserAppend locals.read.parser.toGuacParser
      (front.length+done.length) [] := h.call_eq
  have hle := (guacParserAppend_within hactive.1 (front.length+done.length) []).parsed_le
  rw [←hcall] at hle
  refine ⟨Nat.le_zero.mp hle,fun herr => hok (h.outcome.error_iff.mpr ?_)⟩
  rw [hcall] at herr
  exact feed_of_error hactive herr

/-- A call that is given a piece takes as much of it as there is room for. -/
theorem insParserRead_begin (hes : WithinLimits es) (h : Following ins received)
    {piece : List UInt8} (hpiece : piece≠[])
    (hsplit : wireInstruction es=received++(piece++b)) :
    ∃ settled start front done unparsed back,
      insParserRead (ins.withData piece)=insLoop settled ∧ settled.Settled ∧
      Progress (settled.begunAt start) front done unparsed back
        (received++piece.take (instructionbufSize-ins.parser.unparsedEnd)) ∧
      (settled.read.parser.state=.complete ↔
        piece.length ≤ instructionbufSize-ins.parser.unparsedEnd ∧ b=[]) ∧
      start ≤ ins.parser.unparsedEnd ∧ (received=[] → start=ins.parser.unparsedEnd) ∧
      settled.read.instrStart=ins.parser.unparsedEnd ∧
      settled.read.unparsedEnd=min instructionbufSize (ins.parser.unparsedEnd+piece.length) ∧
      settled.data=piece.drop (instructionbufSize-ins.parser.unparsedEnd) ∧
      settled.handled=ins.handled ∧ settled.dangling=false ∧
      ins.parser.elementv <+: settled.read.parser.elementv := by
  obtain ⟨front,done,back,hprogress⟩ := h.progress
  have hroom := h.room
  have hends : ins.parser.unparsedStart=ins.parser.unparsedEnd :=
    hprogress.unparsedStart.trans hprogress.unparsedEnd.symm
  have hbehind := hprogress.unparsedEnd
  have hlength := hprogress.length
  let locals : InsLocals := ⟨⟨ins.parser,ins.parser.unparsedStart,ins.parser.unparsedEnd,
    ins.parser.unparsedStart⟩,ins.dangling,ins.handled,piece⟩
  have hlocals : Progress (locals.begunAt front.length) front done [] back received := hprogress
  have hstalled : locals.read.Stalled :=
    stalled_of_nil hlocals h.active (hes.prefix_active hsplit (by simp [hpiece])).2
  have hmade : locals.append.makeRoom=some locals := by
    rw [append_of_stalled hlocals h.active hstalled,InsLocals.makeRoom,if_neg (Nat.ne_of_lt hroom)]
  have hbytes : locals.fill.1=piece.take (instructionbufSize-ins.parser.unparsedEnd) := rfl
  have hsome : locals.fill.1≠[] := by
    rw [hbytes,Ne,take_eq_nil_iff]
    rintro (hzero | hnil)
    · omega
    · exact hpiece hnil
  obtain ⟨settled,done',unparsed',back',hrounds,hsettled,hprogress',hcomplete⟩ :=
    fill_settle hes hlocals h.active hstalled
      (b := piece.drop (instructionbufSize-ins.parser.unparsedEnd)++b)
      (by rw [hbytes,append_assoc,←append_assoc (piece.take _),take_append_drop,
        hsplit])
  refine ⟨settled,front.length,front,done',unparsed',back',?_,hsettled,hprogress',?_,?_,
    ?_,?_,?_,hrounds.data,hrounds.handled,hrounds.dangling.trans h.known,hrounds.elementv⟩
  · exact (insLoop_fill h.active hstalled hmade hsome).trans hrounds.loop
  · rw [hcomplete,append_eq_nil_iff,drop_eq_nil_iff]
  · dsimp only at hbehind
    omega
  · intro hnil
    rw [hnil,length_nil] at hlength
    dsimp only at hbehind
    rw [length_nil] at hbehind
    omega
  · exact hrounds.instrStart.trans hends
  · rw [hrounds.unparsedEnd]
    change ins.parser.unparsedEnd+(piece.take (instructionbufSize-ins.parser.unparsedEnd)).length=_
    rw [length_take]
    omega

/-- How far the buffer is filled behind a piece. -/
def filledAfter (filled : ℕ) (piece : List UInt8) : ℕ :=
  if filled+piece.length < instructionbufSize then filled+piece.length else piece.length

/-- What is handled and what follows when a piece is parsed that the given bytes follow. -/
structure ParsedPiece (es : List Element) (ins : InsTransVideo) (received piece b : List UInt8)
    (result : InsResult) : Prop where
  within : b≠[]→Parsed result ins.handled (received++piece)
    (filledAfter ins.parser.unparsedEnd piece)
  complete : b=[]→Parsed result (ins.handled++[some (instructionOf es)]) []
    (filledAfter ins.parser.unparsedEnd piece)

/-- The end of a call that has parsed its piece. -/
theorem insLoop_drained (hes : WithinLimits es) (hsplit : wireInstruction es=received++b)
    (hsemicolon : received=a++[59]) (hsettled : locals.Settled)
    (h : Progress (locals.begunAt start) front done unparsed back received)
    (hcomplete : locals.read.parser.state=.complete ↔ b=[]) (hknown : locals.dangling=false)
    (hdata : locals.data=[])
    (hroom : locals.read.unparsedEnd < instructionbufSize ∨ locals.read.instrStart≠0 ∧
      locals.read.instrStart≤locals.read.unparsedEnd ∧
      (locals.read.instrStart ≤ start ∨ b=[])) {filled : ℕ}
    (hfilled : filled=if locals.read.unparsedEnd < instructionbufSize then
      locals.read.unparsedEnd else locals.read.unparsedEnd-locals.read.instrStart) :
    (b≠[]→Parsed (insLoop locals) locals.handled received filled) ∧ (b=[] →
        Parsed (insLoop locals) (locals.handled++[some (instructionOf es)]) [] filled) := by
  rw [hfilled]
  constructor
  · intro hb
    obtain ⟨hactive,hstalled⟩ := hsettled.resolve_left fun hc => hb (hcomplete.mp hc)
    rw [hsemicolon,append_assoc] at hsplit
    rw [hsemicolon] at h ⊢
    exact insLoop_within hes hsplit hb h hactive hstalled hknown hdata
      (hroom.imp_right fun hshift => ⟨hshift.1,hshift.2.2.resolve_right hb⟩)
  · intro hb
    rw [hb,append_nil] at hsplit
    rw [←hsplit] at h
    exact insLoop_complete hes h (hcomplete.mpr hb) hknown hdata
      (hroom.imp_right fun hshift => ⟨hshift.1,hshift.2.1⟩)

section

variable (hes : WithinLimits es) (h : Following ins received)
  (hshort : (a++[59]).length < instructionbufSize)
  (hsplit : wireInstruction es=received++((a++[59])++b))

include hes h hshort hsplit

/-- A piece that does not run over the end of the buffer is taken at once. -/
theorem insParserRead_taken (hfit : ins.parser.unparsedEnd+(a++[59]).length ≤ instructionbufSize)
    (hkept : received=[] ∨ ins.parser.unparsedEnd+(a++[59]).length < instructionbufSize ∨ b=[]) :
    ParsedPiece es ins received (a++[59]) b (insParserRead (ins.withData (a++[59]))) := by
  obtain ⟨settled,start,front,done,unparsed,back,hloop,hsettled,hprogress,hcomplete,hle,
    hbegins,hinstr,hend,hdata,hhandled,hdangling,-⟩ :=
    insParserRead_begin hes h (by simp) hsplit
  have hroom := h.room
  have hsemicolon : received++(a++[59])=(received++a)++[59] := (append_assoc ..).symm
  rw [take_of_length_le (by omega)] at hprogress
  rw [drop_of_length_le (by omega)] at hdata
  have hshift : settled.read.unparsedEnd < instructionbufSize ∨ settled.read.instrStart≠0 ∧
      settled.read.instrStart ≤ settled.read.unparsedEnd ∧
      (settled.read.instrStart ≤ start ∨ b=[]) := by
    rcases hkept with hnil | hlt | hb
    · have hstart := hbegins hnil
      omega
    · omega
    · by_cases hlt : settled.read.unparsedEnd < instructionbufSize
      · exact Or.inl hlt
      · exact Or.inr ⟨by omega,by omega,Or.inr hb⟩
  have hfilled : filledAfter ins.parser.unparsedEnd (a++[59])=
      if settled.read.unparsedEnd < instructionbufSize then settled.read.unparsedEnd
      else settled.read.unparsedEnd-settled.read.instrStart := by
    rw [filledAfter,hend,hinstr]
    split_ifs <;> omega
  obtain ⟨hwithin,hwhole⟩ := insLoop_drained hes (hsplit.trans (append_assoc ..).symm)
    hsemicolon hsettled hprogress (hcomplete.trans (and_iff_right (by omega))) hdangling hdata
    hshift hfilled
  rw [hhandled] at hwithin hwhole
  rw [hloop]
  exact ⟨hwithin,hwhole⟩

/-- The buffer is shifted before the rest of a piece is taken that begins an instruction
and runs over the end of the buffer. -/
theorem insParserRead_shifted (hnil : received=[])
    (hlong : instructionbufSize < ins.parser.unparsedEnd+(a++[59]).length) :
    ParsedPiece es ins received (a++[59]) b (insParserRead (ins.withData (a++[59]))) := by
  obtain ⟨settled,start,front,done,unparsed,back,hloop,hsettled,hprogress,hcomplete,hle,
    hbegins,hinstr,hend,hdata,hhandled,hdangling,-⟩ :=
    insParserRead_begin hes h (by simp) hsplit
  have hroom := h.room
  have hsemicolon : received++(a++[59])=(received++a)++[59] := (append_assoc ..).symm
  have hstart := hbegins hnil
  obtain ⟨hactive,hstalled⟩ := hsettled.resolve_left fun hc => by
    have hle := (hcomplete.mp hc).1
    omega
  obtain ⟨room,start',front',back',hmade,hprogress',hactive',hstalled',hfilled,-,
    hsame,hhandled',hdangling'⟩ := makeRoom_known hprogress hactive hstalled (by omega)
  rw [if_neg (by omega),hend,hinstr] at hfilled
  have hrest : room.data.length ≤ instructionbufSize-room.read.unparsedEnd := by
    rw [hsame,hdata,length_drop]
    omega
  have hbytes : room.fill.1=(a++[59]).drop (instructionbufSize-ins.parser.unparsedEnd) := by
    rw [←hdata,←hsame]
    exact take_of_length_le hrest
  have hempty : room.fill.2.data=[] := drop_of_length_le hrest
  have hwhole : received++(a++[59]).take (instructionbufSize-ins.parser.unparsedEnd)++
      room.fill.1=received++(a++[59]) := by
    rw [hbytes,append_assoc,take_append_drop]
  obtain ⟨settled',done',unparsed',back'',hrounds,hsettled',hprogress'',hcomplete'⟩ :=
    fill_settle hes hprogress' hactive' hstalled'
      (hsplit.trans (by rw [hwhole]; exact (append_assoc ..).symm))
  have hne : room.fill.1≠[] := by
    rw [hbytes,Ne,drop_eq_nil_iff]
    omega
  have hend' : settled'.read.unparsedEnd=(a++[59]).length := by
    rw [hrounds.unparsedEnd]
    change room.read.unparsedEnd+room.fill.1.length=_
    rw [hbytes,length_drop,hfilled]
    omega
  have hfilled' : filledAfter ins.parser.unparsedEnd (a++[59])=
      if settled'.read.unparsedEnd < instructionbufSize then settled'.read.unparsedEnd
      else settled'.read.unparsedEnd-settled'.read.instrStart := by
    rw [filledAfter,if_neg (by omega),hend',if_pos hshort]
  rw [hwhole] at hprogress''
  have hparsed := insLoop_drained hes (hsplit.trans (append_assoc ..).symm) hsemicolon
    hsettled' hprogress'' hcomplete' (hrounds.dangling.trans (hdangling'.trans hdangling))
    (hrounds.data.trans hempty) (Or.inl (by omega)) hfilled'
  rw [←hrounds.loop,←insLoop_fill hactive hstalled hmade hne,←hloop,
    hrounds.handled.trans (hhandled'.trans hhandled)] at hparsed
  exact ⟨hparsed.1,hparsed.2⟩

end

/-- A call parses its piece, and loses nothing, if the piece begins the instruction or
ends before the end of the buffer does, or ends the instruction there. -/
theorem insParserRead_piece (hes : WithinLimits es)
    (hlen : (wireInstruction es).length < instructionbufSize) (h : Following ins received)
    (hsplit : wireInstruction es=received++((a++[59])++b))
    (hkept : received=[] ∨ ins.parser.unparsedEnd+(a++[59]).length < instructionbufSize ∨
      ins.parser.unparsedEnd+(a++[59]).length=instructionbufSize ∧ b=[]) :
    ParsedPiece es ins received (a++[59]) b (insParserRead (ins.withData (a++[59]))) := by
  have hshort : (a++[59]).length < instructionbufSize := by
    rw [hsplit,length_append,length_append] at hlen
    omega
  rcases Nat.lt_or_ge instructionbufSize (ins.parser.unparsedEnd+(a++[59]).length) with
    hlong | hfit
  · refine insParserRead_shifted hes h hshort hsplit ?_ hlong
    rcases hkept with hnil | hlt | ⟨heq,-⟩
    · exact hnil
    · omega
    · omega
  · exact insParserRead_taken hes h hshort hsplit hfit
      (hkept.imp_right fun hend => hend.imp_right fun hlast => hlast.2)

/-- A call loses the instruction if its piece does not begin it and does not end before
the end of the buffer does, nor ends the instruction there. -/
theorem insParserRead_lost (hes : WithinLimits es) (h : Following ins received) {piece : List UInt8}
    (hpiece : piece≠[]) (hsplit : wireInstruction es=received++(piece++b))
    (hbegun : received≠[]) (hend : instructionbufSize ≤ ins.parser.unparsedEnd+piece.length)
    (hlast : b=[] → instructionbufSize < ins.parser.unparsedEnd+piece.length) {n : ℕ}
    (hn : ins.handled.length<n) :
    Lost n (insParserRead (ins.withData piece)).ins.handled
      (insParserRead (ins.withData piece)).ins.dangling := by
  obtain ⟨settled,start,front,done,unparsed,back,hloop,hsettled,hprogress,hcomplete,-,-,
    hinstr,hfilled,hdata,hhandled,hdangling,helementv⟩ :=
    insParserRead_begin hes h hpiece hsplit
  have hroom := h.room
  have hfull : settled.read.unparsedEnd=instructionbufSize := by omega
  obtain ⟨hactive,hstalled⟩ := hsettled.resolve_left fun hc => by
    obtain ⟨hle,hb⟩ := hcomplete.mp hc
    have hlt := hlast hb
    omega
  have hbefore : ∃ element∈settled.read.parser.elementv, element<settled.read.instrStart := by
    obtain ⟨element,helement,hlt⟩ := h.begun hbegun
    exact ⟨element,helementv.subset helement,by rw [hinstr]; exact hlt⟩
  have hne : settled.read.instrStart≠0 := by
    obtain ⟨element,-,hlt⟩ := hbefore
    omega
  obtain ⟨room,hroom⟩ : ∃ room, settled.makeRoom=some room := by
    rw [InsLocals.makeRoom,if_pos hfull,if_pos hne]
    exact ⟨_,rfl⟩
  have hlost := makeRoom_lost (by rw [hhandled]; exact hn) hfull hbefore hroom
  rw [←append_of_stalled hprogress hactive hstalled] at hroom
  rw [hloop]
  by_cases hbytes : room.fill.1=[]
  · rw [insLoop_finish hactive hstalled hroom hbytes]
    exact hlost
  · rw [insLoop_fill hactive hstalled hroom hbytes]
    exact Lost.insLoop hlost

end GuacServer.EncoderParser
