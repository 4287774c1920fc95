import GuacServer.StateRuns
import GuacServer.UserHandlers

/-!
# The lifecycle of streams from a user

The instructions that open, use and end streams from a user, with a record of
the handlers they call and of the streams they open and close. Without the
record they are the handlers of these instructions. A stream that is opened while
it is open is closed first, so that openings and closings of a place alternate,
and every closing calls the end handler that was installed.
-/

namespace GuacServer.InputStreams

open Unicode UserStreams UserHandlers BlobTransport StateRuns

variable {H : Type}

/-- What happens to streams, and the handlers that are called. -/
inductive StreamEvent (H : Type)
  | called (handler : H) (call : HandlerCall)
  | opened (stream : Fin guacUserMaxStreams)
  /-- An open stream is closed that has this end handler. -/
  | closed (stream : Fin guacUserMaxStreams) (endHandler : Option H)

/-- A user and the record of its streams. -/
structure TracedUser (H : Type) where
  user : GuacUser H
  /-- The record. -/
  trace : List (StreamEvent H)

/-- Handlers that do not change which streams are open. Only the instruction
handlers assign the index of a stream. -/
structure StreamEnvironment (H : Type) extends Environment H where
  /-- A call leaves the index of every stream from the user. -/
  keeps_index : ∀ handler handlerCall user stream,
    ((call handler handlerCall user).2.inputStreams.get stream).index=
      (user.inputStreams.get stream).index

/-- Something is recorded. -/
def TracedUser.record (event : StreamEvent H) (traced : TracedUser H) : TracedUser H :=
  { traced with trace := traced.trace++[event] }

/-- A stream from the user is stored. -/
def storeStream (stream : Fin guacUserMaxStreams) (value : GuacStream H) (user : GuacUser H) :
    GuacUser H :=
  { user with inputStreams := user.inputStreams.set stream value stream.isLt }

/-- A call of a handler is recorded. -/
def callHandler (env : Environment H) (handler : H) (call : HandlerCall) (traced : TracedUser H) :
    ℤ×TracedUser H :=
  ((env.call handler call traced.user).1,
    ⟨(env.call handler call traced.user).2,traced.trace++[.called handler call]⟩)

/-- The end handler of a stream, or else that of the user. -/
def installedEndHandler (env : Environment H) (stream : Fin guacUserMaxStreams)
    (user : GuacUser H) : Option H :=
  (user.inputStreams.get stream).endHandler <|> env.handlers.endHandler

/-- The stream is closed and its end handler called, as in __guac_handle_end and
__init_input_stream. -/
def tracedEnd (env : Environment H) (stream : Fin guacUserMaxStreams) (traced : TracedUser H) :
    ℤ×TracedUser H :=
  let endHandler := installedEndHandler env stream traced.user
  let traced := traced.record (.closed stream endHandler)
  match endHandler with
  | some handler => callHandler env handler (.ended stream) traced
  | none => (0,traced)

/-- __init_input_stream. -/
def tracedInit (env : Environment H) (index : ℤ) (traced : TracedUser H) :
    Option (Fin guacUserMaxStreams)×TracedUser H :=
  match getInputStream index traced.user with
  | (none,user) => (none,{ traced with user := user })
  | (some stream,user) =>
    let traced := { traced with user := user }
    let traced :=
      if (user.inputStreams.get stream).index≠guacUserClosedStreamIndex then
        (tracedEnd env stream traced).2
      else traced
    let user := storeStream stream ⟨index,none,none,none⟩ traced.user
    (some stream,{ traced with user := user }.record (.opened stream))

/-- A handler of an instruction that keeps the record. -/
abbrev TracedHandler (H : Type) :=
  Environment H→List (List UInt8)→TracedUser H→Option (ℤ×TracedUser H)

/-- An ack sent to the user. -/
def TracedUser.sendAck (index : ℤ) (error : List UInt8) (status : ℤ) (traced : TracedUser H) :
    TracedUser H :=
  { traced with user := traced.user.sendAck index error status }

/-- The form of handlers that open a stream and pass it on to a handler of the
user. -/
def tracedOpen (handler : UserHandlers H→Option H) (count : ℕ) (unsupported : List UInt8) :
    TracedHandler H := fun env argv traced => do
  let streamIndex := atoi (← argument argv 0)
  match tracedInit env streamIndex traced with
  | (none,traced) => return (0,traced)
  | (some stream,traced) =>
    match handler env.handlers with
    | some handler => do
      let values ← arguments argv 1 count
      return callHandler env handler (.opened stream values) traced
    | none =>
      return (0,traced.sendAck (traced.user.inputStreams.get stream).index unsupported
        guacProtocolStatusUnsupported)

/-- __guac_handle_blob. -/
def tracedBlob : TracedHandler H := fun env argv traced => do
  match getOpenInputStream (atoi (← argument argv 0)) traced.user with
  | (none,user) => return (0,{ traced with user := user })
  | (some stream,user) =>
    let traced := { traced with user := user }
    match (user.inputStreams.get stream).blobHandler <|> env.handlers.blobHandler with
    | some handler => do
      let decoded := guacProtocolDecodeBase64 ((← argument argv 1)++[0])
      return callHandler env handler (.blob stream decoded.1 decoded.2) traced
    | none =>
      return (0,traced.sendAck (user.inputStreams.get stream).index
        (ascii "File transfer unsupported") guacProtocolStatusUnsupported)

/-- __guac_handle_end. -/
def tracedHandleEnd : TracedHandler H := fun env argv traced => do
  match getOpenInputStream (atoi (← argument argv 0)) traced.user with
  | (none,user) => return (0,{ traced with user := user })
  | (some stream,user) =>
    let (result,traced) := tracedEnd env stream { traced with user := user }
    let closed := { (traced.user.inputStreams.get stream) with index := guacUserClosedStreamIndex }
    return (result,{ traced with user := storeStream stream closed traced.user })

/-- __guac_handle_put. -/
def tracedPut : TracedHandler H := fun env argv traced => do
  match definedObject env (atoi (← argument argv 0)) with
  | none => return (0,traced)
  | some object =>
    match tracedInit env (atoi (← argument argv 1)) traced with
    | (none,traced) => return (0,traced)
    | (some stream,traced) =>
      match (env.objects.get object).putHandler <|> env.handlers.putHandler with
      | some handler => do
        let values ← arguments argv 2 2
        return callHandler env handler (.put object stream values) traced
      | none =>
        return (0,traced.sendAck (traced.user.inputStreams.get stream).index
          (ascii "Object write unsupported") guacProtocolStatusUnsupported)

/-- The instructions about streams from the user. -/
inductive StreamInstruction
  | file
  | pipe
  | argv
  | clipboard
  | audio
  | put
  | blob
  | ended
  deriving DecidableEq

/-- Their opcodes. -/
def StreamInstruction.opcode : StreamInstruction→List UInt8
  | .file => ascii "file"
  | .pipe => ascii "pipe"
  | .argv => ascii "argv"
  | .clipboard => ascii "clipboard"
  | .audio => ascii "audio"
  | .put => ascii "put"
  | .blob => ascii "blob"
  | .ended => ascii "end"

/-- Their handlers, with the record. -/
def StreamInstruction.handler : StreamInstruction→TracedHandler H
  | .file => tracedOpen UserHandlers.fileHandler 2 (ascii "File transfer unsupported")
  | .pipe => tracedOpen UserHandlers.pipeHandler 2 (ascii "Named pipes unsupported")
  | .argv => tracedOpen UserHandlers.argvHandler 2
      (ascii "Reconfiguring in-progress connections unsupported")
  | .clipboard => tracedOpen UserHandlers.clipboardHandler 1 (ascii "Clipboard unsupported")
  | .audio => tracedOpen UserHandlers.audioHandler 1 (ascii "Audio input unsupported")
  | .put => tracedPut
  | .blob => tracedBlob
  | .ended => tracedHandleEnd

/-- The record forgotten. -/
def forget (result : Option (ℤ×TracedUser H)) : Option (ℤ×GuacUser H) :=
  result.map fun r => (r.1,r.2.user)

/-- Ending a stream without the record. -/
theorem tracedEnd_user (env : Environment H) (stream : Fin guacUserMaxStreams)
    (traced : TracedUser H) :
    ((tracedEnd env stream traced).1,(tracedEnd env stream traced).2.user)=
      callEndHandler env stream traced.user := by
  have hget : traced.user.inputStreams[stream]=traced.user.inputStreams.get stream := rfl
  unfold tracedEnd callEndHandler installedEndHandler
  rw [hget]
  cases (traced.user.inputStreams.get stream).endHandler with
  | some handler => rfl
  | none => cases env.handlers.endHandler <;> rfl

/-- Initializing a stream without the record. -/
theorem tracedInit_user (env : Environment H) (index : ℤ) (traced : TracedUser H) :
    ((tracedInit env index traced).1,(tracedInit env index traced).2.user)=
      initInputStream env index traced.user := by
  unfold tracedInit initInputStream getInputStream
  cases validIndex guacUserMaxStreams index with
  | none => rfl
  | some stream =>
    have hget : traced.user.inputStreams[stream]=traced.user.inputStreams.get stream := rfl
    dsimp only
    rw [hget,←tracedEnd_user]
    by_cases hopen : (traced.user.inputStreams.get stream).index≠guacUserClosedStreamIndex
    · rw [if_pos hopen,if_pos hopen]
      rfl
    · rw [if_neg hopen,if_neg hopen]
      rfl

/-- Opening a stream without the record. -/
theorem tracedOpen_user (handler : UserHandlers H→Option H) (count : ℕ)
    (unsupported : List UInt8) (env : Environment H) (argv : List (List UInt8))
    (traced : TracedUser H) :
    forget (tracedOpen handler count unsupported env argv traced)=
      handleOpen handler count unsupported env argv traced.user := by
  unfold tracedOpen handleOpen
  cases argument argv 0 with
  | none => rfl
  | some value =>
    simp only [Option.bind_eq_bind,Option.bind_some,←tracedInit_user]
    cases tracedInit env (atoi value) traced with
    | mk stream traced' =>
      cases stream with
      | none => rfl
      | some stream =>
        cases handler env.handlers with
        | none => rfl
        | some handler =>
          dsimp only
          cases arguments argv 1 count <;> rfl

/-- A blob without the record. -/
theorem tracedBlob_user (env : Environment H) (argv : List (List UInt8)) (traced : TracedUser H) :
    forget (tracedBlob env argv traced)=guacHandleBlob env argv traced.user := by
  unfold tracedBlob guacHandleBlob
  cases argument argv 0 with
  | none => rfl
  | some value =>
    simp only [Option.bind_eq_bind,Option.bind_some]
    cases getOpenInputStream (atoi value) traced.user with
    | mk stream user =>
      cases stream with
      | none => rfl
      | some stream =>
        dsimp only
        cases (user.inputStreams.get stream).blobHandler <|> env.handlers.blobHandler with
        | none => rfl
        | some handler => cases argument argv 1 <;> rfl

/-- An end without the record. -/
theorem tracedHandleEnd_user (env : Environment H) (argv : List (List UInt8))
    (traced : TracedUser H) :
    forget (tracedHandleEnd env argv traced)=guacHandleEnd env argv traced.user := by
  unfold tracedHandleEnd guacHandleEnd
  cases argument argv 0 with
  | none => rfl
  | some value =>
    simp only [Option.bind_eq_bind,Option.bind_some]
    cases getOpenInputStream (atoi value) traced.user with
    | mk stream user =>
      cases stream with
      | none => rfl
      | some stream =>
        dsimp only
        have hend := tracedEnd_user env stream { traced with user := user }
        dsimp only at hend
        rw [←hend]
        rfl

/-- A put without the record. -/
theorem tracedPut_user (env : Environment H) (argv : List (List UInt8)) (traced : TracedUser H) :
    forget (tracedPut env argv traced)=guacHandlePut env argv traced.user := by
  unfold tracedPut guacHandlePut
  cases argument argv 0 with
  | none => rfl
  | some value =>
    simp only [Option.bind_eq_bind,Option.bind_some]
    cases definedObject env (atoi value) with
    | none => rfl
    | some object =>
      dsimp only
      cases argument argv 1 with
      | none => rfl
      | some index =>
        simp only [Option.bind_some,←tracedInit_user]
        cases tracedInit env (atoi index) traced with
        | mk stream traced' =>
          cases stream with
          | none => rfl
          | some stream =>
            dsimp only
            cases (env.objects.get object).putHandler <|> env.handlers.putHandler with
            | none => rfl
            | some handler =>
              dsimp only
              cases arguments argv 2 2 <;> rfl

/-- Without the record, instructions are handled as the map of their opcodes
says. -/
theorem handler_user (instruction : StreamInstruction) (env : Environment H)
    (argv : List (List UInt8)) (traced : TracedUser H) :
    forget (instruction.handler env argv traced)=
      guacUserCallOpcodeHandler instruction.opcode guacInstructionHandlerMap env argv
        traced.user := by
  cases instruction with
  | file => exact tracedOpen_user ..
  | pipe => exact tracedOpen_user ..
  | argv => exact tracedOpen_user ..
  | clipboard => exact tracedOpen_user ..
  | audio => exact tracedOpen_user ..
  | put => exact tracedPut_user ..
  | blob => exact tracedBlob_user ..
  | ended => exact tracedHandleEnd_user ..

/-- A stream is open. -/
def isOpen (user : GuacUser H) (stream : Fin guacUserMaxStreams) : Bool :=
  decide ((user.inputStreams.get stream).index≠guacUserClosedStreamIndex)

/-- Whether a stream is open after an event, if the event may happen: only a
closed stream is opened, and only an open one is closed or given blobs. -/
def follow (stream : Fin guacUserMaxStreams) : Option Bool→StreamEvent H→Option Bool
  | none, _ => none
  | some isOpen, .opened other =>
    if other=stream then if isOpen then none else some true else some isOpen
  | some isOpen, .closed other _ =>
    if other=stream then if isOpen then some false else none else some isOpen
  | some isOpen, .called _ (.blob other _ _) =>
    if other=stream then if isOpen then some true else none else some isOpen
  | some isOpen, .called _ _ => some isOpen

/-- The calls of end handlers. -/
def endCalls (trace : List (StreamEvent H)) : List (Fin guacUserMaxStreams×H) :=
  trace.filterMap fun event =>
    match event with
    | .called handler (.ended stream) => some (stream,handler)
    | _ => none

/-- The end handlers of the streams that were closed, where there was one. -/
def installedEnds (trace : List (StreamEvent H)) : List (Fin guacUserMaxStreams×H) :=
  trace.filterMap fun event =>
    match event with
    | .closed stream (some handler) => some (stream,handler)
    | _ => none

/-- What the record of a user says about its streams. -/
structure Lifecycle (traced : TracedUser H) : Prop where
  /-- Every stream was opened, given blobs and closed in turn, up to its present
  state. -/
  alternates : ∀ stream,
    traced.trace.foldl (follow stream) (some false)=some (isOpen traced.user stream)
  /-- The end handlers called are those of the streams closed. -/
  ended : endCalls traced.trace=installedEnds traced.trace

/-- A call that is neither of a blob handler nor of an end handler. -/
def Plain : HandlerCall→Prop
  | .blob _ _ _ => False
  | .ended _ => False
  | _ => True

variable {traced : TracedUser H} {stream : Fin guacUserMaxStreams} {env : StreamEnvironment H}
variable {argv : List (List UInt8)} {result : ℤ×TracedUser H}

/-- Events after which the record still says what it should. -/
theorem Lifecycle.append (h : Lifecycle traced) {user : GuacUser H} {events : List (StreamEvent H)}
    (halternates : ∀ stream, events.foldl (follow stream) (some (isOpen traced.user stream))=
      some (isOpen user stream)) (hended : endCalls events=installedEnds events) :
    Lifecycle ⟨user,traced.trace++events⟩ where
  alternates stream := by
    rw [List.foldl_append,h.alternates,halternates]
  ended := by
    have hbefore := h.ended
    unfold endCalls installedEnds at hbefore hended ⊢
    rw [List.filterMap_append,List.filterMap_append,hbefore,hended]

/-- Streams that are as open as before. -/
theorem isOpen_congr {user user' : GuacUser H}
    (h : (user'.inputStreams.get stream).index=(user.inputStreams.get stream).index) :
    isOpen user' stream=isOpen user stream := by
  unfold isOpen
  rw [h]

/-- Calls of other handlers. -/
theorem Lifecycle.called (h : Lifecycle traced) (env : StreamEnvironment H) (handler : H)
    {call : HandlerCall} (hplain : Plain call) :
    Lifecycle (callHandler env.toEnvironment handler call traced).2 := by
  have hkeeps := env.keeps_index handler call traced.user
  refine h.append (fun stream => ?_) ?_
  · rw [isOpen_congr (hkeeps stream)]
    cases call <;> first | rfl | exact hplain.elim
  · cases call <;> first | rfl | exact hplain.elim

/-- Blobs for an open stream. -/
theorem Lifecycle.blob (h : Lifecycle traced) (env : StreamEnvironment H) (handler : H)
    (hopen : isOpen traced.user stream=true) (data : List UInt8) (length : ℕ) :
    Lifecycle (callHandler env.toEnvironment handler (.blob stream data length) traced).2 := by
  have hkeeps := env.keeps_index handler (.blob stream data length) traced.user
  refine h.append (fun other => ?_) rfl
  rw [isOpen_congr (hkeeps other)]
  show (if stream=other then if isOpen traced.user other then some true else none
    else some (isOpen traced.user other))=some (isOpen traced.user other)
  by_cases heq : stream=other
  · rw [if_pos heq,←heq,hopen]
    rfl
  · rw [if_neg heq]

/-- Acks change nothing. -/
theorem Lifecycle.sendAck (h : Lifecycle traced) (index : ℤ) (error : List UInt8) (status : ℤ) :
    Lifecycle (traced.sendAck index error status) :=
  ⟨h.alternates,h.ended⟩

/-- What ending a stream records, and that it leaves the indices. -/
theorem tracedEnd_trace (env : StreamEnvironment H) (stream : Fin guacUserMaxStreams)
    (traced : TracedUser H) :
    ∃ events, (tracedEnd env.toEnvironment stream traced).2.trace=traced.trace++events ∧
      (∀ other isOpen, events.foldl (follow other) (some isOpen)=
        if stream=other then if isOpen then some false else none else some isOpen) ∧
      endCalls events=installedEnds events ∧
      ∀ other, ((tracedEnd env.toEnvironment stream traced).2.user.inputStreams.get other).index=
        (traced.user.inputStreams.get other).index := by
  unfold tracedEnd
  cases hhandler : installedEndHandler env.toEnvironment stream traced.user with
  | none =>
    refine ⟨[.closed stream none],rfl,fun other isOpen => rfl,rfl,fun other => rfl⟩
  | some handler =>
    refine ⟨[.closed stream (some handler),.called handler (.ended stream)],?_,
      fun other isOpen => ?_,rfl,fun other => env.keeps_index _ _ _ _⟩
    · exact List.append_assoc ..
    · rw [List.foldl_cons,List.foldl_cons,List.foldl_nil]
      show follow other (if stream=other then if isOpen then some false else none
        else some isOpen) _ = _
      split
      · split <;> rfl
      · rfl

/-- Whether streams are open after one of them was stored. -/
theorem isOpen_set (user : GuacUser H) (stream : Fin guacUserMaxStreams) (value : GuacStream H)
    (other : Fin guacUserMaxStreams) :
    isOpen (storeStream stream value user) other=
      if stream=other then decide (value.index≠guacUserClosedStreamIndex)
      else isOpen user other := by
  unfold isOpen storeStream
  dsimp only
  by_cases heq : stream=other
  · rw [if_pos heq,←heq,get_set_self]
  · rw [if_neg heq,get_set_of_ne fun h => heq h.symm]

variable {index : ℤ}

/-- A valid index is not that of a closed stream. -/
theorem validIndex_ne_closed {size : ℕ} {place : Fin size}
    (h : validIndex size index=some place) : index≠guacUserClosedStreamIndex := by
  unfold validIndex at h
  split at h
  · next hvalid =>
    intro hclosed
    rw [hclosed] at hvalid
    exact absurd hvalid.1 (by decide)
  · cases h

variable {value : GuacStream H}

/-- An open stream is ended and then closed. -/
theorem Lifecycle.closed (h : Lifecycle traced) (env : StreamEnvironment H)
    (hopen : isOpen traced.user stream=true) (hvalue : value.index=guacUserClosedStreamIndex) :
    Lifecycle ⟨storeStream stream value (tracedEnd env.toEnvironment stream traced).2.user,
      (tracedEnd env.toEnvironment stream traced).2.trace⟩ := by
  obtain ⟨events,htrace,hfollow,hended,hindex⟩ := tracedEnd_trace env stream traced
  rw [htrace]
  refine h.append (fun other => ?_) hended
  rw [hfollow,isOpen_set,isOpen_congr (hindex other),hvalue]
  by_cases heq : stream=other
  · rw [if_pos heq,if_pos heq,←heq,hopen]
    rfl
  · rw [if_neg heq,if_neg heq]

/-- A stream that was open is ended and opened anew. -/
theorem Lifecycle.reopened (h : Lifecycle traced) (env : StreamEnvironment H)
    (hopen : isOpen traced.user stream=true) (hvalue : value.index≠guacUserClosedStreamIndex) :
    Lifecycle ⟨storeStream stream value (tracedEnd env.toEnvironment stream traced).2.user,
      (tracedEnd env.toEnvironment stream traced).2.trace++[.opened stream]⟩ := by
  obtain ⟨events,htrace,hfollow,hended,hindex⟩ := tracedEnd_trace env stream traced
  rw [htrace,List.append_assoc]
  refine h.append (fun other => ?_) ?_
  · rw [List.foldl_append,hfollow,isOpen_set,isOpen_congr (hindex other),List.foldl_cons,
      List.foldl_nil]
    by_cases heq : stream=other
    · rw [if_pos heq,if_pos heq,←heq,hopen,decide_eq_true hvalue]
      exact if_pos rfl
    · rw [if_neg heq,if_neg heq]
      exact if_neg heq
  · unfold endCalls installedEnds at hended ⊢
    rw [List.filterMap_append,List.filterMap_append,hended]
    rfl

/-- A stream that was closed is opened. -/
theorem Lifecycle.opened (h : Lifecycle traced) (hclosed : isOpen traced.user stream=false)
    (hvalue : value.index≠guacUserClosedStreamIndex) :
    Lifecycle ⟨storeStream stream value traced.user,traced.trace++[.opened stream]⟩ := by
  refine h.append (fun other => ?_) rfl
  rw [isOpen_set,List.foldl_cons,List.foldl_nil]
  by_cases heq : stream=other
  · rw [if_pos heq,←heq,hclosed,decide_eq_true hvalue]
    exact if_pos rfl
  · rw [if_neg heq]
    exact if_neg heq

/-- Initializing a stream. -/
theorem Lifecycle.init (h : Lifecycle traced) (env : StreamEnvironment H) (index : ℤ) :
    Lifecycle (tracedInit env.toEnvironment index traced).2 := by
  unfold tracedInit getInputStream
  cases hvalid : validIndex guacUserMaxStreams index with
  | none => exact h.sendAck index _ _
  | some stream =>
    dsimp only
    have hvalue := validIndex_ne_closed hvalid
    by_cases hopen : (traced.user.inputStreams.get stream).index≠guacUserClosedStreamIndex
    · rw [if_pos hopen]
      exact h.reopened env (decide_eq_true hopen) hvalue
    · rw [if_neg hopen]
      exact h.opened (decide_eq_false hopen) hvalue

/-- Opening a stream. -/
theorem lifecycle_open {handler : UserHandlers H→Option H} {count : ℕ} {unsupported : List UInt8}
    (h : Lifecycle traced)
    (hrun : tracedOpen handler count unsupported env.toEnvironment argv traced=some result) :
    Lifecycle result.2 := by
  unfold tracedOpen at hrun
  cases hindex : argument argv 0 with
  | none =>
    rw [hindex] at hrun
    cases hrun
  | some value =>
    have hinit := h.init env (atoi value)
    simp only [hindex,Option.bind_eq_bind,Option.bind_some] at hrun
    generalize tracedInit env.toEnvironment (atoi value) traced=initialized at hrun hinit
    obtain ⟨stream,traced'⟩ := initialized
    cases stream with
    | none =>
      cases hrun
      exact hinit
    | some stream =>
      cases hhandler : handler env.handlers with
      | none =>
        simp only [hhandler] at hrun
        cases hrun
        exact hinit.sendAck _ _ _
      | some handler =>
        simp only [hhandler] at hrun
        cases hvalues : arguments argv 1 count with
        | none =>
          rw [hvalues] at hrun
          cases hrun
        | some values =>
          rw [hvalues] at hrun
          cases hrun
          exact hinit.called env handler trivial

/-- A stream that is found is open. -/
theorem isOpen_of_openInputStream {user : GuacUser H} (h : openInputStream user index=some stream) :
    isOpen user stream=true := by
  unfold openInputStream at h
  split at h
  · cases h
  · split at h
    · cases h
    · next hopen =>
      cases h
      exact decide_eq_true hopen

/-- A blob. -/
theorem lifecycle_blob (h : Lifecycle traced)
    (hrun : tracedBlob env.toEnvironment argv traced=some result) : Lifecycle result.2 := by
  unfold tracedBlob at hrun
  cases hindex : argument argv 0 with
  | none =>
    rw [hindex] at hrun
    cases hrun
  | some value =>
    simp only [hindex,Option.bind_eq_bind,Option.bind_some] at hrun
    cases hopen : openInputStream traced.user (atoi value) with
    | none =>
      rw [getOpenInputStream_none hopen] at hrun
      cases hrun
      exact h.sendAck _ _ _
    | some stream =>
      rw [getOpenInputStream_some hopen] at hrun
      dsimp only at hrun
      cases hhandler : (traced.user.inputStreams.get stream).blobHandler <|>
          env.handlers.blobHandler with
      | none =>
        rw [hhandler] at hrun
        cases hrun
        exact h.sendAck _ _ _
      | some handler =>
        rw [hhandler] at hrun
        cases hdata : argument argv 1 with
        | none =>
          rw [hdata] at hrun
          cases hrun
        | some data =>
          rw [hdata] at hrun
          cases hrun
          exact h.blob env handler (isOpen_of_openInputStream hopen) _ _

/-- An end. -/
theorem lifecycle_end (h : Lifecycle traced)
    (hrun : tracedHandleEnd env.toEnvironment argv traced=some result) : Lifecycle result.2 := by
  unfold tracedHandleEnd at hrun
  cases hindex : argument argv 0 with
  | none =>
    rw [hindex] at hrun
    cases hrun
  | some value =>
    simp only [hindex,Option.bind_eq_bind,Option.bind_some] at hrun
    cases hopen : openInputStream traced.user (atoi value) with
    | none =>
      rw [getOpenInputStream_none hopen] at hrun
      cases hrun
      exact h.sendAck _ _ _
    | some stream =>
      rw [getOpenInputStream_some hopen] at hrun
      cases hrun
      exact h.closed env (isOpen_of_openInputStream hopen) rfl

/-- A put. -/
theorem lifecycle_put (h : Lifecycle traced)
    (hrun : tracedPut env.toEnvironment argv traced=some result) : Lifecycle result.2 := by
  unfold tracedPut at hrun
  cases hobject : argument argv 0 with
  | none =>
    rw [hobject] at hrun
    cases hrun
  | some value =>
    simp only [hobject,Option.bind_eq_bind,Option.bind_some] at hrun
    cases hdefined : definedObject env.toEnvironment (atoi value) with
    | none =>
      rw [hdefined] at hrun
      cases hrun
      exact h
    | some object =>
      rw [hdefined] at hrun
      cases hindex : argument argv 1 with
      | none =>
        rw [hindex] at hrun
        cases hrun
      | some value =>
        have hinit := h.init env (atoi value)
        simp only [hindex,Option.bind_some] at hrun
        generalize tracedInit env.toEnvironment (atoi value) traced=initialized at hrun hinit
        obtain ⟨stream,traced'⟩ := initialized
        cases stream with
        | none =>
          cases hrun
          exact hinit
        | some stream =>
          dsimp only at hrun
          cases hhandler : (env.objects.get object).putHandler <|> env.handlers.putHandler with
          | none =>
            rw [hhandler] at hrun
            cases hrun
            exact hinit.sendAck _ _ _
          | some handler =>
            rw [hhandler] at hrun
            cases hvalues : arguments argv 2 2 with
            | none =>
              simp only [hvalues] at hrun
              cases hrun
            | some values =>
              simp only [hvalues] at hrun
              cases hrun
              exact hinit.called env handler trivial

/-- An instruction as it is received, with the handlers there are then and all
elements of argv that are read. -/
structure ReceivedInstruction (H : Type) where
  /-- The handlers. -/
  env : StreamEnvironment H
  /-- The opcode. -/
  instruction : StreamInstruction
  /-- The arguments. -/
  argv : List (List UInt8)

/-- One instruction. -/
def streamStep (received : ReceivedInstruction H) (traced : TracedUser H) : Option (TracedUser H) :=
  (received.instruction.handler received.env.toEnvironment received.argv traced).map Prod.snd

/-- Without the record, a run is one of the handlers in the map of opcodes. -/
theorem streamRun_user (received : List (ReceivedInstruction H)) (traced : TracedUser H) :
    (run streamStep received traced).map TracedUser.user=
      run (fun r user => (guacUserCallOpcodeHandler r.instruction.opcode guacInstructionHandlerMap
        r.env.toEnvironment r.argv user).map Prod.snd) received traced.user := by
  induction received generalizing traced with
  | nil => rfl
  | cons r received ih =>
    rw [run,run,←handler_user,streamStep,forget]
    cases r.instruction.handler r.env.toEnvironment r.argv traced with
    | none => rfl
    | some result => exact ih result.2

/-- Every instruction keeps the lifecycle. -/
theorem streamStep_lifecycle {received : ReceivedInstruction H} {traced' : TracedUser H}
    (h : Lifecycle traced) (hstep : streamStep received traced=some traced') :
    Lifecycle traced' := by
  obtain ⟨result,hrun,rfl⟩ := Option.map_eq_some_iff.mp hstep
  obtain ⟨env,instruction,argv⟩ := received
  cases instruction with
  | file => exact lifecycle_open h hrun
  | pipe => exact lifecycle_open h hrun
  | argv => exact lifecycle_open h hrun
  | clipboard => exact lifecycle_open h hrun
  | audio => exact lifecycle_open h hrun
  | put => exact lifecycle_put h hrun
  | blob => exact lifecycle_blob h hrun
  | ended => exact lifecycle_end h hrun

/-- A user that has just been allocated, without any record. -/
def freshUser (timestampCurrent : ℤ) : TracedUser H := ⟨guacUserAlloc timestampCurrent,[]⟩

/-- All streams of a fresh user are closed. -/
theorem freshUser_lifecycle (timestampCurrent : ℤ) :
    Lifecycle (freshUser timestampCurrent : TracedUser H) where
  alternates stream := by
    have hclosed : isOpen (guacUserAlloc timestampCurrent : GuacUser H) stream=false := by
      simp [isOpen,guacUserAlloc,Vector.get,closedStream]
    exact congrArg some hclosed.symm
  ended := rfl

/-- The index of the stream that an instruction is about. A put names none if
its object is not defined. -/
def StreamInstruction.streamIndex (env : Environment H) (argv : List (List UInt8)) :
    StreamInstruction→Option ℤ
  | .put => do
    let object ← argument argv 0
    if (definedObject env (atoi object)).isSome then (argument argv 1).map atoi else none
  | _ => (argument argv 0).map atoi

/-- The index is not one that the instruction can use. -/
def StreamInstruction.Refuses (index : ℤ) (user : GuacUser H) : StreamInstruction→Prop
  | .blob => openInputStream user index=none
  | .ended => openInputStream user index=none
  | _ => validIndex guacUserMaxStreams index=none

/-- A stream with an invalid index is not initialized. -/
theorem tracedInit_none {env : Environment H} (h : validIndex guacUserMaxStreams index=none) :
    tracedInit env index traced=(none,traced.sendAck index (ascii "Invalid stream index")
      guacProtocolStatusClientBadRequest) := by
  unfold tracedInit getInputStream
  rw [h]
  rfl

/-- Streams with an invalid index are not opened. -/
theorem tracedOpen_refuses (handler : UserHandlers H→Option H) (count : ℕ)
    (unsupported : List UInt8) {env : Environment H}
    (hindex : (argument argv 0).map atoi=some index)
    (hinvalid : validIndex guacUserMaxStreams index=none) :
    tracedOpen handler count unsupported env argv traced=some (0,traced.sendAck index
      (ascii "Invalid stream index") guacProtocolStatusClientBadRequest) := by
  obtain ⟨value,hvalue,rfl⟩ := Option.map_eq_some_iff.mp hindex
  unfold tracedOpen
  simp only [hvalue,Option.bind_eq_bind,Option.bind_some,tracedInit_none hinvalid]
  rfl

/-- An index that cannot be used is answered with an ack, and no handler is
called. -/
theorem handler_refuses {env : Environment H} {instruction : StreamInstruction}
    (hindex : instruction.streamIndex env argv=some index)
    (hrefuses : instruction.Refuses index traced.user) :
    instruction.handler env argv traced=some (0,traced.sendAck index
      (ascii "Invalid stream index") guacProtocolStatusClientBadRequest) := by
  cases instruction with
  | file => exact tracedOpen_refuses _ _ _ hindex hrefuses
  | pipe => exact tracedOpen_refuses _ _ _ hindex hrefuses
  | argv => exact tracedOpen_refuses _ _ _ hindex hrefuses
  | clipboard => exact tracedOpen_refuses _ _ _ hindex hrefuses
  | audio => exact tracedOpen_refuses _ _ _ hindex hrefuses
  | blob =>
    obtain ⟨value,hvalue,rfl⟩ := Option.map_eq_some_iff.mp hindex
    show tracedBlob env argv traced=_
    unfold tracedBlob
    simp only [hvalue,Option.bind_eq_bind,Option.bind_some,getOpenInputStream_none hrefuses]
    rfl
  | ended =>
    obtain ⟨value,hvalue,rfl⟩ := Option.map_eq_some_iff.mp hindex
    show tracedHandleEnd env argv traced=_
    unfold tracedHandleEnd
    simp only [hvalue,Option.bind_eq_bind,Option.bind_some,getOpenInputStream_none hrefuses]
    rfl
  | put =>
    rw [StreamInstruction.streamIndex] at hindex
    obtain ⟨value,hvalue,hindex⟩ := Option.bind_eq_some_iff.mp hindex
    cases hdefined : definedObject env (atoi value) with
    | none =>
      rw [hdefined] at hindex
      cases hindex
    | some object =>
      rw [hdefined] at hindex
      obtain ⟨place,hplace,rfl⟩ := Option.map_eq_some_iff.mp hindex
      show tracedPut env argv traced=_
      unfold tracedPut
      simp only [hvalue,hdefined,hplace,Option.bind_eq_bind,Option.bind_some,
        tracedInit_none hrefuses]
      rfl

/-- After any sequence of instructions the openings and closings of every stream
alternate, blob handlers were called while it was open, and the end handlers
called are those installed at the closings. An index that cannot be used is
answered with an ack and no handler is called. -/
theorem inputStreams_lifecycle (timestampCurrent : ℤ) (received : List (ReceivedInstruction H))
    {traced : TracedUser H}
    (hrun : run streamStep received (freshUser timestampCurrent)=some traced) :
    Lifecycle traced ∧
      ∀ (env : Environment H) (instruction : StreamInstruction) (argv : List (List UInt8))
        (index : ℤ), instruction.streamIndex env argv=some index →
        instruction.Refuses index traced.user →
        instruction.handler env argv traced=some (0,traced.sendAck index
          (ascii "Invalid stream index") guacProtocolStatusClientBadRequest) :=
  ⟨run_visiting (fun h hstep _ => streamStep_lifecycle h hstep)
    (freshUser_lifecycle timestampCurrent) (fun _ _ _ _ => trivial) hrun,
    fun _ _ _ _ => handler_refuses⟩

/-- An environment in which every handler is installed and does nothing. -/
def quietEnvironment : StreamEnvironment Unit where
  handlers := ⟨some (),some (),some (),some (),some (),some (),some (),some (),some (),
    some (),some (),some (),some (),some ()⟩
  objects := Vector.replicate _ undefinedObject
  timestampCurrent := 0
  lastSentTimestamp := 0
  call := fun _ _ user => (0,user)
  keeps_index := fun _ _ _ _ => rfl

/-- A stream that is opened, opened again under the same index, and ended. -/
theorem inputStreams_lifecycle_reopened :
    ∃ traced, run streamStep [⟨quietEnvironment,.file,[ascii "5", [], []]⟩,
        ⟨quietEnvironment,.pipe,[ascii "5", [], []]⟩, ⟨quietEnvironment,.ended,[ascii "5"]⟩]
        (freshUser 0)=some traced ∧ Lifecycle traced :=
  ⟨_,rfl,(inputStreams_lifecycle 0 [⟨quietEnvironment,.file,[ascii "5",[],[]]⟩,
    ⟨quietEnvironment,.pipe,[ascii "5",[],[]]⟩,⟨quietEnvironment,.ended,[ascii "5"]⟩]
    rfl).1⟩

/-- A put on an object that is not defined is not answered, whatever the index
of its stream. -/
theorem put_unanswered : validIndex guacUserMaxStreams (atoi (ascii "64"))=none ∧
      ∃ traced, streamStep ⟨quietEnvironment,.put,[ascii "0", ascii "64", [], []]⟩
        (freshUser 0)=some traced ∧ traced.user.acks=[] :=
  ⟨rfl,_,rfl,rfl⟩

end GuacServer.InputStreams
