import GuacServer.BlobTransport
import GuacServer.UserStreams

/-!
# Handlers of user instructions and the arguments they read

The handlers of user-handlers.c, called through their maps by opcode. An
argument beyond argc has no defined value, and a handler that reads one has no
result. How many arguments a handler reads depends on the branch it takes; of
all handlers only that of the handshake size compares this with argc.
-/

namespace GuacServer.UserHandlers

open Unicode DecimalNumerals GuacServer.Parser ProtocolSend BlobTransport UserStreams

variable {H : Type}

/-- A value reduced to a signed 64-bit integer. -/
def wrap64 (x : ℤ) : ℤ := x.bmod (2^64)

/-- The value of a char, which is signed. -/
def charValue (c : UInt8) : ℤ := if c<128 then c.toNat else c.toNat-256

/-- The loop of __guac_parse_int. -/
def parseIntLoop : ℤ→ℤ→List UInt8→ℤ
  | sign, num, [] => wrap64 (num*sign)
  | sign, num, c::str =>
    if c=45 then parseIntLoop (-sign) num str
    else parseIntLoop sign (wrap64 (num*10+(charValue c-48))) str

/-- __guac_parse_int. -/
def guacParseInt (str : List UInt8) : ℤ := parseIntLoop 1 0 str

/-- White space before a number. -/
def IsSpace (c : UInt8) : Prop := c=32 ∨ 9≤c ∧ c≤13

instance : DecidablePred IsSpace := fun c =>
  inferInstanceAs (Decidable (c=32 ∨ 9≤c ∧ c≤13))

/-- The value of the digits at the head of a string, with a sign. -/
def signedNumeral (sign : ℤ) (str : List UInt8) : ℤ :=
  sign*numeral (str.takeWhile fun c => decide (IsDigit c))

/-- The number at the head of a string, as strtol reads it without a limit. -/
def leadingInteger (str : List UInt8) : ℤ :=
  match str.dropWhile fun c => decide (IsSpace c) with
  | 45::digits => signedNumeral (-1) digits
  | 43::digits => signedNumeral 1 digits
  | digits => signedNumeral 1 digits

/-- atoi, which is strtol, limited to the range of a long, as an int. -/
def atoi (str : List UInt8) : ℤ := wrap32 (max (-(2^63)) (min (2^63-1) (leadingInteger str)))

/-- An element of argv, which is defined below argc. -/
def argument (argv : List (List UInt8)) (i : ℕ) : Option (List UInt8) := argv[i]?

/-- Several elements of argv, from one on. -/
def arguments (argv : List (List UInt8)) (first : ℕ) : ℕ→Option (List (List UInt8))
  | 0 => some []
  | count+1 => do
    let value ← argument argv first
    let values ← arguments argv (first+1) count
    return value::values

/-- A handler of an instruction, given argv with as many elements as argc
says. -/
abbrev InstructionHandler (H : Type) :=
  Environment H→List (List UInt8)→GuacUser H→Option (ℤ×GuacUser H)

/-- The lag statistics that __guac_handle_sync updates for a sane timestamp. -/
def updateLag (timestampCurrent timestamp : ℤ) (user : GuacUser H) : GuacUser H :=
  if timestamp≥user.lastReceivedTimestamp then
    let frameDuration := wrap32 (wrap64 (timestampCurrent-timestamp))
    let processingLag :=
      if user.lastFrameDuration≠0 then max 0 (wrap32 (frameDuration-user.lastFrameDuration))
      else user.processingLag
    { user with
      lastReceivedTimestamp := timestamp
      processingLag := processingLag
      lastFrameDuration := wrap32 (frameDuration-processingLag) }
  else user

/-- __guac_handle_sync. -/
def guacHandleSync : InstructionHandler H := fun env argv user => do
  let timestamp := guacParseInt (← argument argv 0)
  if timestamp > env.lastSentTimestamp then return (-1,user)
  else
    let user := updateLag env.timestampCurrent timestamp user
    match env.handlers.syncHandler with
    | some handler => return env.call handler (.sync timestamp) user
    | none => return (0,user)

/-- The form of handlers that pass integers on to a handler of the user. -/
def handleEvent (handler : UserHandlers H→Option H) (count : ℕ) : InstructionHandler H :=
  fun env argv user =>
    match handler env.handlers with
    | some handler => do
      let values ← arguments argv 0 count
      return env.call handler (.event (values.map atoi)) user
    | none => return (0,user)

/-- __guac_handle_mouse. -/
def guacHandleMouse : InstructionHandler H := handleEvent UserHandlers.mouseHandler 3

/-- __guac_handle_key. -/
def guacHandleKey : InstructionHandler H := handleEvent UserHandlers.keyHandler 2

/-- __guac_handle_size. -/
def guacHandleSize : InstructionHandler H := handleEvent UserHandlers.sizeHandler 2

/-- The form of handlers that open a stream and pass it on to a handler of the
user. -/
def handleOpen (handler : UserHandlers H→Option H) (count : ℕ) (unsupported : List UInt8) :
    InstructionHandler H := fun env argv user => do
  let streamIndex := atoi (← argument argv 0)
  match initInputStream env streamIndex user with
  | (none,user) => return (0,user)
  | (some stream,user) =>
    match handler env.handlers with
    | some handler => do
      let values ← arguments argv 1 count
      return env.call handler (.opened stream values) user
    | none =>
      return (0,user.sendAck (user.inputStreams.get stream).index unsupported
        guacProtocolStatusUnsupported)

/-- __guac_handle_audio. -/
def guacHandleAudio : InstructionHandler H :=
  handleOpen UserHandlers.audioHandler 1 (ascii "Audio input unsupported")

/-- __guac_handle_clipboard. -/
def guacHandleClipboard : InstructionHandler H :=
  handleOpen UserHandlers.clipboardHandler 1 (ascii "Clipboard unsupported")

/-- __guac_handle_file. -/
def guacHandleFile : InstructionHandler H :=
  handleOpen UserHandlers.fileHandler 2 (ascii "File transfer unsupported")

/-- __guac_handle_pipe. -/
def guacHandlePipe : InstructionHandler H :=
  handleOpen UserHandlers.pipeHandler 2 (ascii "Named pipes unsupported")

/-- __guac_handle_argv. -/
def guacHandleArgv : InstructionHandler H :=
  handleOpen UserHandlers.argvHandler 2 (ascii "Reconfiguring in-progress connections unsupported")

/-- The open output stream that an ack is for. -/
def ackedStream (user : GuacUser H) (streamIndex : ℤ) : Option (Fin guacUserMaxStreams) :=
  if streamIndex.tmod 2≠0 then none
  else
    match validIndex guacUserMaxStreams (streamIndex.tdiv 2) with
    | none => none
    | some stream =>
      if (user.outputStreams.get stream).index=guacUserClosedStreamIndex then none
      else some stream

/-- __guac_handle_ack. -/
def guacHandleAck : InstructionHandler H := fun env argv user => do
  match ackedStream user (atoi (← argument argv 0)) with
  | none => return (0,user)
  | some stream =>
    match (user.outputStreams.get stream).ackHandler <|> env.handlers.ackHandler with
    | some handler => do
      let error ← argument argv 1
      let status := atoi (← argument argv 2)
      return env.call handler (.ack stream error status) user
    | none => return (0,user)

/-- __guac_handle_blob. The data is decoded in the place of the argument. -/
def guacHandleBlob : InstructionHandler H := fun env argv user => do
  match getOpenInputStream (atoi (← argument argv 0)) user with
  | (none,user) => return (0,user)
  | (some stream,user) =>
    match (user.inputStreams.get stream).blobHandler <|> env.handlers.blobHandler with
    | some handler => do
      let decoded := guacProtocolDecodeBase64 ((← argument argv 1)++[0])
      return env.call handler (.blob stream decoded.1 decoded.2) user
    | none =>
      return (0,user.sendAck (user.inputStreams.get stream).index
        (ascii "File transfer unsupported") guacProtocolStatusUnsupported)

/-- __guac_handle_end. -/
def guacHandleEnd : InstructionHandler H := fun env argv user => do
  match getOpenInputStream (atoi (← argument argv 0)) user with
  | (none,user) => return (0,user)
  | (some stream,user) =>
    let (result,user) := callEndHandler env stream user
    return (result,{ user with
      inputStreams := user.inputStreams.set stream
        { (user.inputStreams.get stream) with index := guacUserClosedStreamIndex } stream.isLt })

/-- The defined object with an index. -/
def definedObject (env : Environment H) (objectIndex : ℤ) : Option (Fin guacUserMaxObjects) :=
  match validIndex guacUserMaxObjects objectIndex with
  | none => none
  | some object =>
    if (env.objects.get object).index=guacUserUndefinedObjectIndex then none else some object

/-- __guac_handle_get. -/
def guacHandleGet : InstructionHandler H := fun env argv user => do
  match definedObject env (atoi (← argument argv 0)) with
  | none => return (0,user)
  | some object =>
    match (env.objects.get object).getHandler <|> env.handlers.getHandler with
    | some handler => do
      let name ← argument argv 1
      return env.call handler (.get object name) user
    | none => return (0,user)

/-- __guac_handle_put. -/
def guacHandlePut : InstructionHandler H := fun env argv user => do
  match definedObject env (atoi (← argument argv 0)) with
  | none => return (0,user)
  | some object =>
    match initInputStream env (atoi (← argument argv 1)) user with
    | (none,user) => return (0,user)
    | (some stream,user) =>
      match (env.objects.get object).putHandler <|> env.handlers.putHandler with
      | some handler => do
        let values ← arguments argv 2 2
        return env.call handler (.put object stream values) user
      | none =>
        return (0,user.sendAck (user.inputStreams.get stream).index
          (ascii "Object write unsupported") guacProtocolStatusUnsupported)

/-- __guac_handle_nop. -/
def guacHandleNop : InstructionHandler H := fun _ _ user => some (0,user)

/-- __guac_handle_disconnect, with guac_user_stop. -/
def guacHandleDisconnect : InstructionHandler H := fun _ _ user =>
  some (0,{ user with active := false })

/-- __guac_handshake_size_handler. -/
def guacHandshakeSizeHandler : InstructionHandler H := fun _ argv user =>
  if argv.length<2 then some (1,user)
  else do
    let width := atoi (← argument argv 0)
    let height := atoi (← argument argv 1)
    let resolution ← if argv.length≥3 then (argument argv 2).map atoi else some 96
    return (0,{ user with
      info := { user.info with
        optimalWidth := width
        optimalHeight := height
        optimalResolution := resolution } })

/-- guac_copy_mimetypes of the given number of arguments. -/
def guacCopyMimetypes (argv : List (List UInt8)) (count : ℕ) : Option (List (List UInt8)) :=
  arguments argv 0 count

/-- __guac_handshake_audio_handler. -/
def guacHandshakeAudioHandler : InstructionHandler H := fun _ argv user => do
  let mimetypes ← guacCopyMimetypes argv argv.length
  return (0,{ user with info := { user.info with audioMimetypes := some mimetypes } })

/-- __guac_handshake_video_handler. -/
def guacHandshakeVideoHandler : InstructionHandler H := fun _ argv user => do
  let mimetypes ← guacCopyMimetypes argv argv.length
  return (0,{ user with info := { user.info with videoMimetypes := some mimetypes } })

/-- __guac_handshake_image_handler. -/
def guacHandshakeImageHandler : InstructionHandler H := fun _ argv user => do
  let mimetypes ← guacCopyMimetypes argv argv.length
  return (0,{ user with info := { user.info with imageMimetypes := some mimetypes } })

/-- __guac_handshake_timezone_handler. -/
def guacHandshakeTimezoneHandler : InstructionHandler H := fun _ argv user => do
  let timezone ←
    if argv.length > 0 then
      (argument argv 0).map fun value => if value≠[] then some value else none
    else some none
  return (0,{ user with info := { user.info with timezone := timezone } })

/-- __guac_instruction_handler_map. -/
def guacInstructionHandlerMap : List (List UInt8×InstructionHandler H) :=
  [(ascii "sync", guacHandleSync), (ascii "mouse", guacHandleMouse), (ascii "key", guacHandleKey),
    (ascii "clipboard", guacHandleClipboard), (ascii "disconnect", guacHandleDisconnect),
    (ascii "size", guacHandleSize), (ascii "file", guacHandleFile), (ascii "pipe", guacHandlePipe),
    (ascii "ack", guacHandleAck), (ascii "blob", guacHandleBlob), (ascii "end", guacHandleEnd),
    (ascii "get", guacHandleGet), (ascii "put", guacHandlePut), (ascii "audio", guacHandleAudio),
    (ascii "argv", guacHandleArgv), (ascii "nop", guacHandleNop)]

/-- __guac_handshake_handler_map. -/
def guacHandshakeHandlerMap : List (List UInt8×InstructionHandler H) :=
  [(ascii "size", guacHandshakeSizeHandler), (ascii "audio", guacHandshakeAudioHandler),
    (ascii "video", guacHandshakeVideoHandler), (ascii "image", guacHandshakeImageHandler),
    (ascii "timezone", guacHandshakeTimezoneHandler)]

/-- __guac_user_call_opcode_handler. -/
def guacUserCallOpcodeHandler (opcode : List UInt8) :
    List (List UInt8×InstructionHandler H)→InstructionHandler H
  | [], _, _, user => some (0,user)
  | (current,handler)::map, env, argv, user =>
    if opcode=current then handler env argv user
    else guacUserCallOpcodeHandler opcode map env argv user

/-- The number of arguments that a handler reads. -/
abbrev ArgumentsRead (H : Type) := Environment H→List (List UInt8)→GuacUser H→ℕ

/-- A handler has a result exactly when it reads no argument beyond argc. -/
def Reads (handler : InstructionHandler H) (read : ArgumentsRead H) : Prop :=
  ∀ env argv user, (handler env argv user).isSome ↔ read env argv user≤argv.length

/-- All arguments are read that a handler of the user takes. -/
def eventRead (handler : UserHandlers H→Option H) (count : ℕ) : ArgumentsRead H :=
  fun env _ _ => if (handler env.handlers).isSome then count else 0

/-- The index is read, and the others if it is valid and there is a handler. -/
def openRead (handler : UserHandlers H→Option H) (count : ℕ) : ArgumentsRead H :=
  fun env argv _ =>
    if (validIndex guacUserMaxStreams (atoi (argv.getD 0 []))).isSome ∧
      (handler env.handlers).isSome then 1+count else 1

/-- The index is read, and the others if the stream is open and there is a
handler. -/
def ackRead : ArgumentsRead H := fun env argv user =>
  match ackedStream user (atoi (argv.getD 0 [])) with
  | none => 1
  | some stream =>
    if ((user.outputStreams.get stream).ackHandler <|> env.handlers.ackHandler).isSome then 3 else 1

/-- The index is read, and the data if the stream is open and there is a
handler. -/
def blobRead : ArgumentsRead H := fun env argv user =>
  match openInputStream user (atoi (argv.getD 0 [])) with
  | none => 1
  | some stream =>
    if ((user.inputStreams.get stream).blobHandler <|> env.handlers.blobHandler).isSome then 2
    else 1

/-- The index is read, and the name if the object is defined and there is a
handler. -/
def getRead : ArgumentsRead H := fun env argv _ =>
  match definedObject env (atoi (argv.getD 0 [])) with
  | none => 1
  | some object =>
    if ((env.objects.get object).getHandler <|> env.handlers.getHandler).isSome then 2 else 1

/-- The index is read, that of the stream if the object is defined, and the
others if that is valid and there is a handler. -/
def putRead : ArgumentsRead H := fun env argv _ =>
  match definedObject env (atoi (argv.getD 0 [])) with
  | none => 1
  | some object =>
    if (validIndex guacUserMaxStreams (atoi (argv.getD 1 []))).isSome ∧
      ((env.objects.get object).putHandler <|> env.handlers.putHandler).isSome then 4 else 2

/-- An argument below argc can be read. -/
theorem argument_of_lt {argv : List (List UInt8)} {i : ℕ} (h : i<argv.length) :
    ∃ value, argument argv i=some value :=
  ⟨argv[i],List.getElem?_eq_getElem h⟩

/-- An argument beyond argc cannot. -/
theorem argument_of_ge {argv : List (List UInt8)} {i : ℕ} (h : argv.length ≤ i) :
    argument argv i=none := List.getElem?_eq_none h

/-- Something is done with arguments that can be read together. -/
theorem isSome_arguments {α : Type} (argv : List (List UInt8)) (first count : ℕ)
    (f : List (List UInt8)→α) :
    (do let values ← arguments argv first count
        return f values : Option α).isSome ↔ count=0 ∨ first+count≤argv.length := by
  induction count generalizing first f with
  | zero => simp [arguments]
  | succ count ih =>
    rw [arguments]
    rcases Nat.lt_or_ge first argv.length with hlt | hge
    · obtain ⟨value,hvalue⟩ := argument_of_lt hlt
      have hrest := ih (first+1) fun values => f (value::values)
      rw [hvalue]
      simp only [Option.bind_eq_bind,Option.bind_some,Option.bind_assoc,Option.pure_def] at hrest ⊢
      rw [hrest]
      omega
    · rw [argument_of_ge hge]
      simp
      omega

/-- Events. -/
theorem handleEvent_reads (handler : UserHandlers H→Option H) (count : ℕ) :
    Reads (handleEvent handler count) (eventRead handler count) := by
  intro env argv user
  unfold handleEvent eventRead
  cases handler env.handlers with
  | none => simp
  | some h =>
    dsimp only
    rw [isSome_arguments,Option.isSome_some,if_pos rfl]
    omega

/-- A handler that reads an argument first. -/
theorem reads_of_first {rest : List UInt8→InstructionHandler H} {read : ArgumentsRead H}
    (hpos : ∀ env user, 0<read env [] user)
    (hrest : ∀ env value argv user, (rest value env (value::argv) user).isSome ↔
      read env (value::argv) user≤argv.length+1) :
    Reads (fun env argv user => do rest (← argument argv 0) env argv user) read := by
  intro env argv user
  cases argv with
  | nil =>
    have hread := hpos env user
    simp [argument]
    omega
  | cons value argv =>
    rw [List.length_cons,←hrest]
    rfl

/-- Syncs. -/
theorem guacHandleSync_reads : Reads guacHandleSync fun _ _ (_ : GuacUser H) => 1 := by
  refine reads_of_first (fun _ _ => Nat.one_pos) (fun env value argv user => ?_)
  refine iff_of_true ?_ (Nat.le_add_left 1 _)
  dsimp only
  split
  · rfl
  · split <;> rfl

/-- Streams that are opened. -/
theorem handleOpen_reads (handler : UserHandlers H→Option H) (count : ℕ)
    (unsupported : List UInt8) :
    Reads (handleOpen handler count unsupported) (openRead handler count) := by
  refine reads_of_first (fun env user => ?_) (fun env value argv user => ?_)
  · unfold openRead
    split <;> omega
  · have hvalid := initInputStream_fst env (atoi value) user
    unfold openRead
    rw [List.getD_cons_zero,←hvalid]
    dsimp only
    cases initInputStream env (atoi value) user with
    | mk stream user' =>
      cases stream with
      | none => simp
      | some stream =>
        cases handler env.handlers with
        | none => simp
        | some h =>
          dsimp only
          rw [isSome_arguments,if_pos ⟨rfl,rfl⟩,List.length_cons]
          omega

/-- Acks. -/
theorem guacHandleAck_reads : Reads guacHandleAck (ackRead : ArgumentsRead H) := by
  refine reads_of_first (fun env user => ?_) (fun env value argv user => ?_)
  · unfold ackRead
    split
    · omega
    · split <;> omega
  · unfold ackRead
    rw [List.getD_cons_zero]
    dsimp only
    cases ackedStream user (atoi value) with
    | none => simp
    | some stream =>
      dsimp only
      cases (user.outputStreams.get stream).ackHandler <|> env.handlers.ackHandler with
      | none => simp
      | some h => rcases argv with _ | ⟨error,_ | ⟨status,argv⟩⟩ <;> simp [argument]

/-- Blobs. -/
theorem guacHandleBlob_reads : Reads guacHandleBlob (blobRead : ArgumentsRead H) := by
  refine reads_of_first (fun env user => ?_) (fun env value argv user => ?_)
  · unfold blobRead
    split
    · omega
    · split <;> omega
  · unfold blobRead
    rw [List.getD_cons_zero]
    dsimp only
    cases hopen : openInputStream user (atoi value) with
    | none =>
      rw [getOpenInputStream_none hopen]
      simp
    | some stream =>
      rw [getOpenInputStream_some hopen]
      dsimp only
      cases (user.inputStreams.get stream).blobHandler <|> env.handlers.blobHandler with
      | none => simp
      | some h => cases argv <;> simp [argument]

/-- Ends of streams. -/
theorem guacHandleEnd_reads : Reads guacHandleEnd fun _ _ (_ : GuacUser H) => 1 := by
  refine reads_of_first (fun _ _ => Nat.one_pos) (fun env value argv user => ?_)
  refine iff_of_true ?_ (Nat.le_add_left 1 _)
  dsimp only
  split <;> rfl

/-- Gets. -/
theorem guacHandleGet_reads : Reads guacHandleGet (getRead : ArgumentsRead H) := by
  refine reads_of_first (fun env user => ?_) (fun env value argv user => ?_)
  · unfold getRead
    split
    · omega
    · split <;> omega
  · unfold getRead
    rw [List.getD_cons_zero]
    cases definedObject env (atoi value) with
    | none => simp
    | some object =>
      dsimp only
      cases (env.objects.get object).getHandler <|> env.handlers.getHandler with
      | none => simp
      | some h => cases argv <;> simp [argument]

/-- Puts. -/
theorem guacHandlePut_reads : Reads guacHandlePut (putRead : ArgumentsRead H) := by
  refine reads_of_first (fun env user => ?_) (fun env value argv user => ?_)
  · unfold putRead
    split
    · omega
    · split <;> omega
  · unfold putRead
    rw [List.getD_cons_zero]
    cases definedObject env (atoi value) with
    | none => simp
    | some object =>
      cases argv with
      | nil =>
        simp [argument]
        split <;> omega
      | cons index argv =>
        have hvalid := initInputStream_fst env (atoi index) user
        rw [List.getD_cons_succ,List.getD_cons_zero,←hvalid]
        simp only [argument,List.getElem?_cons_succ,List.getElem?_cons_zero,Option.bind_eq_bind,
          Option.bind_some]
        cases initInputStream env (atoi index) user with
        | mk stream user' =>
          cases stream with
          | none => simp
          | some stream =>
            cases (env.objects.get object).putHandler <|> env.handlers.putHandler with
            | none => simp
            | some h =>
              have hread := isSome_arguments (value::index::argv) 2 2 fun values =>
                env.call h (.put object stream values) user'
              simp at hread ⊢
              omega

/-- Instructions that read nothing. -/
theorem reads_nothing {handler : InstructionHandler H}
    (h : ∀ env argv user, (handler env argv user).isSome) : Reads handler fun _ _ _ => 0 :=
  fun env argv user => iff_of_true (h env argv user) (Nat.zero_le _)

/-- The handshake handler that compares the arguments it reads with argc. -/
theorem guacHandshakeSizeHandler_reads :
    Reads guacHandshakeSizeHandler fun _ _ (_ : GuacUser H) => 0 := by
  refine reads_nothing fun env argv user => ?_
  rcases argv with _ | ⟨width,_ | ⟨height,_ | ⟨resolution,argv⟩⟩⟩
  · rfl
  · rfl
  · rfl
  · have hargc : ¬ (width::height::resolution::argv).length<2 := by
      rw [List.length_cons,List.length_cons]
      omega
    rw [guacHandshakeSizeHandler,if_neg hargc]
    simp [argument]

/-- All arguments that there are can be copied. -/
theorem guacCopyMimetypes_isSome {α : Type} (argv : List (List UInt8)) (f : List (List UInt8)→α) :
    (do let mimetypes ← guacCopyMimetypes argv argv.length
        return f mimetypes : Option α).isSome :=
  (isSome_arguments argv 0 argv.length f).mpr (Or.inr (Nat.zero_add _).le)

/-- The timezone is read if it is there. -/
theorem guacHandshakeTimezoneHandler_reads :
    Reads guacHandshakeTimezoneHandler fun _ _ (_ : GuacUser H) => 0 := by
  refine reads_nothing fun env argv user => ?_
  cases argv <;> simp [guacHandshakeTimezoneHandler,argument]

/-- The number of arguments read by the handler of an opcode. -/
def argumentsRead (opcode : List UInt8) : List (List UInt8×ArgumentsRead H)→ArgumentsRead H
  | [], _, _, _ => 0
  | (current,read)::reads, env, argv, user =>
    if opcode=current then read env argv user else argumentsRead opcode reads env argv user

/-- Arguments read by the instruction handlers. -/
def guacInstructionArguments : List (List UInt8×ArgumentsRead H) :=
  [(ascii "sync", fun _ _ _ => 1), (ascii "mouse", eventRead UserHandlers.mouseHandler 3),
    (ascii "key", eventRead UserHandlers.keyHandler 2),
    (ascii "clipboard", openRead UserHandlers.clipboardHandler 1),
    (ascii "disconnect", fun _ _ _ => 0), (ascii "size", eventRead UserHandlers.sizeHandler 2),
    (ascii "file", openRead UserHandlers.fileHandler 2),
    (ascii "pipe", openRead UserHandlers.pipeHandler 2), (ascii "ack", ackRead),
    (ascii "blob", blobRead), (ascii "end", fun _ _ _ => 1), (ascii "get", getRead),
    (ascii "put", putRead), (ascii "audio", openRead UserHandlers.audioHandler 1),
    (ascii "argv", openRead UserHandlers.argvHandler 2), (ascii "nop", fun _ _ _ => 0)]

/-- Arguments of an opcode are read by the handler that is called for it. -/
theorem guacUserCallOpcodeHandler_reads (opcode : List UInt8)
    {map : List (List UInt8×InstructionHandler H)} {reads : List (List UInt8×ArgumentsRead H)}
    (h : List.Forall₂ (fun entry read => entry.1=read.1 ∧ Reads entry.2 read.2) map reads) :
    Reads (guacUserCallOpcodeHandler opcode map) (argumentsRead opcode reads) := by
  induction h with
  | nil => exact reads_nothing fun _ _ _ => rfl
  | cons hentry _ ih =>
    obtain ⟨hopcode,hreads⟩ := hentry
    intro env argv user
    rw [guacUserCallOpcodeHandler,argumentsRead,←hopcode]
    split
    · exact hreads env argv user
    · exact ih env argv user

/-- Every instruction handler reads the arguments listed for its opcode. -/
theorem guacInstructionHandlerMap_reads :
    List.Forall₂ (fun entry read => entry.1=read.1 ∧ Reads entry.2 read.2)
      (guacInstructionHandlerMap (H := H)) guacInstructionArguments := by
  refine .cons ⟨rfl,guacHandleSync_reads⟩ (.cons ⟨rfl,handleEvent_reads _ _⟩
    (.cons ⟨rfl,handleEvent_reads _ _⟩ (.cons ⟨rfl,handleOpen_reads _ _ _⟩
      (.cons ⟨rfl,reads_nothing fun _ _ _ => rfl⟩ (.cons ⟨rfl,handleEvent_reads _ _⟩
        (.cons ⟨rfl,handleOpen_reads _ _ _⟩ (.cons ⟨rfl,handleOpen_reads _ _ _⟩ ?_)))))))
  exact .cons ⟨rfl,guacHandleAck_reads⟩ (.cons ⟨rfl,guacHandleBlob_reads⟩
    (.cons ⟨rfl,guacHandleEnd_reads⟩ (.cons ⟨rfl,guacHandleGet_reads⟩
      (.cons ⟨rfl,guacHandlePut_reads⟩ (.cons ⟨rfl,handleOpen_reads _ _ _⟩
        (.cons ⟨rfl,handleOpen_reads _ _ _⟩ (.cons ⟨rfl,reads_nothing fun _ _ _ => rfl⟩ .nil)))))))

/-- Every handshake handler reads only arguments that are there. -/
theorem guacHandshakeHandlerMap_reads :
    List.Forall₂ (fun entry read => entry.1=read.1 ∧ Reads entry.2 read.2)
      (guacHandshakeHandlerMap (H := H))
      ((guacHandshakeHandlerMap (H := H)).map fun entry => (entry.1,fun _ _ _ => 0)) :=
  .cons ⟨rfl,guacHandshakeSizeHandler_reads⟩
    (.cons ⟨rfl,reads_nothing fun _ argv _ => guacCopyMimetypes_isSome argv _⟩
      (.cons ⟨rfl,reads_nothing fun _ argv _ => guacCopyMimetypes_isSome argv _⟩
        (.cons ⟨rfl,reads_nothing fun _ argv _ => guacCopyMimetypes_isSome argv _⟩
          (.cons ⟨rfl,guacHandshakeTimezoneHandler_reads⟩ .nil))))

/-- A list on which every handler reads nothing. -/
theorem argumentsRead_nothing (opcode : List UInt8) (map : List (List UInt8×InstructionHandler H))
    (env : Environment H) (argv : List (List UInt8)) (user : GuacUser H) :
    argumentsRead opcode (map.map fun entry => (entry.1,fun _ _ _ => 0)) env argv user=0 := by
  induction map with
  | nil => rfl
  | cons entry map ih =>
    rw [List.map_cons,argumentsRead,ih]
    exact ite_self 0

/-- Instructions are handled without an argument beyond argc being read exactly
when argc reaches the number listed for the opcode; in the handshake, always. -/
theorem guacUserCallOpcodeHandler_argc_iff (opcode : List UInt8) (env : Environment H)
    (argv : List (List UInt8)) (user : GuacUser H) :
    ((guacUserCallOpcodeHandler opcode guacInstructionHandlerMap env argv user).isSome ↔
      argumentsRead opcode guacInstructionArguments env argv user≤argv.length) ∧
    (guacUserCallOpcodeHandler opcode guacHandshakeHandlerMap env argv user).isSome := by
  refine ⟨guacUserCallOpcodeHandler_reads opcode guacInstructionHandlerMap_reads env argv user,?_⟩
  have hhandshake :=
    guacUserCallOpcodeHandler_reads opcode guacHandshakeHandlerMap_reads env argv user
  rw [argumentsRead_nothing] at hhandshake
  exact hhandshake.mpr (Nat.zero_le _)

/-- The environment of a user without handlers. -/
def bareEnvironment : Environment Empty where
  handlers := ⟨none,none,none,none,none,none,none,none,none,none,none,none,none,none⟩
  objects := Vector.replicate _ undefinedObject
  timestampCurrent := 0
  lastSentTimestamp := 0
  call := nofun

/-- A sync without a timestamp is a complete instruction, and its handler reads
the timestamp nevertheless. -/
theorem guacHandleSync_beyond_argc : (∀ (parser : GuacParser) (address : ℕ),
      (feed (guacParserReset parser) address (ascii "4.sync;")).parser.state=.complete ∧
      completedInstruction address (feed (guacParserReset parser) address (ascii "4.sync;"))=
        ⟨some (ascii "sync"), 0, []⟩) ∧
    guacUserCallOpcodeHandler (ascii "sync") guacInstructionHandlerMap bareEnvironment []
      (guacUserAlloc 0)=none := by
  refine ⟨fun parser address => ?_,rfl⟩
  obtain ⟨e,he,hvalue,-,hwire⟩ :=
    exists_element_of_ascii (forall_mem_of_all (by decide : (ascii "sync").all _)) (by decide)
  have hlength : decimal (ascii "sync").length=[52] := by
    rw [decimal,if_pos (by decide)]
    rfl
  have hbytes : wireInstruction [e]++[]=ascii "4.sync;" := by
    rw [wireInstruction_single,hwire,hlength]
    rfl
  have hcompleted := headInstruction_completed (List.cons_ne_nil e []) (Nat.le_add_left 1 127)
    (List.forall_mem_singleton.mpr he) parser address []
  rw [hbytes] at hcompleted
  refine ⟨hcompleted.1,hcompleted.2.1.trans ?_⟩
  rw [instructionOf,List.map_singleton,hvalue]
  rfl

end GuacServer.UserHandlers
