import Mathlib.Data.Vector.Defs
import GuacServer.DecimalNumerals
import GuacServer.Unicode

/-!
# A user with its streams and objects

The state of a user that instruction handlers read and change. Handlers that a
client plugin installs are values of any type, called through the environment;
they may change the state of the user, but not the handlers of the user or its
objects, which are set up when the user joins.
-/

namespace GuacServer.UserStreams

open Unicode DecimalNumerals

/-- GUAC_USER_MAX_STREAMS. -/
abbrev guacUserMaxStreams : ℕ := 64

/-- GUAC_USER_MAX_OBJECTS. -/
abbrev guacUserMaxObjects : ℕ := 64

/-- GUAC_USER_CLOSED_STREAM_INDEX. -/
def guacUserClosedStreamIndex : ℤ := -1

/-- GUAC_USER_UNDEFINED_OBJECT_INDEX. -/
def guacUserUndefinedObjectIndex : ℤ := -1

/-- GUAC_PROTOCOL_STATUS_UNSUPPORTED. -/
def guacProtocolStatusUnsupported : ℤ := 0x0100

/-- GUAC_PROTOCOL_STATUS_CLIENT_BAD_REQUEST. -/
def guacProtocolStatusClientBadRequest : ℤ := 0x0300

/-- guac_stream, without the data of its handlers. -/
structure GuacStream (H : Type) where
  /-- The index, or that of a closed stream. -/
  index : ℤ
  /-- Called for acks. -/
  ackHandler : Option H
  /-- Called for blobs. -/
  blobHandler : Option H
  /-- Called at the end. -/
  endHandler : Option H

/-- guac_object, without the data of its handlers. -/
structure GuacObject (H : Type) where
  /-- The index, or that of an undefined object. -/
  index : ℤ
  /-- Called for get. -/
  getHandler : Option H
  /-- Called for put. -/
  putHandler : Option H

/-- The handlers of a user. -/
structure UserHandlers (H : Type) where
  syncHandler : Option H
  mouseHandler : Option H
  keyHandler : Option H
  clipboardHandler : Option H
  sizeHandler : Option H
  fileHandler : Option H
  pipeHandler : Option H
  ackHandler : Option H
  blobHandler : Option H
  endHandler : Option H
  getHandler : Option H
  putHandler : Option H
  audioHandler : Option H
  argvHandler : Option H

/-- An ack sent to the user. -/
structure Ack where
  /-- The index of the stream. -/
  index : ℤ
  /-- The message. -/
  error : List UInt8
  status : ℤ
  deriving DecidableEq

/-- The part of guac_user_info that the handshake sets. -/
structure GuacUserInfo where
  optimalWidth : ℤ
  optimalHeight : ℤ
  optimalResolution : ℤ
  /-- Supported audio types. -/
  audioMimetypes : Option (List (List UInt8))
  /-- Supported video types. -/
  videoMimetypes : Option (List (List UInt8))
  /-- Supported image types. -/
  imageMimetypes : Option (List (List UInt8))
  timezone : Option (List UInt8)
  deriving DecidableEq

/-- What changes of guac_user. -/
structure GuacUser (H : Type) where
  /-- Cleared by guac_user_stop. -/
  active : Bool
  /-- The timestamp of the last sync. -/
  lastReceivedTimestamp : ℤ
  /-- The duration of the last frame without lag. -/
  lastFrameDuration : ℤ
  /-- The lag of the user. -/
  processingLag : ℤ
  /-- Information from the handshake. -/
  info : GuacUserInfo
  /-- Streams from the user. -/
  inputStreams : Vector (GuacStream H) guacUserMaxStreams
  outputStreams : Vector (GuacStream H) guacUserMaxStreams
  /-- All acks sent so far. -/
  acks : List Ack

/-- A call of an installed handler with its arguments, streams and objects by
their places. -/
inductive HandlerCall
  /-- A sync handler, with the timestamp. -/
  | sync (timestamp : ℤ)
  /-- A mouse, key or size handler. -/
  | event (values : List ℤ)
  /-- A handler for a new stream, with its mimetype and possibly a name. -/
  | opened (stream : Fin guacUserMaxStreams) (arguments : List (List UInt8))
  /-- An ack handler, with message and status. -/
  | ack (stream : Fin guacUserMaxStreams) (error : List UInt8) (status : ℤ)
  /-- A blob handler, with the decoded buffer and the length of the data. -/
  | blob (stream : Fin guacUserMaxStreams) (data : List UInt8) (length : ℕ)
  /-- An end handler. -/
  | ended (stream : Fin guacUserMaxStreams)
  /-- A get handler, with the name. -/
  | get (object : Fin guacUserMaxObjects) (name : List UInt8)
  /-- A put handler, with mimetype and name. -/
  | put (object : Fin guacUserMaxObjects) (stream : Fin guacUserMaxStreams)
      (arguments : List (List UInt8))
  deriving DecidableEq

/-- What handlers of instructions use besides the state of the user. -/
structure Environment (H : Type) where
  handlers : UserHandlers H
  objects : Vector (GuacObject H) guacUserMaxObjects
  /-- The value of guac_timestamp_current. -/
  timestampCurrent : ℤ
  /-- The timestamp the client sent last. -/
  lastSentTimestamp : ℤ
  /-- What an installed handler returns and makes of the user. -/
  call : H→HandlerCall→GuacUser H→ℤ×GuacUser H

variable {H : Type}

/-- A closed stream. -/
def closedStream : GuacStream H := ⟨guacUserClosedStreamIndex,none,none,none⟩

/-- An undefined object. -/
def undefinedObject : GuacObject H := ⟨guacUserUndefinedObjectIndex,none,none⟩

/-- guac_user_alloc at the given time. -/
def guacUserAlloc (timestampCurrent : ℤ) : GuacUser H where
  active := true
  lastReceivedTimestamp := timestampCurrent
  lastFrameDuration := 0
  processingLag := 0
  info := ⟨0,0,0,none,none,none,none⟩
  inputStreams := Vector.replicate _ closedStream
  outputStreams := Vector.replicate _ closedStream
  acks := []

/-- guac_protocol_send_ack on the socket of the user. -/
def GuacUser.sendAck (user : GuacUser H) (index : ℤ) (error : List UInt8) (status : ℤ) :
    GuacUser H :=
  { user with acks := user.acks++[⟨index,error,status⟩] }

/-- The place of a stream or object with the given index, if it is valid. -/
def validIndex (size : ℕ) (index : ℤ) : Option (Fin size) :=
  if h : 0 ≤ index ∧ index<size then some ⟨index.toNat,by omega⟩ else none

/-- The place of an integer inside the array. -/
theorem validIndex_val {size : ℕ} (stream : Fin size) : validIndex size stream.val=some stream := by
  unfold validIndex
  rw [dif_pos ⟨Int.natCast_nonneg _,Int.ofNat_lt.mpr stream.isLt⟩]
  rfl

/-- Streams at places other than the one that is stored stay. -/
theorem get_set_of_ne {size : ℕ} {streams : Vector (GuacStream H) size} {stream other : Fin size}
    (h : other≠stream) (value : GuacStream H) :
    (streams.set stream value).get other=streams.get other := by
  have hval : stream.val≠other.val := fun heq => h (Fin.ext heq.symm)
  exact Vector.getElem_set_ne stream.isLt other.isLt hval

/-- The stream that is stored. -/
theorem get_set_self {size : ℕ} (streams : Vector (GuacStream H) size) (stream : Fin size)
    (value : GuacStream H) : (streams.set stream value).get stream=value :=
  Vector.getElem_set_self stream.isLt

/-- __get_input_stream. -/
def getInputStream (index : ℤ) (user : GuacUser H) : Option (Fin guacUserMaxStreams)×GuacUser H :=
  match validIndex guacUserMaxStreams index with
  | some stream => (some stream,user)
  | none => (none,
      user.sendAck index (ascii "Invalid stream index") guacProtocolStatusClientBadRequest)

/-- __get_open_input_stream. -/
def getOpenInputStream (index : ℤ) (user : GuacUser H) :
    Option (Fin guacUserMaxStreams)×GuacUser H :=
  match getInputStream index user with
  | (none,user) => (none,user)
  | (some stream,user) =>
    if user.inputStreams[stream].index=guacUserClosedStreamIndex then
      (none,user.sendAck index (ascii "Invalid stream index") guacProtocolStatusClientBadRequest)
    else (some stream,user)

/-- The open input stream with an index. -/
def openInputStream (user : GuacUser H) (index : ℤ) : Option (Fin guacUserMaxStreams) :=
  match validIndex guacUserMaxStreams index with
  | none => none
  | some stream =>
    if user.inputStreams[stream].index=guacUserClosedStreamIndex then none else some stream

/-- An open stream is found without further ado. -/
theorem getOpenInputStream_some {user : GuacUser H} {index : ℤ} {stream : Fin guacUserMaxStreams}
    (h : openInputStream user index=some stream) :
    getOpenInputStream index user=(some stream,user) := by
  unfold openInputStream at h
  unfold getOpenInputStream getInputStream
  split at h
  · cases h
  · next hvalid =>
    split at h
    · cases h
    · next hopen =>
      cases h
      rw [hvalid]
      exact if_neg hopen

/-- An index that is invalid or of a closed stream is answered with an ack. -/
theorem getOpenInputStream_none {user : GuacUser H} {index : ℤ}
    (h : openInputStream user index=none) :
    getOpenInputStream index user=(none,
      user.sendAck index (ascii "Invalid stream index") guacProtocolStatusClientBadRequest) := by
  unfold openInputStream at h
  unfold getOpenInputStream getInputStream
  split at h
  · next hvalid => simp [hvalid]
  · next hvalid =>
    split at h
    · next hclosed =>
      rw [hvalid]
      exact if_pos hclosed
    · cases h

/-- The end handler of a stream, or else that of the user, is called. -/
def callEndHandler (env : Environment H) (stream : Fin guacUserMaxStreams) (user : GuacUser H) :
    ℤ×GuacUser H :=
  match user.inputStreams[stream].endHandler with
  | some handler => env.call handler (.ended stream) user
  | none =>
    match env.handlers.endHandler with
    | some handler => env.call handler (.ended stream) user
    | none => (0,user)

/-- __init_input_stream. -/
def initInputStream (env : Environment H) (index : ℤ) (user : GuacUser H) :
    Option (Fin guacUserMaxStreams)×GuacUser H :=
  match getInputStream index user with
  | (none,user) => (none,user)
  | (some stream,user) =>
    let user :=
      if user.inputStreams[stream].index≠guacUserClosedStreamIndex then
        (callEndHandler env stream user).2
      else user
    (some stream,{ user with
      inputStreams := user.inputStreams.set stream ⟨index,none,none,none⟩ })

/-- Whether a stream is initialized depends on its index only. -/
theorem initInputStream_fst (env : Environment H) (index : ℤ) (user : GuacUser H) :
    (initInputStream env index user).1=validIndex guacUserMaxStreams index := by
  unfold initInputStream getInputStream
  cases validIndex guacUserMaxStreams index <;> rfl

end GuacServer.UserStreams
