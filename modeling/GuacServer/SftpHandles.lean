import GuacServer.DirectoryListing
import GuacServer.OutputStreams
import GuacServer.ResourceHolders
import GuacServer.SftpPaths

/-!
# Handles of files and directories over SFTP

Uploads keep the handle of a file in an input stream of the user, downloads and
directory listings keep theirs in an output stream. A handle is given back when
the stream ends or is freed. How libssh2 answers is part of each instruction.
-/

namespace GuacServer.SftpHandles

open DirectoryListing OutputStreams ResourceHolders SftpPaths StateRuns UserStreams

/-- Handles are counted in the order in which they are obtained. -/
abbrev Handle := ℕ

/-- The handlers of a stream, with the handle in its data. -/
inductive SftpHandler where
  /-- guac_common_ssh_sftp_blob_handler and guac_common_ssh_sftp_end_handler, with the
  file, which is NULL if it could not be opened. -/
  | upload (file : Option Handle)
  /-- guac_common_ssh_sftp_ack_handler. -/
  | download (file : Handle)
  /-- guac_common_ssh_sftp_ls_ack_handler, with the directory of the list state. -/
  | list (directory : Handle)
  deriving DecidableEq

/-- The handle in the data of a stream. -/
def SftpHandler.handle : SftpHandler→Option Handle
  | .upload file => file
  | .download file => some file
  | .list directory => some directory

/-- What libssh2 sees of the handles. -/
structure SftpServer where
  /-- How many were obtained. -/
  obtained : ℕ
  /-- Those that are open. -/
  opened : Finset Handle
  /-- Whether libssh2 was called with one that is not open. -/
  misused : Bool
  deriving DecidableEq

/-- libssh2_sftp_open and libssh2_sftp_opendir, if they succeed. -/
def SftpServer.obtain (server : SftpServer) : SftpServer :=
  { server with obtained := server.obtained+1, opened := insert server.obtained server.opened }

/-- libssh2_sftp_read, libssh2_sftp_write and libssh2_sftp_readdir. -/
def SftpServer.use (handle : Option Handle) (server : SftpServer) : SftpServer :=
  { server with misused := server.misused || !(handle.any fun h => decide (h∈server.opened)) }

/-- libssh2_sftp_close and libssh2_sftp_closedir. -/
def SftpServer.close (handle : Option Handle) (server : SftpServer) : SftpServer :=
  match handle with
  | none => server.use none
  | some h => { server.use (some h) with opened := server.opened.erase h }

/-- A user and the file systems exposed to it. -/
structure SftpSession where
  objects : Fin guacUserMaxObjects→Option SftpFilesystem
  /-- The upload_path of the file system that gets dropped files. -/
  uploadPath : List UInt8
  inputStreams : Vector (GuacStream SftpHandler) guacUserMaxStreams
  output : OwnerSession SftpHandler guacUserMaxStreams
  server : SftpServer

/-- A user that has just joined. -/
def freshSession (objects : Fin guacUserMaxObjects→Option SftpFilesystem)
    (uploadPath : List UInt8) : SftpSession :=
  ⟨objects,uploadPath,Vector.replicate _ closedStream,freshOwnerSession,⟨0,∅,false⟩⟩

/-- A stream is open. -/
def IsOpen (stream : GuacStream SftpHandler) : Prop := stream.index≠guacUserClosedStreamIndex

instance (stream : GuacStream SftpHandler) : Decidable (IsOpen stream) :=
  inferInstanceAs (Decidable (_ ≠ _))

/-- The input stream with an index, if it is open. -/
def SftpSession.openInput (session : SftpSession) (index : ℤ) : Option (Fin guacUserMaxStreams) :=
  (validIndex guacUserMaxStreams index).filter fun stream =>
    IsOpen (session.inputStreams.get stream)

/-- The end handler of an input stream is called, if there is one. -/
def SftpSession.callEnd (session : SftpSession) (stream : Fin guacUserMaxStreams) : SftpSession :=
  match (session.inputStreams.get stream).endHandler with
  | none => session
  | some handler => { session with server := session.server.close handler.handle }

/-- `__init_input_stream`, which ends a stream that is open first. -/
def SftpSession.initInput (session : SftpSession) (index : ℤ) :
    Option (Fin guacUserMaxStreams×SftpSession) :=
  (validIndex guacUserMaxStreams index).map fun stream =>
    let ended :=
      if IsOpen (session.inputStreams.get stream) then session.callEnd stream else session
    let opened := ended.inputStreams.set stream ⟨index,none,none,none⟩ stream.isLt
    (stream,{ ended with inputStreams := opened })

/-- A file is opened for writing, and the handlers of an upload are set either way. -/
def SftpSession.openUpload (session : SftpSession) (stream : Fin guacUserMaxStreams)
    (found : Bool) : SftpSession :=
  let file := if found=true then some session.server.obtained else none
  { session with
    server := if found=true then session.server.obtain else session.server
    inputStreams := session.inputStreams.set stream
      { session.inputStreams.get stream with
        blobHandler := some (.upload file)
        endHandler := some (.upload file) } stream.isLt }

/-- guac_common_ssh_sftp_handle_file_stream. -/
def handleFileStream (stream : Fin guacUserMaxStreams) (filename : List UInt8) (found : Bool)
    (session : SftpSession) : SftpSession :=
  match guacSshAppendFilename session.uploadPath filename with
  | none => session
  | some _ => session.openUpload stream found

/-- guac_common_ssh_sftp_put_handler. -/
def putHandler (filesystem : SftpFilesystem) (stream : Fin guacUserMaxStreams)
    (name : List UInt8) (found : Bool) (session : SftpSession) : SftpSession :=
  if (guacCommonSshSftpTranslateName ⟨[],0⟩ filesystem name).2=true then
    session.openUpload stream found
  else session

/-- The ack handler of a stream is set. -/
def setAckHandler (stream : Fin guacUserMaxStreams) (handler : SftpHandler)
    (owner : StreamOwner SftpHandler guacUserMaxStreams) :
    StreamOwner SftpHandler guacUserMaxStreams :=
  let value := { owner.outputStreams.get stream with ackHandler := some handler }
  { owner with outputStreams := owner.outputStreams.set stream value stream.isLt }

/-- A stream for a handle that was just obtained. There is no result where
guac_user_alloc_stream returns NULL, since its fields are set all the same. -/
def SftpSession.startOutput (session : SftpSession) (handler : SftpHandler) : Option SftpSession :=
  match guacUserAllocStream session.output.owner with
  | some (some stream,owner) =>
    some { session with
      output := ⟨setAckHandler stream handler owner,stream::session.output.live⟩
      server := session.server.obtain }
  | _ => none

/-- guac_common_ssh_sftp_download_file. -/
def downloadFile (found : Bool) (session : SftpSession) : Option SftpSession :=
  if found=true then session.startOutput (.download session.server.obtained) else some session

/-- guac_common_ssh_sftp_get_handler, where libssh2_sftp_stat may fail or tell whether it is
a directory. -/
def getHandler (filesystem : SftpFilesystem) (name : List UInt8) (directory : Option Bool)
    (found : Bool) (session : SftpSession) : Option SftpSession :=
  if (guacCommonSshSftpTranslateName ⟨[],0⟩ filesystem name).2=true then
    match directory with
    | none => some session
    | some true =>
      if found=true then
        -- The list state is freed if the name does not fit, but the directory stays open.
        if name.length≥guacCommonSshSftpMaxPath then
          some { session with server := session.server.obtain }
        else session.startOutput (.list session.server.obtained)
      else some session
    | some false =>
      if found=true then session.startOutput (.download session.server.obtained)
      else some session
  else some session

/-- guac_user_free_stream. -/
def SftpSession.freeOutput (session : SftpSession) (stream : Fin guacUserMaxStreams) :
    SftpSession :=
  { session with
    output := ⟨guacUserFreeStream stream session.output.owner,
      session.output.live.erase stream⟩ }

/-- GUAC_PROTOCOL_STATUS_SUCCESS. -/
def guacProtocolStatusSuccess : ℤ := 0

/-- guac_common_ssh_sftp_ack_handler. -/
def ackHandler (stream : Fin guacUserMaxStreams) (file : Handle) (status bytesRead : ℤ)
    (session : SftpSession) : SftpSession :=
  if status=guacProtocolStatusSuccess then
    let read := { session with server := session.server.use (some file) }
    if bytesRead > 0 then read
    else
      let freed := read.freeOutput stream
      { freed with server := freed.server.close (some file) }
  else session.freeOutput stream

/-- The loop of guac_common_ssh_sftp_ls_ack_handler, for entries of which some fill a blob:
whether it comes to the end of the directory. -/
def lsEnds : List Bool→Bool→Bool
  | [], _ => true
  | _ :: _, true => false
  | blobWritten::entries, false => lsEnds entries blobWritten

/-- guac_common_ssh_sftp_ls_ack_handler. -/
def lsAckHandler (stream : Fin guacUserMaxStreams) (directory : Handle) (status : ℤ)
    (entries : List Bool) (session : SftpSession) : SftpSession :=
  if status=guacProtocolStatusSuccess then
    let read := { session with server := session.server.use (some directory) }
    if lsEnds entries false=true then
      { read with server := read.server.close (some directory) }.freeOutput stream
    else read
  else { session with server := session.server.close (some directory) }.freeOutput stream

/-- Instructions of the user with the answers of libssh2, and what starts a download. -/
inductive SftpInstruction where
  /-- The handler of file. -/
  | file (index : ℤ) (filename : List UInt8) (found : Bool)
  /-- The handler of put. -/
  | put (object index : ℤ) (name : List UInt8) (found : Bool)
  /-- The handler of get. -/
  | get (object : ℤ) (name : List UInt8) (directory : Option Bool) (found : Bool)
  /-- The handler of blob. -/
  | blob (index : ℤ)
  /-- The handler of end. -/
  | ended (index : ℤ)
  /-- The handler of ack, with what is read. -/
  | ack (index status bytesRead : ℤ) (entries : List Bool)
  /-- A download that the terminal starts. -/
  | download (found : Bool)

/-- The output stream that an ack is for, if it is open. -/
def SftpSession.openOutput (session : SftpSession) (index : ℤ) : Option (Fin guacUserMaxStreams) :=
  if index.tmod 2≠0 then none
  else
    (validIndex guacUserMaxStreams (index.tdiv 2)).filter fun stream =>
      IsOpen (session.output.owner.outputStreams.get stream)

/-- The object with an index, if it is defined. -/
def SftpSession.object (session : SftpSession) (index : ℤ) : Option SftpFilesystem :=
  (validIndex guacUserMaxObjects index).bind session.objects

/-- An instruction is handled. -/
def sftpStep (instruction : SftpInstruction) (session : SftpSession) : Option SftpSession :=
  match instruction with
  | .file index filename found =>
    match session.initInput index with
    | none => some session
    | some (stream,next) => some (handleFileStream stream filename found next)
  | .put object index name found =>
    match session.object object with
    | none => some session
    | some filesystem =>
      match session.initInput index with
      | none => some session
      | some (stream,next) => some (putHandler filesystem stream name found next)
  | .get object name directory found =>
    match session.object object with
    | none => some session
    | some filesystem => getHandler filesystem name directory found session
  | .blob index =>
    match session.openInput index with
    | none => some session
    | some stream =>
      match (session.inputStreams.get stream).blobHandler with
      | none => some session
      | some handler => some { session with server := session.server.use handler.handle }
  | .ended index =>
    match session.openInput index with
    | none => some session
    | some stream =>
      let next := session.callEnd stream
      some { next with
        inputStreams := next.inputStreams.set stream
          { next.inputStreams.get stream with index := guacUserClosedStreamIndex } stream.isLt }
  | .ack index status bytesRead entries =>
    match session.openOutput index with
    | none => some session
    | some stream =>
      match (session.output.owner.outputStreams.get stream).ackHandler with
      | some (.download file) => some (ackHandler stream file status bytesRead session)
      | some (.list directory) => some (lsAckHandler stream directory status entries session)
      | _ => some session
  | .download found => downloadFile found session

/-! ## What is to hold -/

/-- The handle that an input stream or an output stream holds while it is open. -/
def SftpSession.holder (session : SftpSession) :
    Fin guacUserMaxStreams ⊕ Fin guacUserMaxStreams→Option Handle
  | .inl stream =>
    if IsOpen (session.inputStreams.get stream) then
      (session.inputStreams.get stream).endHandler.bind SftpHandler.handle
    else none
  | .inr stream =>
    if IsOpen (session.output.owner.outputStreams.get stream) then
      (session.output.owner.outputStreams.get stream).ackHandler.bind SftpHandler.handle
    else none

/-- libssh2 was called only with open handles, and a handle is open only as long as the
stream that holds it. -/
structure HandlesKept (session : SftpSession) : Prop where
  used : session.server.misused=false
  held : ∀ handle∈session.server.opened, ∃ place, session.holder place=some handle

/-- The input stream with an index is open, and its file could not be opened. -/
def SftpSession.Unopened (session : SftpSession) (index : ℤ) : Prop :=
  ∃ stream∈session.openInput index, (session.inputStreams.get stream).endHandler=some (.upload none)

/-- There is an output stream left. -/
def SftpSession.HasOutput (session : SftpSession) : Prop :=
  session.output.live.length<guacUserMaxStreams

/-- What does not reach for a file that could not be opened, does not refuse a download
under way, and finds a stream for what it opens. -/
def Careful (instruction : SftpInstruction) (session : SftpSession) : Prop :=
  match instruction with
  | .file index _ _ => ¬session.Unopened index
  | .put object index _ _ => session.object object≠none→¬session.Unopened index
  | .get object name directory found =>
    ∀ filesystem, session.object object=some filesystem →
      (guacCommonSshSftpTranslateName ⟨[],0⟩ filesystem name).2=true → directory≠none →
      found=true → session.HasOutput
  | .blob index => ¬session.Unopened index
  | .ended index => ¬session.Unopened index
  | .ack index status _ _ => ∀ stream∈session.openOutput index, ∀ file,
    (session.output.owner.outputStreams.get stream).ackHandler=some (.download file) →
      status=guacProtocolStatusSuccess
  | .download found => found=true → session.HasOutput

/-! ## What libssh2 sees -/

variable {server : SftpServer}

/-- An open handle can be used. -/
theorem SftpServer.use_of_mem {handle : Handle}
    (h : handle∈server.opened) : server.use (some handle)=server := by
  simp [SftpServer.use,h]

/-- An open handle can be closed. -/
theorem SftpServer.close_of_mem {handle : Handle} (h : handle∈server.opened) :
    server.close (some handle) = { server with opened := server.opened.erase handle } := by
  rw [SftpServer.close,use_of_mem h]

/-- NULL is no handle that can be used or closed. -/
theorem SftpServer.misused_none (server : SftpServer) :
    (server.use none).misused=true ∧ (server.close none).misused=true := by
  simp [SftpServer.close,SftpServer.use]

variable {handler : SftpHandler} {stream : Fin guacUserMaxStreams} {value : GuacStream SftpHandler}
variable {next : SftpSession}

/-- A handler without a handle is that of a file that could not be opened. -/
theorem SftpHandler.handle_eq_none (h : handler.handle=none) : handler=.upload none := by
  cases handler with
  | upload file => exact congrArg SftpHandler.upload h
  | download file => cases h
  | list directory => cases h

/-! ## What every state keeps -/

/-- What holds as long as every instruction is handled with care. -/
structure Good (session : SftpSession) : Prop where
  used : session.server.misused=false
  held : Held session.server.opened session.holder
  bounded : ∀ handle∈session.server.opened, handle<session.server.obtained
  allotted : ∃ history, Allotted userStreamIndex session.output history
  closed : ∀ stream, stream ∉ session.output.live →
    ¬IsOpen (session.output.owner.outputStreams.get stream)
  paired : ∀ stream, (session.inputStreams.get stream).blobHandler=
    (session.inputStreams.get stream).endHandler

theorem Good.kept {session : SftpSession} (h : Good session) : HandlesKept session :=
  ⟨h.used,fun handle hopened => (h.held.mem_iff handle).mp hopened⟩

theorem get_replicate {size : ℕ} (stream : Fin size) :
    (Vector.replicate size (closedStream : GuacStream SftpHandler)).get stream=closedStream :=
  Vector.getElem_replicate _

theorem not_isOpen_closedStream : ¬IsOpen closedStream := fun h => h rfl

theorem good_freshSession (objects : Fin guacUserMaxObjects→Option SftpFilesystem)
    (uploadPath : List UInt8) : Good (freshSession objects uploadPath) where
  used := rfl
  held := by
    refine held_empty.congr fun place => ?_
    cases place with
    | inl stream =>
      simp only [freshSession,SftpSession.holder,get_replicate,if_neg not_isOpen_closedStream]
    | inr stream =>
      simp only [freshSession,freshOwnerSession,freshOwner,SftpSession.holder,get_replicate,
        if_neg not_isOpen_closedStream]
  bounded handle h := by simp [freshSession] at h
  allotted := ⟨_,freshOwnerSession_allotted userStreamIndex⟩
  closed stream _ := by
    simp only [freshSession,freshOwnerSession,freshOwner,get_replicate]
    exact not_isOpen_closedStream
  paired stream := (congrArg GuacStream.blobHandler (get_replicate stream)).trans
    (congrArg GuacStream.endHandler (get_replicate stream)).symm

variable {session : SftpSession}

/-- Where an input stream is replaced, only its own place holds something else. -/
theorem holder_setInput (session : SftpSession) (server : SftpServer)
    (stream : Fin guacUserMaxStreams) (value : GuacStream SftpHandler) :
    let next : SftpSession := { session with
      server := server, inputStreams := session.inputStreams.set stream value stream.isLt }
    next.holder (.inl stream)=
        (if IsOpen value then value.endHandler.bind SftpHandler.handle else none) ∧
      ∀ place, place≠.inl stream → next.holder place=session.holder place := by
  refine ⟨by simp only [SftpSession.holder,get_set_self],fun place hplace => ?_⟩
  cases place with
  | inl other =>
    have hother : other≠stream := fun heq => hplace (congrArg Sum.inl heq)
    simp only [SftpSession.holder,get_set_of_ne hother]
  | inr other => rfl

/-- Where an output stream is replaced, only its own place holds something else. -/
theorem holder_setOutput (session : SftpSession) (server : SftpServer)
    {streams : Vector (GuacStream SftpHandler) guacUserMaxStreams} (pool : Pool.GuacPool)
    (live : List (Fin guacUserMaxStreams)) (stream : Fin guacUserMaxStreams)
    (hstreams : ∀ other, other≠stream →
      streams.get other=session.output.owner.outputStreams.get other) :
    let next : SftpSession := { session with server := server, output := ⟨⟨pool,streams⟩,live⟩ }
    next.holder (.inr stream)=(if IsOpen (streams.get stream) then
          (streams.get stream).ackHandler.bind SftpHandler.handle else none) ∧
      ∀ place, place≠.inr stream → next.holder place=session.holder place := by
  refine ⟨rfl,fun place hplace => ?_⟩
  cases place with
  | inl other => rfl
  | inr other =>
    have hother : other≠stream := fun heq => hplace (congrArg Sum.inr heq)
    simp only [SftpSession.holder,hstreams other hother]

/-- What stays when an input stream is replaced. -/
theorem Good.setInput (h : Good session) (hused : server.misused=false)
    (hheld : Held server.opened ({ session with
      server := server
      inputStreams := session.inputStreams.set stream value stream.isLt } : SftpSession).holder)
    (hbounded : ∀ handle∈server.opened, handle<server.obtained)
    (hpaired : value.blobHandler=value.endHandler) :
    Good { session with
      server := server, inputStreams := session.inputStreams.set stream value stream.isLt } where
  used := hused
  held := hheld
  bounded := hbounded
  allotted := h.allotted
  closed := h.closed
  paired other := by
    by_cases hother : other=stream
    · subst hother
      simpa only [get_set_self] using hpaired
    · simpa only [get_set_of_ne hother] using h.paired other

/-- A stream without a file ends or starts anew, and nothing else changes. -/
theorem Good.resetInput (h : Good session) (hholder : session.holder (.inl stream)=none)
    (hvalue : IsOpen value → value.endHandler=none)
    (hpaired : value.blobHandler=value.endHandler) :
    Good { session with inputStreams := session.inputStreams.set stream value stream.isLt } := by
  obtain ⟨hself,hothers⟩ := holder_setInput session session.server stream value
  refine h.setInput h.used (h.held.congr fun place => ?_) h.bounded hpaired
  by_cases hplace : place=.inl stream
  · subst hplace
    rw [hself,hholder]
    split
    next hopen => rw [hvalue hopen,Option.bind_none]
    next => rfl
  · exact hothers place hplace

/-- A stream that is open ends, with its file if it has one. -/
theorem Good.endInput (h : Good session) (hopen : IsOpen (session.inputStreams.get stream))
    (hopened : (session.inputStreams.get stream).endHandler≠some (.upload none))
    (hvalue : IsOpen value → value.endHandler=none)
    (hpaired : value.blobHandler=value.endHandler) :
    Good { session.callEnd stream with
      inputStreams := (session.callEnd stream).inputStreams.set stream value stream.isLt } := by
  have hholder : session.holder (.inl stream)=
      (session.inputStreams.get stream).endHandler.bind SftpHandler.handle := if_pos hopen
  cases hhandler : (session.inputStreams.get stream).endHandler with
  | none =>
    rw [hhandler] at hholder
    have hcall : session.callEnd stream=session := by simp only [SftpSession.callEnd,hhandler]
    rw [hcall]
    exact h.resetInput hholder hvalue hpaired
  | some handler =>
    rw [hhandler,Option.bind_some] at hholder
    cases hfile : handler.handle with
    | none =>
      rw [hhandler,SftpHandler.handle_eq_none hfile] at hopened
      exact absurd rfl hopened
    | some file =>
      rw [hfile] at hholder
      have hmem := h.held.mem hholder
      obtain ⟨hself,hothers⟩ :=
        holder_setInput session (session.server.close (some file)) stream value
      have hnone : (if IsOpen value then value.endHandler.bind SftpHandler.handle else none)=
          none := by
        split
        next hvalueOpen => rw [hvalue hvalueOpen,Option.bind_none]
        next => rfl
      have hclose := SftpServer.close_of_mem hmem
      have hcall : session.callEnd stream=
          { session with server := session.server.close (some file) } := by
        simp only [SftpSession.callEnd,hhandler,hfile]
      rw [hcall]
      refine h.setInput ?_ ?_ ?_ hpaired
      · rw [hclose]
        exact h.used
      · have hreleased := h.held.release hholder (hself.trans hnone) hothers
        rwa [hclose] at hreleased ⊢
      · rw [hclose]
        exact fun handle hmem => h.bounded handle (Finset.mem_of_mem_erase hmem)

/-- A file is opened for a stream without handlers. -/
theorem Good.openUpload (h : Good session)
    (hhandler : (session.inputStreams.get stream).endHandler=none)
    (hopen : IsOpen (session.inputStreams.get stream)) (found : Bool) :
    Good (session.openUpload stream found) := by
  have hholder : session.holder (.inl stream)=none := by
    rw [SftpSession.holder,hhandler,Option.bind_none,if_pos hopen]
  cases found with
  | false =>
    obtain ⟨hself,hothers⟩ := holder_setInput session session.server stream
      { session.inputStreams.get stream with
        blobHandler := some (.upload none)
        endHandler := some (.upload none) }
    refine h.setInput h.used (h.held.congr fun place => ?_) h.bounded rfl
    by_cases hplace : place=.inl stream
    · subst hplace
      exact (hself.trans (if_pos hopen)).trans hholder.symm
    · exact hothers place hplace
  | true =>
    obtain ⟨hself,hothers⟩ := holder_setInput session session.server.obtain stream
      { session.inputStreams.get stream with
        blobHandler := some (.upload (some session.server.obtained))
        endHandler := some (.upload (some session.server.obtained)) }
    have hnew : session.server.obtained ∉ session.server.opened :=
      fun hmem => absurd (h.bounded _ hmem) (Nat.lt_irrefl _)
    refine h.setInput h.used ?_ ?_ rfl
    · exact h.held.acquire hnew hholder (hself.trans (if_pos hopen)) hothers
    · intro handle hmem
      rcases Finset.mem_insert.mp hmem with rfl | hmem
      · exact Nat.lt_succ_self _
      · exact Nat.lt_succ_of_lt (h.bounded handle hmem)

/-- A stream that is allocated has an index of its own. -/
theorem isOpen_allocated (stream : Fin guacUserMaxStreams) (ack blob ended : Option SftpHandler) :
    IsOpen ⟨userStreamIndex stream.val,ack,blob,ended⟩ := by
  intro hclosed
  have hindex : (stream.val : ℤ)*2 = -1 := hclosed
  omega

/-- A handle gets a stream if there is one left. -/
theorem Good.startOutput (h : Good session) (houtput : session.HasOutput)
    (hhandle : handler.handle=some session.server.obtained) :
    ∃ next, session.startOutput handler=some next ∧ Good next := by
  obtain ⟨history,hallotted⟩ := h.allotted
  obtain ⟨stream,owner,history',halloc,hfresh,hstreams,hallotted'⟩ :=
    hallotted.allocates (by decide) houtput
  have hself : (setAckHandler stream handler owner).outputStreams.get stream=
      ⟨userStreamIndex stream.val,some handler,none,none⟩ := by
    simp only [setAckHandler,get_set_self,hstreams]
  have hothers : ∀ other, other≠stream →
      (setAckHandler stream handler owner).outputStreams.get other=
        session.output.owner.outputStreams.get other := by
    intro other hother
    simp only [setAckHandler,get_set_of_ne hother,hstreams]
  obtain ⟨hholder,hplaces⟩ := holder_setOutput session session.server.obtain owner.streamPool
    (stream::session.output.live) stream hothers
  have hnone : session.holder (.inr stream)=none := if_neg (h.closed stream hfresh)
  have hnew : session.server.obtained ∉ session.server.opened :=
    fun hmem => absurd (h.bounded _ hmem) (Nat.lt_irrefl _)
  have hstart : session.startOutput handler=some { session with
      output := ⟨setAckHandler stream handler owner,stream::session.output.live⟩
      server := session.server.obtain } := by
    rw [SftpSession.startOutput,guacUserAllocStream,halloc]
  refine ⟨_,hstart,h.used,?_,fun handle hmem => ?_,⟨history',?_⟩,fun other hother => ?_,h.paired⟩
  · refine h.held.acquire hnew hnone (hholder.trans ?_) hplaces
    rw [hself,if_pos (isOpen_allocated stream (some handler) none none),Option.bind_some,hhandle]
  · rcases Finset.mem_insert.mp hmem with rfl | hmem
    · exact Nat.lt_succ_self _
    · exact Nat.lt_succ_of_lt (h.bounded handle hmem)
  · refine hallotted'.congr rfl fun other => ?_
    by_cases hother : other=stream
    · subst hother
      rw [hself,hstreams,get_set_self]
    · rw [hothers other hother,hstreams,get_set_of_ne hother]
  · rw [List.mem_cons,not_or] at hother
    rw [hothers other hother.1]
    exact h.closed other hother.2

/-- A stream that is freed is closed, and its handlers stay. -/
theorem get_freeStream (stream other : Fin guacUserMaxStreams)
    (owner : StreamOwner SftpHandler guacUserMaxStreams) :
    ¬IsOpen ((guacUserFreeStream stream owner).outputStreams.get stream) ∧
      (other≠stream→(guacUserFreeStream stream owner).outputStreams.get other=
        owner.outputStreams.get other) := by
  simp only [guacUserFreeStream,freeStream,get_set_self]
  exact ⟨fun hopen => hopen rfl,fun hother => get_set_of_ne hother _⟩

/-- A stream is freed, and its handle is closed. -/
theorem Good.closeOutput (h : Good session) {file : Handle}
    (hholder : session.holder (.inr stream)=some file) :
    Good { session.freeOutput stream with server := session.server.close (some file) } := by
  have hlive : stream∈session.output.live := by
    by_contra hnot
    rw [SftpSession.holder,if_neg (h.closed stream hnot)] at hholder
    cases hholder
  obtain ⟨history,hallotted⟩ := h.allotted
  have hfree : session.output.free (fun index => index.tdiv 2) guacUserClosedStreamIndex stream=
      some (session.freeOutput stream).output := if_pos hlive
  obtain ⟨history',hallotted'⟩ := hallotted.free userStreamIndex_place (by decide) hfree
  have hclose := SftpServer.close_of_mem (h.held.mem hholder)
  obtain ⟨hself,hothers⟩ := holder_setOutput session (session.server.close (some file))
    (guacUserFreeStream stream session.output.owner).streamPool
    (session.output.live.erase stream) stream
    fun other => (get_freeStream stream other session.output.owner).2
  have hnodup : session.output.live.Nodup := by
    have hindices := (hallotted.law (fun i j hij => by
      simp only [userStreamIndex] at hij
      omega) (by decide)).nodup
    exact hindices.of_map _
  refine ⟨by rw [hclose]; exact h.used,?_,?_,⟨history',hallotted'⟩,fun other hother => ?_,h.paired⟩
  · have hreleased := h.held.release hholder
      (hself.trans (if_neg (get_freeStream stream stream session.output.owner).1)) hothers
    rw [hclose] at hreleased ⊢
    exact hreleased
  · rw [hclose]
    exact fun handle hmem => h.bounded handle (Finset.mem_of_mem_erase hmem)
  · by_cases heq : other=stream
    · subst heq
      exact (get_freeStream other other session.output.owner).1
    · have hnot : other ∉ session.output.live :=
        fun hmem => hother ((List.mem_erase_of_ne heq).mpr hmem)
      have hkept := (get_freeStream stream other session.output.owner).2 heq
      simp only [SftpSession.freeOutput,hkept]
      exact h.closed other hnot

/-! ## What an instruction does -/

variable {index : ℤ}

theorem mem_openInput :
    session.openInput index=some stream ↔ validIndex guacUserMaxStreams index=some stream ∧
        IsOpen (session.inputStreams.get stream) := by
  rw [SftpSession.openInput,Option.filter_eq_some_iff,decide_eq_true_eq]

/-- An index that is valid is not that of a closed stream. -/
theorem ne_closed_of_validIndex {size : ℕ} {place : Fin size}
    (h : validIndex size index=some place) : index≠guacUserClosedStreamIndex := by
  rw [validIndex] at h
  split at h
  next hindex =>
    rintro rfl
    exact absurd hindex.1 (by decide)
  next => cases h

/-- The end of a stream changes no stream by itself. -/
theorem callEnd_inputStreams (session : SftpSession) (stream : Fin guacUserMaxStreams) :
    (session.callEnd stream).inputStreams=session.inputStreams := by
  rw [SftpSession.callEnd]
  split <;> rfl

/-- The end of a stream whose file could not be opened. -/
theorem callEnd_misused (h : (session.inputStreams.get stream).endHandler=some (.upload none)) :
    (session.callEnd stream).server.misused=true := by
  simp only [SftpSession.callEnd,h]
  exact (SftpServer.misused_none _).2

/-- A stream starts anew. -/
theorem Good.initInput (h : Good session) (hopened : ¬session.Unopened index)
    (hinit : session.initInput index=some (stream,next)) :
    Good next ∧ IsOpen (next.inputStreams.get stream) ∧
      (next.inputStreams.get stream).endHandler=none := by
  obtain ⟨place,hvalid,heq⟩ := Option.map_eq_some_iff.mp hinit
  cases heq
  have hindex := ne_closed_of_validIndex hvalid
  refine ⟨?_,by simpa only [get_set_self,IsOpen] using hindex,by simp only [get_set_self]⟩
  by_cases hopen : IsOpen (session.inputStreams.get stream)
  · have hfile : (session.inputStreams.get stream).endHandler≠some (.upload none) :=
      fun hnone => hopened ⟨stream,mem_openInput.mpr ⟨hvalid,hopen⟩,hnone⟩
    simp only [if_pos hopen]
    exact h.endInput hopen hfile (fun _ => rfl) rfl
  · simp only [if_neg hopen]
    exact h.resetInput (if_neg hopen) (fun _ => rfl) rfl

/-- A stream whose file could not be opened starts anew. -/
theorem initInput_misused (h : session.Unopened index) :
    ∃ stream next, session.initInput index=some (stream,next) ∧ next.server.misused=true := by
  obtain ⟨stream,hstream,hnone⟩ := h
  obtain ⟨hvalid,hopen⟩ := mem_openInput.mp hstream
  simp only [SftpSession.initInput,hvalid,Option.map_some,if_pos hopen]
  exact ⟨stream,_,rfl,callEnd_misused hnone⟩

/-- A name that is translated fits in the list state. -/
theorem length_of_translateName {fullpath : StringBuffers.StringBuffer}
    {filesystem : SftpFilesystem} {name : List UInt8}
    (h : (guacCommonSshSftpTranslateName fullpath filesystem name).2=true) :
    name.length<guacCommonSshSftpMaxPath := by
  rw [guacCommonSshSftpTranslateName] at h
  cases hnormalized : guacCommonSshSftpNormalizePath name with
  | none =>
    rw [hnormalized] at h
    cases h
  | some normalized =>
    cases name with
    | nil => exact Nat.zero_lt_succ _
    | cons first rest =>
      rw [guacCommonSshSftpNormalizePath,PathNormalization.normalizePath_cons] at hnormalized
      split at hnormalized
      next hfits =>
        have hrest : rest.length<2047 := hfits.2
        rw [List.length_cons,guacCommonSshSftpMaxPath]
        omega
      next => cases hnormalized

/-- What opens a file or a directory finds a stream for it, if there is one left. -/
theorem Good.getHandler (h : Good session) {filesystem : SftpFilesystem} {name : List UInt8}
    {directory : Option Bool} {found : Bool}
    (houtput : (guacCommonSshSftpTranslateName ⟨[],0⟩ filesystem name).2=true →
      directory≠none → found=true → session.HasOutput) :
    ∃ next, getHandler filesystem name directory found session=some next ∧ Good next := by
  unfold SftpHandles.getHandler
  by_cases htranslated : (guacCommonSshSftpTranslateName ⟨[],0⟩ filesystem name).2=true
  · rw [if_pos htranslated]
    have hfits := length_of_translateName htranslated
    cases found with
    | false =>
      rcases directory with _ | _ | _
      · exact ⟨session,rfl,h⟩
      · exact ⟨session,rfl,h⟩
      · exact ⟨session,rfl,h⟩
    | true =>
      rcases directory with _ | _ | _
      · exact ⟨session,rfl,h⟩
      · exact h.startOutput (houtput htranslated nofun rfl) rfl
      · simp only [if_true,if_neg (Nat.not_le.mpr hfits)]
        exact h.startOutput (houtput htranslated nofun rfl) rfl
  · rw [if_neg htranslated]
    exact ⟨session,rfl,h⟩

/-- A handle only gets a stream if there is one left. -/
theorem Good.hasOutput (h : Good session) (hstart : session.startOutput handler=some next) :
    session.HasOutput := by
  by_contra hnone
  obtain ⟨history,hallotted⟩ := h.allotted
  have hlength := hallotted.length_le
  rw [SftpSession.HasOutput,Nat.not_lt] at hnone
  have hfull := hallotted.active_iff.mpr (le_antisymm hlength hnone)
  rw [SftpSession.startOutput,guacUserAllocStream,allocStream,if_pos hfull] at hstart
  cases hstart

/-- What a file or put instruction makes of a stream that starts anew. -/
theorem Good.opened (h : Good session) (hopened : ¬session.Unopened index)
    (hinit : session.initInput index=some (stream,next)) (filename : List UInt8)
    (filesystem : SftpFilesystem) (found : Bool) :
    Good (handleFileStream stream filename found next) ∧
      Good (putHandler filesystem stream filename found next) := by
  obtain ⟨hnext,hopen,hhandler⟩ := h.initInput hopened hinit
  have hupload := hnext.openUpload hhandler hopen found
  rw [handleFileStream,putHandler]
  constructor
  · split
    next => exact hnext
    next => exact hupload
  · split
    next => exact hupload
    next => exact hnext

/-- A blob is written to a file that is open. -/
theorem Good.blob (h : Good session) (hopen : IsOpen (session.inputStreams.get stream))
    (hhandler : (session.inputStreams.get stream).endHandler=some handler)
    (hopened : handler≠.upload none) :
    Good { session with server := session.server.use handler.handle } := by
  cases hfile : handler.handle with
  | none => exact absurd (SftpHandler.handle_eq_none hfile) hopened
  | some file =>
    have hholder : session.holder (.inl stream)=some file := by
      rw [SftpSession.holder,if_pos hopen,hhandler,Option.bind_some,hfile]
    rwa [SftpServer.use_of_mem (h.held.mem hholder)]

/-- A download goes on, or ends with its file. -/
theorem Good.ackHandler (h : Good session) {file : Handle}
    (hholder : session.holder (.inr stream)=some file) (bytesRead : ℤ) :
    Good (ackHandler stream file guacProtocolStatusSuccess bytesRead session) := by
  rw [SftpHandles.ackHandler,if_pos rfl,SftpServer.use_of_mem (h.held.mem hholder)]
  split
  next => exact h
  next => exact h.closeOutput hholder

/-- A listing goes on, or ends with its directory. -/
theorem Good.lsAckHandler (h : Good session) {directory : Handle}
    (hholder : session.holder (.inr stream)=some directory) (status : ℤ) (entries : List Bool) :
    Good (lsAckHandler stream directory status entries session) := by
  rw [SftpHandles.lsAckHandler,SftpServer.use_of_mem (h.held.mem hholder)]
  split
  next =>
    split
    next => exact h.closeOutput hholder
    next => exact h
  next => exact h.closeOutput hholder

theorem mem_openOutput (h : session.openOutput index=some stream) :
    IsOpen (session.output.owner.outputStreams.get stream) := by
  rw [SftpSession.openOutput] at h
  split at h
  next => cases h
  next =>
    rw [Option.filter_eq_some_iff,decide_eq_true_eq] at h
    exact h.2

/-- An instruction that is handled with care keeps what holds. -/
theorem Good.step (h : Good session) {instruction : SftpInstruction}
    (hcareful : Careful instruction session) :
    ∃ next, sftpStep instruction session=some next ∧ Good next := by
  cases instruction with
  | file index filename found =>
    simp only [sftpStep]
    cases hinit : session.initInput index with
    | none => exact ⟨session,rfl,h⟩
    | some init => exact ⟨_,rfl,(h.opened hcareful hinit filename ⟨[]⟩ found).1⟩
  | put object index name found =>
    simp only [sftpStep]
    cases hobject : session.object object with
    | none => exact ⟨session,rfl,h⟩
    | some filesystem =>
      have hopened := hcareful (by rw [hobject]; exact Option.some_ne_none _)
      cases hinit : session.initInput index with
      | none => exact ⟨session,rfl,h⟩
      | some init => exact ⟨_,rfl,(h.opened hopened hinit name filesystem found).2⟩
  | get object name directory found =>
    simp only [sftpStep]
    cases hobject : session.object object with
    | none => exact ⟨session,rfl,h⟩
    | some filesystem => exact h.getHandler (hcareful filesystem hobject)
  | blob index =>
    simp only [sftpStep]
    cases hstream : session.openInput index with
    | none => exact ⟨session,rfl,h⟩
    | some stream =>
      dsimp only
      rw [h.paired stream]
      cases hhandler : (session.inputStreams.get stream).endHandler with
      | none => exact ⟨session,rfl,h⟩
      | some handler =>
        refine ⟨_,rfl,h.blob (mem_openInput.mp hstream).2 hhandler ?_⟩
        rintro rfl
        exact hcareful ⟨stream,hstream,hhandler⟩
  | ended index =>
    simp only [sftpStep]
    cases hstream : session.openInput index with
    | none => exact ⟨session,rfl,h⟩
    | some stream =>
      refine ⟨_,rfl,h.endInput (mem_openInput.mp hstream).2
        (fun hnone => hcareful ⟨stream,hstream,hnone⟩) (fun hopen => absurd rfl hopen) ?_⟩
      rw [callEnd_inputStreams]
      exact h.paired stream
  | ack index status bytesRead entries =>
    simp only [sftpStep]
    cases hstream : session.openOutput index with
    | none => exact ⟨session,rfl,h⟩
    | some stream =>
      have hopen := mem_openOutput hstream
      dsimp only
      cases hhandler : (session.output.owner.outputStreams.get stream).ackHandler with
      | none => exact ⟨session,rfl,h⟩
      | some handler =>
        have hholder : session.holder (.inr stream)=handler.handle := by
          rw [SftpSession.holder,if_pos hopen,hhandler,Option.bind_some]
        cases handler with
        | upload file => exact ⟨session,rfl,h⟩
        | download file =>
          rw [hcareful stream hstream file hhandler]
          exact ⟨_,rfl,h.ackHandler hholder bytesRead⟩
        | list directory => exact ⟨_,rfl,h.lsAckHandler hholder status entries⟩
  | download found =>
    cases found with
    | false => exact ⟨session,rfl,h⟩
    | true => exact h.startOutput (hcareful rfl) rfl

/-- Opening a file makes nothing good. -/
theorem opened_misused (stream : Fin guacUserMaxStreams) (filename : List UInt8)
    (filesystem : SftpFilesystem) (found : Bool) :
    (handleFileStream stream filename found session).server.misused=session.server.misused ∧
      (putHandler filesystem stream filename found session).server.misused=
        session.server.misused := by
  have hupload : (session.openUpload stream found).server.misused=session.server.misused := by
    cases found <;> rfl
  rw [handleFileStream,putHandler]
  constructor
  · split
    next => rfl
    next => exact hupload
  · split
    next => exact hupload
    next => rfl

/-- A download that the user refuses leaves its file without a stream. -/
theorem Good.refused (h : Good session) {file : Handle}
    (hholder : session.holder (.inr stream)=some file) :
    ¬HandlesKept (session.freeOutput stream) := by
  intro hkept
  obtain ⟨hself,hothers⟩ := holder_setOutput session session.server
    (guacUserFreeStream stream session.output.owner).streamPool
    (session.output.live.erase stream) stream
    fun other => (get_freeStream stream other session.output.owner).2
  exact h.held.not_dropped hholder
    (hself.trans (if_neg (get_freeStream stream stream session.output.owner).1)) hothers
    (hkept.held file (h.held.mem hholder))

/-- Only an instruction that is handled with care leads to a state that keeps the handles. -/
theorem Good.careful (h : Good session) {instruction : SftpInstruction}
    (hstep : sftpStep instruction session=some next) (hkept : HandlesKept next) :
    Careful instruction session := by
  cases instruction with
  | file index filename found =>
    intro hunopened
    obtain ⟨stream,init,hinit,hmisused⟩ := initInput_misused hunopened
    simp only [sftpStep,hinit,Option.some.injEq] at hstep
    have hused := hkept.used
    rw [←hstep,(opened_misused stream filename ⟨[]⟩ found).1,hmisused] at hused
    cases hused
  | put object index name found =>
    intro hobject hunopened
    obtain ⟨filesystem,hfilesystem⟩ := Option.ne_none_iff_exists'.mp hobject
    obtain ⟨stream,init,hinit,hmisused⟩ := initInput_misused hunopened
    simp only [sftpStep,hfilesystem,hinit,Option.some.injEq] at hstep
    have hused := hkept.used
    rw [←hstep,(opened_misused stream name filesystem found).2,hmisused] at hused
    cases hused
  | get object name directory found =>
    rintro filesystem hfilesystem htranslated hdirectory rfl
    simp only [sftpStep,hfilesystem,SftpHandles.getHandler,if_pos htranslated] at hstep
    rcases directory with _ | _ | _
    · exact absurd rfl hdirectory
    · exact h.hasOutput hstep
    · simp only [if_true,if_neg (Nat.not_le.mpr (length_of_translateName htranslated))] at hstep
      exact h.hasOutput hstep
  | blob index =>
    rintro ⟨stream,hstream,hnone⟩
    have hblob := h.paired stream
    rw [hnone] at hblob
    have hopen : session.openInput index=some stream := hstream
    simp only [sftpStep,hopen,hblob,Option.some.injEq] at hstep
    have hused := hkept.used
    rw [←hstep] at hused
    exact absurd ((SftpServer.misused_none session.server).1.symm.trans hused) nofun
  | ended index =>
    rintro ⟨stream,hstream,hnone⟩
    have hopen : session.openInput index=some stream := hstream
    simp only [sftpStep,hopen,Option.some.injEq] at hstep
    have hused := hkept.used
    rw [←hstep] at hused
    exact absurd ((callEnd_misused hnone).symm.trans hused) nofun
  | ack index status bytesRead entries =>
    intro stream hstream file hhandler
    by_contra hrefused
    have hopen : session.openOutput index=some stream := hstream
    simp only [sftpStep,hopen,hhandler,SftpHandles.ackHandler,if_neg hrefused,
      Option.some.injEq] at hstep
    have hholder : session.holder (.inr stream)=some file := by
      rw [SftpSession.holder,if_pos (mem_openOutput hopen),hhandler]
      rfl
    exact h.refused hholder (hstep ▸ hkept)
  | download found =>
    rintro rfl
    exact h.hasOutput hstep

/-- After any instructions, libssh2 was called only with open handles, and a handle is open
only as long as its stream, exactly as long as every instruction is handled with care. -/
theorem sftp_handles_kept_iff (objects : Fin guacUserMaxObjects→Option SftpFilesystem)
    (uploadPath : List UInt8) (instructions : List SftpInstruction) :
    (∀ made, made <+: instructions →
      ∃ session, run sftpStep made (freshSession objects uploadPath)=some session ∧
        HandlesKept session) ↔
      Along sftpStep Careful instructions (freshSession objects uploadPath) :=
  run_iff_along Good.kept (fun h hcareful => h.step hcareful)
    (fun h hstep hkept => h.careful hstep hkept) instructions
    (good_freshSession objects uploadPath)

/-- The user refuses the file "/a" of the file system at "/", which is never closed. -/
theorem not_sftp_handles_kept :
    ¬∀ (objects : Fin guacUserMaxObjects→Option SftpFilesystem) (uploadPath : List UInt8)
      (instructions : List SftpInstruction) (session : SftpSession),
      run sftpStep instructions (freshSession objects uploadPath)=some session →
        HandlesKept session := by
  intro h
  have hkept := h (fun _ => some ⟨[0x2F]⟩) [0x2E]
    [.get 0 [0x2F,0x61] (some false) true,.ack 0 0x0303 0 []] _ rfl
  have hget : Careful (.get 0 [0x2F,0x61] (some false) true)
      (freshSession (fun _ => some ⟨[0x2F]⟩) [0x2E]) := fun _ _ _ _ _ => Nat.zero_lt_succ 63
  obtain ⟨session,hstep,hgood⟩ := (good_freshSession _ _).step hget
  cases hstep
  have hcareful : Careful (.ack 0 0x0303 0 []) _ := hgood.careful rfl hkept
  exact absurd (hcareful ⟨0,by decide⟩ rfl 0 rfl) (by decide)

end GuacServer.SftpHandles
