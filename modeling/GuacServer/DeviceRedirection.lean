import GuacServer.ByteStreams
import GuacServer.PrintJobs
import GuacServer.RdpDrive
import GuacServer.RdpUnicode

/-!
# The RDPDR channel

The server announces itself and its capabilities, and makes I/O requests to the devices,
which are a printer and a drive. What a message says of lengths is not compared with the
length of the message. What is sent to the server is left out.
-/

namespace GuacServer.DeviceRedirection

open ByteStreams DecimalNumerals StringBuffers PrintJobs RdpDrive RdpUnicode Unicode

/-- A guac_rdpdr_device, by its I/O request handler. -/
inductive Device
  | printer
  | filesystem
  deriving DecidableEq

/-- guac_rdp_print_job, with its filename. -/
structure ActiveJob extends PrintJob where
  /-- The filename, without its null terminator. -/
  filename : List UInt8
  deriving DecidableEq

/-- guac_rdpdr, and what the devices of the connection hold. -/
structure Rdpdr where
  /-- The devices that are registered. -/
  devices : List Device
  /-- The print job, if there is one. -/
  activeJob : Option ActiveJob
  /-- The drive. -/
  fs : RdpFs
  /-- The patterns of the files for the entries of directories. -/
  dirPatterns : ℤ→List UInt8
  /-- The system calls made for the drive. -/
  calls : List SystemCall
  /-- The paths of the files that were sent to the owner. -/
  downloads : List (List UInt8)

/-- guac_rdpdr_process_connect. -/
def guacRdpdrProcessConnect (printingEnabled driveEnabled : Bool) (fs : RdpFs)
    (dirPatterns : ℤ→List UInt8) : Rdpdr where
  devices :=
    (if printingEnabled then [.printer] else [])++if driveEnabled then [.filesystem] else []
  activeJob := none
  fs := fs
  dirPatterns := dirPatterns
  calls := []
  downloads := []

/-- An entry that is read from a directory, and what is answered when it is opened. -/
structure HostEntry where
  /-- The name, and what is in the memory behind it. -/
  name : List UInt8
  opened : OpenAnswers

/-- What the owner and the operating system answer while a message is handled. -/
structure Host where
  /-- A print job can be started. -/
  printJob : Bool
  /-- The file asked for is opened. -/
  opened : OpenAnswers
  /-- The folder for downloads is opened. -/
  download : OpenAnswers
  /-- Bytes are read or written. -/
  transferred : Except Errno ℕ
  /-- A file is renamed, deleted or truncated. -/
  outcome : Option Errno
  /-- A stream is opened for a directory. -/
  dirOpened : Bool
  /-- The entries that are read. -/
  entries : List HostEntry
  /-- fnmatch() finds that a filename matches a pattern. -/
  fnmatch : List UInt8→List UInt8→Bool

/-- A number of bytes as it is passed to write(). -/
def byteCount (length : ℤ) : ℕ := (length%2^64).toNat

/-- guac_rdp_utf16_to_utf8 of so many units of a message into a buffer. -/
def readText (length : ℤ) (size : ℕ) (input : ByteStream) : Option (List UInt8) := do
  let (utf16,_) ← input.readUInts 2 length.toNat
  let utf8 := guacRdpUtf16ToUtf8 (utf16.map UInt16.ofNat) size
  guard (utf8.written ≤ size)
  some utf8.contents

/-! ## The printer -/

/-- What a title starts with. -/
def titleHeader : List UInt8 := ascii "%%Title: "

/-- GUAC_RDP_PRINT_JOB_FILENAME_MAX_LENGTH. -/
def guacRdpPrintJobFilenameMaxLength : ℕ := 1024

/-- GUAC_RDP_PRINT_JOB_DEFAULT_FILENAME. -/
def guacRdpPrintJobDefaultFilename : List UInt8 := ascii "guacamole-print.pdf"

/-- GUAC_RDP_PRINT_JOB_TITLE_SEARCH_LENGTH. -/
def guacRdpPrintJobTitleSearchLength : ℤ := 2048

/-- A text is compared, up to the first byte that differs. -/
def startsWith : List UInt8→ByteStream→Option Bool
  | [], _ => some true
  | c::text, input => do
    let (b,input) ← input.readUInt 1
    if b=c.toNat then startsWith text input else some false

/-- The loop that copies a title, up to the end of its line. -/
def copyTitle : ℕ→ByteStream→Option (List UInt8)
  | 0, _ => some []
  | remaining+1, input => do
    let (c,input) ← input.readUInt 1
    if c=13 ∨ c=10 then some []
    else (copyTitle remaining input).map (UInt8.ofNat c :: ·)

/-- guac_rdp_print_job_parse_title_header, which returns the filename if it finds one. -/
def guacRdpPrintJobParseTitleHeader (buffer : ByteStream) (length : ℤ) :
    Option (Option (List UInt8)) := do
  if ← startsWith titleHeader buffer then
    let space : ℤ := guacRdpPrintJobFilenameMaxLength-5
    let remaining := if length-9<space then length-9 else space
    let title ← copyTitle remaining.toNat (buffer.seek 9)
    some (some (title++ascii ".pdf"))
  else some none

/-- The loop of guac_rdp_print_job_read_filename, which counts up while the length counts
down. -/
def searchTitle (i length : ℕ) (current : ByteStream) : Option (Option (List UInt8)) :=
  if i<length then do
    match ← guacRdpPrintJobParseTitleHeader current length with
    | some filename => some (some filename)
    | none => searchTitle (i+1) (length-1) (current.seek 1)
  else some none
termination_by length-i

/-- guac_rdp_print_job_read_filename, which leaves the filename if it finds none. -/
def guacRdpPrintJobReadFilename (buffer : ByteStream) (length : ℤ) (filename : List UInt8) :
    Option (List UInt8) := do
  let length :=
    if length > guacRdpPrintJobTitleSearchLength then guacRdpPrintJobTitleSearchLength else length
  let found ← searchTitle 0 length.toNat buffer
  some (found.getD filename)

/-- guac_rdp_print_job_write. -/
def ActiveJob.write (buffer : ByteStream) (length : ℤ) (job : ActiveJob) : Option ActiveJob := do
  let filename ←
    if job.bytesReceived=0 then guacRdpPrintJobReadFilename buffer length job.filename
    else some job.filename
  guard (buffer.Covers (byteCount length))
  some { guacRdpPrintJobWrite length job.toPrintJob with filename := filename }

/-- guac_rdpdr_process_print_job_create. -/
def guacRdpdrProcessPrintJobCreate (host : Host) (rdpdr : Rdpdr) : Option Rdpdr :=
  some { rdpdr with
    activeJob :=
      if host.printJob then
        some { guacRdpPrintJobAlloc with filename := guacRdpPrintJobDefaultFilename }
      else none }

/-- guac_rdpdr_process_print_job_write. -/
def guacRdpdrProcessPrintJobWrite (input : ByteStream) (rdpdr : Rdpdr) : Option Rdpdr := do
  let (length,input) ← input.readUInt 4
  let input := input.seek 8
  let buffer := input.seek 20
  match rdpdr.activeJob with
  | none => some rdpdr
  | some job =>
    (job.write buffer (wrap32 length)).map fun job => { rdpdr with activeJob := some job }

/-- guac_rdpdr_process_print_job_close. -/
def guacRdpdrProcessPrintJobClose (rdpdr : Rdpdr) : Option Rdpdr :=
  some { rdpdr with activeJob := none }

/-! ## The drive -/

/-- The header of an I/O request. -/
structure IoRequest where
  deviceId : ℤ
  fileId : ℤ
  /-- What a response refers to. -/
  completionId : ℤ
  /-- The function. -/
  majorFunc : ℤ
  /-- A variant of it. -/
  minorFunc : ℤ
  deriving DecidableEq

/-- FileDirectoryInformation, FileFullDirectoryInformation, FileBothDirectoryInformation and
FileNamesInformation. -/
def directoryClasses : List ℕ := [1,2,3,12]

/-- FileEndOfFileInformation. -/
def fileEndOfFileInformation : ℕ := 20

/-- FileDispositionInformation. -/
def fileDispositionInformation : ℕ := 13

/-- FileRenameInformation. -/
def fileRenameInformation : ℕ := 10

/-- FileAllocationInformation. -/
def fileAllocationInformation : ℕ := 19

/-- The folder for downloads. -/
def downloadFolder : List UInt8 := ascii "\\Download"

/-- Files of the folder for downloads start with this. -/
def inDownloadFolder (path : List UInt8) : Bool := (downloadFolder++[0x5C]).isPrefixOf path

/-- An operation on the drive is made. -/
def Rdpdr.made (step : Step) (rdpdr : Rdpdr) : Rdpdr :=
  { rdpdr with fs := step.fs, calls := rdpdr.calls++step.calls }

/-- guac_rdp_fs_open, which clears the pattern of the file. -/
def Rdpdr.openFile (path : List UInt8) (access createDisposition createOptions : UInt32)
    (answers : OpenAnswers) (rdpdr : Rdpdr) : Rdpdr×ℤ :=
  let step := guacRdpFsOpen rdpdr.fs path access createDisposition createOptions answers
  ({ rdpdr.made step with
      dirPatterns :=
        if step.result<0 then rdpdr.dirPatterns
        else Function.update rdpdr.dirPatterns step.result [] },step.result)

/-- guac_rdp_fs_close. -/
def Rdpdr.closeFile (fileId : ℤ) (rdpdr : Rdpdr) : Rdpdr :=
  rdpdr.made (guacRdpFsClose rdpdr.fs fileId)

/-- guac_rdp_fs_delete. -/
def Rdpdr.deleteFile (fileId : ℤ) (host : Host) (rdpdr : Rdpdr) : Rdpdr :=
  rdpdr.made (guacRdpFsDelete rdpdr.fs fileId host.outcome)

/-- guac_rdp_download_to_user for the owner. -/
def Rdpdr.download (path : List UInt8) (rdpdr : Rdpdr) : Rdpdr :=
  { rdpdr with downloads := rdpdr.downloads++[path] }

/-- A file is opened, and the folder for downloads is created with the root. -/
def Rdpdr.create (path : List UInt8) (desiredAccess createDisposition createOptions : UInt32)
    (host : Host) (rdpdr : Rdpdr) : Rdpdr :=
  let (rdpdr,fileId) :=
    rdpdr.openFile path desiredAccess createDisposition createOptions host.opened
  match guacRdpFsGetFile rdpdr.fs fileId with
  | none => rdpdr
  | some file =>
    if file.absolutePath=[0x5C] then
      -- GENERIC_READ, FILE_OPEN_IF and FILE_DIRECTORY_FILE
      let (rdpdr,downloadId) := rdpdr.openFile downloadFolder 0x80000000 3 1 host.download
      if downloadId≥0 then rdpdr.closeFile downloadId else rdpdr
    else rdpdr

/-- guac_rdpdr_fs_process_create. -/
def guacRdpdrFsProcessCreate (host : Host) (input : ByteStream) (rdpdr : Rdpdr) : Option Rdpdr := do
  let (desiredAccess,input) ← input.readUInt 4
  let input := input.seek 8
  let (_,input) ← input.readUInt 4
  let input := input.seek 4
  let (createDisposition,input) ← input.readUInt 4
  let (createOptions,input) ← input.readUInt 4
  let (pathLength,input) ← input.readUInt 4
  let path ← readText ((wrap32 pathLength).tdiv 2-1) guacRdpFsMaxPath input
  some (rdpdr.create path (.ofNat desiredAccess) (.ofNat createDisposition)
    (.ofNat createOptions) host)

/-- guac_rdpdr_fs_process_read. -/
def guacRdpdrFsProcessRead (host : Host) (request : IoRequest) (input : ByteStream)
    (rdpdr : Rdpdr) : Option Rdpdr := do
  let (_,input) ← input.readUInt 4
  let (_,_) ← input.readUInt 8
  some (rdpdr.made (guacRdpFsRead rdpdr.fs request.fileId host.transferred))

/-- guac_rdpdr_fs_process_write: the bytes are taken if there is such a file. -/
def guacRdpdrFsProcessWrite (host : Host) (request : IoRequest) (input : ByteStream)
    (rdpdr : Rdpdr) : Option Rdpdr := do
  let (length,input) ← input.readUInt 4
  let (_,input) ← input.readUInt 8
  let input := input.seek 20
  guard ((guacRdpFsGetFile rdpdr.fs request.fileId).isSome=true →
    input.Covers (byteCount (wrap32 length)))
  some (rdpdr.made (guacRdpFsWrite rdpdr.fs request.fileId host.transferred))

/-- guac_rdpdr_fs_process_close. -/
def guacRdpdrFsProcessClose (host : Host) (request : IoRequest) (rdpdr : Rdpdr) : Option Rdpdr :=
  match guacRdpFsGetFile rdpdr.fs request.fileId with
  | none => some rdpdr
  | some file =>
    let rdpdr :=
      if file.bytesWritten > 0 ∧ inDownloadFolder file.absolutePath then
        (rdpdr.download file.absolutePath).deleteFile request.fileId host
      else rdpdr
    some (rdpdr.closeFile request.fileId)

/-- guac_rdpdr_fs_process_volume_info and guac_rdpdr_fs_process_file_info, whose handlers
for each class only respond. -/
def processInfo (input : ByteStream) (rdpdr : Rdpdr) : Option Rdpdr := do
  let (_,_) ← input.readUInt 4
  some rdpdr

/-- guac_rdpdr_fs_process_volume_info. -/
def guacRdpdrFsProcessVolumeInfo : ByteStream→Rdpdr→Option Rdpdr := processInfo

/-- guac_rdpdr_fs_process_file_info. -/
def guacRdpdrFsProcessFileInfo : ByteStream→Rdpdr→Option Rdpdr := processInfo

/-- A file is moved, or sent if it is moved to the folder for downloads. -/
def Rdpdr.rename (fileId : ℤ) (destinationPath : List UInt8) (host : Host) (rdpdr : Rdpdr) :
    Rdpdr :=
  if inDownloadFolder destinationPath then
    match guacRdpFsGetFile rdpdr.fs fileId with
    | none => rdpdr
    | some file => rdpdr.download file.absolutePath
  else rdpdr.made (guacRdpFsRename rdpdr.fs fileId destinationPath host.outcome)

/-- guac_rdpdr_fs_process_set_rename_info. -/
def guacRdpdrFsProcessSetRenameInfo (host : Host) (request : IoRequest) (input : ByteStream)
    (rdpdr : Rdpdr) : Option Rdpdr := do
  let input := (input.seek 1).seek 1
  let (filenameLength,input) ← input.readUInt 4
  let destinationPath ← readText ((wrap32 filenameLength).tdiv 2) guacRdpFsMaxPath input
  some (rdpdr.rename request.fileId destinationPath host)

/-- A new size is read, and the file is truncated. -/
def setSize (host : Host) (request : IoRequest) (input : ByteStream) (rdpdr : Rdpdr) :
    Option Rdpdr := do
  let (_,_) ← input.readUInt 8
  some (rdpdr.made (guacRdpFsTruncate rdpdr.fs request.fileId host.outcome))

/-- guac_rdpdr_fs_process_set_allocation_info. -/
def guacRdpdrFsProcessSetAllocationInfo : Host→IoRequest→ByteStream→Rdpdr→Option Rdpdr := setSize

/-- guac_rdpdr_fs_process_set_end_of_file_info. -/
def guacRdpdrFsProcessSetEndOfFileInfo : Host→IoRequest→ByteStream→Rdpdr→Option Rdpdr := setSize

/-- guac_rdpdr_fs_process_set_disposition_info. -/
def guacRdpdrFsProcessSetDispositionInfo (host : Host) (request : IoRequest) (rdpdr : Rdpdr) :
    Option Rdpdr :=
  some (rdpdr.deleteFile request.fileId host)

/-- guac_rdpdr_fs_process_set_file_info, where nothing is done for FileBasicInformation. -/
def guacRdpdrFsProcessSetFileInfo (host : Host) (request : IoRequest) (input : ByteStream)
    (rdpdr : Rdpdr) : Option Rdpdr := do
  let (fsInformationClass,input) ← input.readUInt 4
  let (_,input) ← input.readUInt 4
  let input := input.seek 24
  if fsInformationClass=fileEndOfFileInformation then
    guacRdpdrFsProcessSetEndOfFileInfo host request input rdpdr
  else if fsInformationClass=fileDispositionInformation then
    guacRdpdrFsProcessSetDispositionInfo host request rdpdr
  else if fsInformationClass=fileRenameInformation then
    guacRdpdrFsProcessSetRenameInfo host request input rdpdr
  else if fsInformationClass=fileAllocationInformation then
    guacRdpdrFsProcessSetAllocationInfo host request input rdpdr
  else some rdpdr

/-! ## Directories -/

/-- The size of the buffers for the names of entries. -/
def utf16EntryNameSize : ℕ := 256

/-- guac_rdp_fs_convert_path, where the space that is left is an unsigned number of 64 bits. -/
def guacRdpFsConvertPath (parent relPath : List UInt8) : Option StringBuffer :=
  let remaining := fun length => (guacRdpFsMaxPath+2^64-length)%2^64
  let (combinedPath,length) := guacStrlcpy 0 parent guacRdpFsMaxPath ⟨[],0⟩
  let (combinedPath,added) := guacStrlcpy length [0x5C] (remaining length) combinedPath
  let length := length+added
  let (combinedPath,_) := guacStrlcpy length relPath (remaining length) combinedPath
  guacRdpFsNormalizePath combinedPath.contents

/-- guac_rdpdr_fs_process_query_directory_info and its siblings for the other classes, which
convert the name alike before they respond. -/
def queryEntry (entryName : List UInt8) : Option Unit :=
  guard (2*(guacRdpUtf8ToUtf16 (guacUtf8Strlen entryName) entryName
    utf16EntryNameSize).length≤utf16EntryNameSize)

/-- The loop of guac_rdpdr_fs_process_query_directory, which ends with the first entry that
matches and can be opened. -/
def queryEntries (host : Host) (fileId : ℤ) (fsInformationClass : ℕ) :
    List HostEntry→Rdpdr→Option Rdpdr
  | [], rdpdr => some (rdpdr.made (guacRdpFsReadDir rdpdr.fs fileId ⟨host.dirOpened,false⟩))
  | entry::entries, rdpdr => do
    let readDir := guacRdpFsReadDir rdpdr.fs fileId ⟨host.dirOpened,true⟩
    let rdpdr := rdpdr.made readDir
    if readDir.result=0 then some rdpdr
    else
      match guacRdpFsConvertPath (rdpdr.fs.files fileId).absolutePath (cString entry.name) with
      | none => queryEntries host fileId fsInformationClass entries rdpdr
      | some entryPath =>
        guard (entryPath.written≤guacRdpFsMaxPath)
        if host.fnmatch (rdpdr.dirPatterns fileId) entryPath.contents then
          -- FILE_READ_DATA and FILE_OPEN
          let (rdpdr,entryFileId) := rdpdr.openFile entryPath.contents 1 1 0 entry.opened
          if entryFileId≥0 then
            if fsInformationClass∈directoryClasses then queryEntry entry.name
            some (rdpdr.closeFile entryFileId)
          else queryEntries host fileId fsInformationClass entries rdpdr
        else queryEntries host fileId fsInformationClass entries rdpdr

/-- guac_rdpdr_fs_process_query_directory. -/
def guacRdpdrFsProcessQueryDirectory (host : Host) (request : IoRequest) (input : ByteStream)
    (rdpdr : Rdpdr) : Option Rdpdr :=
  match guacRdpFsGetFile rdpdr.fs request.fileId with
  | none => some rdpdr
  | some _ => do
    let (fsInformationClass,input) ← input.readUInt 4
    let (initialQuery,input) ← input.readUInt 1
    let (pathLength,input) ← input.readUInt 4
    let dirPatterns ←
      if initialQuery=0 then some rdpdr.dirPatterns
      else
        (readText ((wrap32 pathLength).tdiv 2-1) guacRdpFsMaxPath (input.seek 23)).map
          (Function.update rdpdr.dirPatterns request.fileId)
    queryEntries host request.fileId fsInformationClass host.entries
      { rdpdr with dirPatterns := dirPatterns }

/-! ## Messages -/

/-- IRP_MJ_CREATE. -/
def irpMjCreate : ℤ := 0x00

/-- IRP_MJ_CLOSE. -/
def irpMjClose : ℤ := 0x02

/-- IRP_MJ_READ. -/
def irpMjRead : ℤ := 0x03

/-- IRP_MJ_WRITE. -/
def irpMjWrite : ℤ := 0x04

/-- IRP_MJ_QUERY_INFORMATION. -/
def irpMjQueryInformation : ℤ := 0x05

/-- IRP_MJ_SET_INFORMATION. -/
def irpMjSetInformation : ℤ := 0x06

/-- IRP_MJ_QUERY_VOLUME_INFORMATION. -/
def irpMjQueryVolumeInformation : ℤ := 0x0A

/-- IRP_MJ_DIRECTORY_CONTROL. -/
def irpMjDirectoryControl : ℤ := 0x0C

/-- IRP_MN_QUERY_DIRECTORY. -/
def irpMnQueryDirectory : ℤ := 0x01

/-- guac_rdpdr_device_printer_iorequest_handler. -/
def guacRdpdrDevicePrinterIorequestHandler (host : Host) (request : IoRequest)
    (input : ByteStream) (rdpdr : Rdpdr) : Option Rdpdr :=
  if request.majorFunc=irpMjCreate then guacRdpdrProcessPrintJobCreate host rdpdr
  else if request.majorFunc=irpMjWrite then guacRdpdrProcessPrintJobWrite input rdpdr
  else if request.majorFunc=irpMjClose then guacRdpdrProcessPrintJobClose rdpdr
  else some rdpdr

/-- guac_rdpdr_device_fs_iorequest_handler. The functions that are not named only respond or
are ignored. -/
def guacRdpdrDeviceFsIorequestHandler (host : Host) (request : IoRequest) (input : ByteStream)
    (rdpdr : Rdpdr) : Option Rdpdr :=
  if request.majorFunc=irpMjCreate then guacRdpdrFsProcessCreate host input rdpdr
  else if request.majorFunc=irpMjClose then guacRdpdrFsProcessClose host request rdpdr
  else if request.majorFunc=irpMjRead then guacRdpdrFsProcessRead host request input rdpdr
  else if request.majorFunc=irpMjWrite then guacRdpdrFsProcessWrite host request input rdpdr
  else if request.majorFunc=irpMjQueryVolumeInformation then
    guacRdpdrFsProcessVolumeInfo input rdpdr
  else if request.majorFunc=irpMjQueryInformation then guacRdpdrFsProcessFileInfo input rdpdr
  else if request.majorFunc=irpMjSetInformation then
    guacRdpdrFsProcessSetFileInfo host request input rdpdr
  else if request.majorFunc=irpMjDirectoryControl ∧ request.minorFunc=irpMnQueryDirectory then
    guacRdpdrFsProcessQueryDirectory host request input rdpdr
  else some rdpdr

/-- The device with an ID. -/
def Rdpdr.device (deviceId : ℤ) (rdpdr : Rdpdr) : Option Device :=
  if deviceId≥0 then rdpdr.devices[deviceId.toNat]? else none

/-- The handler of the device is called, if there is such a device. -/
def callHandler (host : Host) (request : IoRequest) (input : ByteStream) (rdpdr : Rdpdr) :
    Option Rdpdr :=
  match rdpdr.device request.deviceId with
  | some .printer => guacRdpdrDevicePrinterIorequestHandler host request input rdpdr
  | some .filesystem => guacRdpdrDeviceFsIorequestHandler host request input rdpdr
  | none => some rdpdr

/-- guac_rdpdr_process_device_iorequest. -/
def guacRdpdrProcessDeviceIorequest (host : Host) (input : ByteStream) (rdpdr : Rdpdr) :
    Option Rdpdr := do
  let (deviceId,input) ← input.readUInt 4
  let (fileId,input) ← input.readUInt 4
  let (completionId,input) ← input.readUInt 4
  let (majorFunc,input) ← input.readUInt 4
  let (minorFunc,input) ← input.readUInt 4
  callHandler host
    ⟨wrap32 deviceId,wrap32 fileId,wrap32 completionId,wrap32 majorFunc,wrap32 minorFunc⟩
    input rdpdr

/-- guac_rdpdr_process_server_announce. -/
def guacRdpdrProcessServerAnnounce (input : ByteStream) (rdpdr : Rdpdr) : Option Rdpdr := do
  let (_,input) ← input.readUInt 2
  let (_,input) ← input.readUInt 2
  let (_,_) ← input.readUInt 4
  some rdpdr

/-- guac_rdpdr_process_device_reply. -/
def guacRdpdrProcessDeviceReply (input : ByteStream) (rdpdr : Rdpdr) : Option Rdpdr := do
  let (_,input) ← input.readUInt 4
  let (_,_) ← input.readUInt 4
  some rdpdr

/-- The loop over the capability sets. -/
def seekCapabilities : ℕ→ByteStream→Option ByteStream
  | 0, input => some input
  | count+1, input => do
    let (_,header) ← input.readUInt 2
    let (length,_) ← header.readUInt 2
    -- the length counts the header, in which the next set starts if it is less than 4
    seekCapabilities count (input.seek length)

/-- guac_rdpdr_process_server_capability. -/
def guacRdpdrProcessServerCapability (input : ByteStream) (rdpdr : Rdpdr) : Option Rdpdr := do
  let (count,input) ← input.readUInt 2
  let _ ← seekCapabilities count (input.seek 2)
  some rdpdr

/-- RDPDR_CTYP_CORE. -/
def rdpdrCtypCore : ℕ := 0x4472

/-- PAKID_CORE_SERVER_ANNOUNCE. -/
def pakidCoreServerAnnounce : ℕ := 0x496E

/-- PAKID_CORE_DEVICE_REPLY. -/
def pakidCoreDeviceReply : ℕ := 0x6472

/-- PAKID_CORE_DEVICE_IOREQUEST. -/
def pakidCoreDeviceIorequest : ℕ := 0x4952

/-- PAKID_CORE_SERVER_CAPABILITY. -/
def pakidCoreServerCapability : ℕ := 0x5350

/-- guac_rdpdr_process_receive, as long as only bytes that were received are read and all
that is written to the buffers of the handlers is within them. The other messages only are
responded to or ignored. -/
def guacRdpdrProcessReceive (host : Host) (pdu : List UInt8) (rdpdr : Rdpdr) : Option Rdpdr := do
  let (component,input) ← (ByteStream.mk pdu 0).readUInt 2
  let (packetId,input) ← input.readUInt 2
  if component=rdpdrCtypCore then
    if packetId=pakidCoreServerAnnounce then guacRdpdrProcessServerAnnounce input rdpdr
    else if packetId=pakidCoreDeviceReply then guacRdpdrProcessDeviceReply input rdpdr
    else if packetId=pakidCoreDeviceIorequest then
      guacRdpdrProcessDeviceIorequest host input rdpdr
    else if packetId=pakidCoreServerCapability then guacRdpdrProcessServerCapability input rdpdr
    else some rdpdr
  else some rdpdr

end GuacServer.DeviceRedirection
