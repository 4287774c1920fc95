import GuacServer.PathNormalization
import GuacServer.Pool

/-!
# The RDP drive

The simulated file system of an RDP connection. Files are kept in an array and are named
by their index, which comes from a pool. What the operating system answers is given with
each operation, and what it was asked is returned in order.
-/

namespace GuacServer.RdpDrive

open PathResolution StringBuffers PathNormalization Pool

/-- GUAC_RDP_FS_MAX_FILES. -/
def guacRdpFsMaxFiles : ℤ := 128

/-- GUAC_RDP_FS_MAX_PATH. -/
def guacRdpFsMaxPath : ℕ := 4096

/-- GUAC_RDP_MAX_PATH_DEPTH. -/
def guacRdpMaxPathDepth : ℕ := 64

/-- The rules of guac_rdp_fs_normalize_path, which does not support named streams. -/
def rdpRules : PathRules where
  maxPath := guacRdpFsMaxPath
  maxDepth := guacRdpMaxPathDepth
  separator := 0x5C
  refused := fun c => c=0x3A
  separates := rfl
  roomy := by decide
  deep := by decide

/-- guac_rdp_fs_normalize_path. -/
def guacRdpFsNormalizePath (path : List UInt8) : Option StringBuffer := normalizePath rdpRules path

/-- The values of errno that are told apart. -/
inductive Errno where
  | enfile | enoent | enotdir | enospc | eisdir | eacces | eexist | einval | enosys | enotsup
  | other
  deriving DecidableEq

/-- guac_rdp_fs_get_errorcode. -/
def guacRdpFsGetErrorcode : Errno→ℤ
  | .enfile => -1
  | .enoent => -2
  | .enotdir => -3
  | .enospc => -4
  | .eisdir => -5
  | .eacces => -6
  | .eexist => -7
  | .einval => -8
  | .enosys => -9
  | .enotsup => -10
  | .other => -8

/-- The flags of an open() call. -/
structure OpenFlags where
  /-- O_WRONLY or O_RDWR. -/
  writes : Bool
  /-- O_RDONLY or O_RDWR. -/
  reads : Bool
  /-- O_CREAT. -/
  create : Bool
  /-- O_EXCL. -/
  exclusive : Bool
  /-- O_TRUNC. -/
  truncate : Bool
  deriving DecidableEq

/-- What the operating system is asked to do. -/
inductive SystemCall where
  | unlink (path : List UInt8)
  | mkdir (path : List UInt8)
  | openFile (path : List UInt8) (flags : OpenFlags)
  | rename (old new : List UInt8)
  | rmdir (path : List UInt8)
  | lseek (fd : ℤ)
  | read (fd : ℤ)
  | write (fd : ℤ)
  | ftruncate (fd : ℤ)
  | fdopendir (fd : ℤ)
  | readdir (fd : ℤ)
  /-- The descriptor is that of an opening, if it is known whose. -/
  | closedir (fd : ℤ) (opening : Option ℕ)
  | close (fd : ℤ) (opening : Option ℕ)
  /-- Both path strings are freed. -/
  | freePaths (opening : Option ℕ)
  deriving DecidableEq

/-- guac_rdp_fs_file, as far as it is read by the operations on files. -/
structure RdpFsFile where
  /-- The descriptor. -/
  fd : ℤ
  /-- There is a directory stream. -/
  dir : Bool
  /-- The normalised path. -/
  absolutePath : List UInt8
  /-- The path on the local file system. -/
  realPath : List UInt8
  /-- FILE_ATTRIBUTE_DIRECTORY is among the attributes. -/
  directory : Bool
  /-- The number of bytes written to the file. -/
  bytesWritten : UInt64
  /-- Which opening has filled the structure, if one has. -/
  opening : Option ℕ
  deriving DecidableEq

/-- guac_rdp_fs. -/
structure RdpFs where
  /-- The root of the file system. -/
  drivePath : List UInt8
  /-- The number of files that are open. -/
  openFiles : ℤ
  fileIdPool : GuacPool
  /-- The file structures. -/
  files : ℤ→RdpFsFile
  /-- The number of openings so far. -/
  openings : ℕ

/-- guac_rdp_fs_alloc: the file structures are whatever is in the memory. -/
def guacRdpFsAlloc (drivePath : List UInt8) (memory : ℤ→RdpFsFile) : RdpFs where
  drivePath := drivePath
  openFiles := 0
  fileIdPool := guacPoolAlloc 0
  files := fun i => { memory i with opening := none }
  openings := 0

/-- What an operation leaves, asks for and returns. -/
structure Step where
  /-- The file system afterwards. -/
  fs : RdpFs
  /-- The system calls made. -/
  calls : List SystemCall
  /-- What is returned. -/
  result : ℤ

/-- A backslash is translated to a slash. -/
def toSlash (c : UInt8) : UInt8 := if c=0x5C then 0x2F else c

/-- __guac_rdp_fs_translate_path. -/
def guacRdpFsTranslatePath (fs : RdpFs) (virtualPath : List UInt8) : List UInt8 :=
  let start := fs.drivePath.take (guacRdpFsMaxPath-1)
  start++(virtualPath.take (guacRdpFsMaxPath-1-start.length)).map toSlash

/-- guac_rdp_fs_get_file. -/
def guacRdpFsGetFile (fs : RdpFs) (fileId : ℤ) : Option RdpFsFile :=
  if fileId<0 ∨ fileId≥guacRdpFsMaxFiles then none else some (fs.files fileId)

/-! ## Opening -/

/-- What the operating system answers while a file is opened. -/
structure OpenAnswers where
  /-- The error of mkdir(), if it fails. -/
  mkdir : Option Errno
  /-- The descriptor or error of open(). -/
  opened : Except Errno ℤ
  /-- The descriptor or error of the second open(). -/
  reopened : Except Errno ℤ
  /-- Whether fstat() says that this is a directory, if it succeeds. -/
  directory : Option Bool

/-- The path that is looked up, unless it is relative. -/
def absolute (path : List UInt8) : Option (List UInt8) :=
  match path with
  | [] => some [0x5C]
  | first::_ => if first≠0x5C ∧ first≠0x2F then none else some path

/-- The flags for the access asked for: GENERIC_ALL is 0x10000000, GENERIC_WRITE with
FILE_WRITE_DATA and FILE_APPEND_DATA is 0x40000006, GENERIC_READ with FILE_READ_DATA is
0x80000001. -/
def accessFlags (access : UInt32) : OpenFlags :=
  if access &&& 0x10000000≠0 then ⟨true,true,false,false,false⟩
  else if access &&& 0x40000006≠0 ∧ access &&& 0x80000001≠0 then
    ⟨true,true,false,false,false⟩
  else if access &&& 0x40000006≠0 then ⟨true,false,false,false,false⟩
  else ⟨false,true,false,false,false⟩

/-- FILE_SUPERSEDE. -/
def fileSupersede : UInt32 := 0

/-- The flags that a create disposition adds, unless it is not recognised. -/
def dispositionFlags (createDisposition : UInt32) (flags : OpenFlags) : Option OpenFlags :=
  if createDisposition=2 then some { flags with create := true, exclusive := true }
  else if createDisposition=1 then some flags
  else if createDisposition=3 then some { flags with create := true }
  else if createDisposition=4 then some { flags with truncate := true }
  else if createDisposition=5 ∨ createDisposition=fileSupersede then
    some { flags with create := true, truncate := true }
  else none

/-- A file that was opened is put where the pool says. -/
def fillFile (fs : RdpFs) (normalizedPath realPath : List UInt8) (fd : ℤ)
    (directory : Option Bool) (calls : List SystemCall) : Step :=
  let next := guacPoolNextInt fs.fileIdPool
  let file : RdpFsFile := ⟨fd,false,normalizedPath,realPath,directory.getD false,0,some fs.openings⟩
  ⟨{ fs with
      openFiles := fs.openFiles+1
      fileIdPool := next.2
      files := Function.update fs.files next.1 file
      openings := fs.openings+1 },calls,next.1⟩

/-- The file is opened, once more for reading if it is a directory. -/
def openNative (fs : RdpFs) (normalizedPath realPath : List UInt8) (flags : OpenFlags)
    (answers : OpenAnswers) (calls : List SystemCall) : Step :=
  let calls := calls++[.openFile realPath flags]
  match answers.opened with
  | .ok fd => fillFile fs normalizedPath realPath fd answers.directory calls
  | .error err =>
    if err=.eisdir then
      let calls := calls++[.openFile realPath { flags with writes := false, reads := true }]
      match answers.reopened with
      | .ok fd => fillFile fs normalizedPath realPath fd answers.directory calls
      | .error err => ⟨fs,calls,guacRdpFsGetErrorcode err⟩
    else ⟨fs,calls,guacRdpFsGetErrorcode err⟩

/-- The directory is created first if one is asked for: FILE_DIRECTORY_FILE is 1. -/
def createAndOpen (fs : RdpFs) (normalizedPath realPath : List UInt8) (flags : OpenFlags)
    (createOptions : UInt32) (answers : OpenAnswers) (calls : List SystemCall) : Step :=
  if createOptions &&& 1≠0 ∧ flags.create=true then
    let calls := calls++[.mkdir realPath]
    let existing := { flags with create := false, exclusive := false }
    match answers.mkdir with
    | none => openNative fs normalizedPath realPath existing answers calls
    | some err =>
      if err≠.eexist ∨ flags.exclusive=true then ⟨fs,calls,guacRdpFsGetErrorcode err⟩
      else openNative fs normalizedPath realPath existing answers calls
  else openNative fs normalizedPath realPath flags answers calls

/-- guac_rdp_fs_open. -/
def guacRdpFsOpen (fs : RdpFs) (path : List UInt8) (access createDisposition createOptions : UInt32)
    (answers : OpenAnswers) : Step :=
  if fs.openFiles≥guacRdpFsMaxFiles then ⟨fs,[],guacRdpFsGetErrorcode .enfile⟩
  else
    match absolute path with
    | none => ⟨fs,[],guacRdpFsGetErrorcode .enoent⟩
    | some path =>
      match guacRdpFsNormalizePath path with
      | none => ⟨fs,[],guacRdpFsGetErrorcode .enoent⟩
      | some normalized =>
        let realPath := guacRdpFsTranslatePath fs normalized.contents
        match dispositionFlags createDisposition (accessFlags access) with
        | none => ⟨fs,[],guacRdpFsGetErrorcode .enosys⟩
        | some flags =>
          createAndOpen fs normalized.contents realPath flags createOptions answers
            (if createDisposition=fileSupersede then [.unlink realPath] else [])

/-! ## Operations on files -/

/-- The structure of a file is changed. -/
def RdpFs.setFile (fs : RdpFs) (fileId : ℤ) (file : RdpFsFile) : RdpFs :=
  { fs with files := Function.update fs.files fileId file }

/-- An operation on the file that an ID stands for, which refuses other IDs. -/
def withFile (fs : RdpFs) (fileId : ℤ) (operation : RdpFsFile→Step) : Step :=
  match guacRdpFsGetFile fs fileId with
  | none => ⟨fs,[],guacRdpFsGetErrorcode .einval⟩
  | some file => operation file

/-- Zero, or the code of an error. -/
def status : Option Errno→ℤ
  | none => 0
  | some err => guacRdpFsGetErrorcode err

/-- guac_rdp_fs_read. -/
def guacRdpFsRead (fs : RdpFs) (fileId : ℤ) (answer : Except Errno ℕ) : Step :=
  withFile fs fileId fun file =>
    ⟨fs,[.lseek file.fd,.read file.fd],match answer with
      | .ok bytesRead => bytesRead
      | .error err => guacRdpFsGetErrorcode err⟩

/-- guac_rdp_fs_write. -/
def guacRdpFsWrite (fs : RdpFs) (fileId : ℤ) (answer : Except Errno ℕ) : Step :=
  withFile fs fileId fun file =>
    let calls := [.lseek file.fd,.write file.fd]
    match answer with
    | .ok bytesWritten =>
      ⟨fs.setFile fileId { file with bytesWritten := file.bytesWritten+UInt64.ofNat bytesWritten },
        calls,bytesWritten⟩
    | .error err => ⟨fs,calls,guacRdpFsGetErrorcode err⟩

/-- guac_rdp_fs_rename. -/
def guacRdpFsRename (fs : RdpFs) (fileId : ℤ) (newPath : List UInt8) (answer : Option Errno) :
    Step :=
  withFile fs fileId fun file =>
    match guacRdpFsNormalizePath newPath with
    | none => ⟨fs,[],guacRdpFsGetErrorcode .enoent⟩
    | some normalized =>
      let realPath := guacRdpFsTranslatePath fs normalized.contents
      ⟨fs,[.rename file.realPath realPath],status answer⟩

/-- guac_rdp_fs_delete. -/
def guacRdpFsDelete (fs : RdpFs) (fileId : ℤ) (answer : Option Errno) : Step :=
  withFile fs fileId fun file =>
    ⟨fs,[if file.directory then .rmdir file.realPath else .unlink file.realPath],status answer⟩

/-- guac_rdp_fs_truncate. -/
def guacRdpFsTruncate (fs : RdpFs) (fileId : ℤ) (answer : Option Errno) : Step :=
  withFile fs fileId fun file => ⟨fs,[.ftruncate file.fd],status answer⟩

/-- guac_rdp_fs_close, which returns nothing. -/
def guacRdpFsClose (fs : RdpFs) (fileId : ℤ) : Step :=
  withFile fs fileId fun file =>
    ⟨{ fs with
        openFiles := fs.openFiles-1
        fileIdPool := guacPoolFreeInt fileId fs.fileIdPool },
      (if file.dir then [.closedir file.fd file.opening] else [])++
        [.close file.fd file.opening,.freePaths file.opening],0⟩

/-- What the operating system answers while a directory is read: whether a stream is
opened for it, and whether there is another entry. -/
structure DirAnswers where
  /-- fdopendir() succeeds. -/
  opened : Bool
  /-- readdir() returns an entry. -/
  entry : Bool

/-- guac_rdp_fs_read_dir, which returns 1 for the name of an entry and 0 for NULL. -/
def guacRdpFsReadDir (fs : RdpFs) (fileId : ℤ) (answers : DirAnswers) : Step :=
  match guacRdpFsGetFile fs fileId with
  | none => ⟨fs,[],0⟩
  | some file =>
    let result : ℤ := if answers.entry then 1 else 0
    if file.dir then ⟨fs,[.readdir file.fd],result⟩
    else if answers.opened then
      ⟨fs.setFile fileId { file with dir := true },[.fdopendir file.fd,.readdir file.fd],result⟩
    else ⟨fs,[.fdopendir file.fd],0⟩

/-- A call of one of the functions. -/
inductive FsOperation where
  | openFile (path : PathString) (access createDisposition createOptions : UInt32)
      (answers : OpenAnswers)
  | read (fileId : ℤ) (answer : Except Errno ℕ)
  | write (fileId : ℤ) (answer : Except Errno ℕ)
  | rename (fileId : ℤ) (newPath : PathString) (answer : Option Errno)
  | delete (fileId : ℤ) (answer : Option Errno)
  | truncate (fileId : ℤ) (answer : Option Errno)
  | readDir (fileId : ℤ) (answers : DirAnswers)
  | close (fileId : ℤ)

/-- The call is made. -/
def perform (fs : RdpFs) : FsOperation→Step
  | .openFile path access createDisposition createOptions answers =>
    guacRdpFsOpen fs path.bytes access createDisposition createOptions answers
  | .read fileId answer => guacRdpFsRead fs fileId answer
  | .write fileId answer => guacRdpFsWrite fs fileId answer
  | .rename fileId newPath answer => guacRdpFsRename fs fileId newPath.bytes answer
  | .delete fileId answer => guacRdpFsDelete fs fileId answer
  | .truncate fileId answer => guacRdpFsTruncate fs fileId answer
  | .readDir fileId answers => guacRdpFsReadDir fs fileId answers
  | .close fileId => guacRdpFsClose fs fileId

/-- The ID that a call is about. -/
def FsOperation.fileId : FsOperation→Option ℤ
  | .openFile .. => none
  | .read fileId _ | .write fileId _ | .rename fileId _ _ | .delete fileId _
  | .truncate fileId _ | .readDir fileId _ | .close fileId => some fileId

end GuacServer.RdpDrive
