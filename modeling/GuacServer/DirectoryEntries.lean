import GuacServer.DeviceRedirection
import GuacServer.RdpText

/-!
# Entries of directories on the RDP drive

rdpdr-fs-messages-dir-info.c. A response has a record of the class that was asked for, at the
end of which is the name of the entry. Its length is counted in characters, while the local
buffer with the units ends after so many of them.
-/

namespace GuacServer.DeviceRedirection

open ByteStreams DecimalNumerals RdpUnicode Unicode

/-- What a record says of an open file. -/
structure EntryFile where
  ctime : UInt64
  atime : UInt64
  mtime : UInt64
  size : UInt64
  attributes : ℤ

/-- What a response refers to. -/
structure Completion where
  deviceId : ℤ
  /-- The request. -/
  completionId : ℤ

/-- A stream that is written, with the size it was allocated with. -/
structure OutputStream where
  capacity : ℤ
  written : List UInt8

/-- Bytes are written, if they have room. -/
def OutputStream.write (bytes : List UInt8) (stream : OutputStream) : Option OutputStream :=
  if (stream.written.length+bytes.length : ℕ) ≤ stream.capacity then
    some { stream with written := stream.written++bytes }
  else none

/-- Stream_Write_UINT32 of an int. -/
def uint32 (value : ℤ) : List UInt8 := littleEndianBytes 4 (value%2^32).toNat

/-- Stream_Write_UINT64. -/
def uint64 (value : UInt64) : List UInt8 := littleEndianBytes 8 value.toNat

/-- The header of a response: RDPDR_CTYP_CORE and PAKID_CORE_DEVICE_IOCOMPLETION, the device, the
request and STATUS_SUCCESS. -/
def completionHeader (completion : Completion) : List UInt8 :=
  littleEndianBytes 2 0x4472++littleEndianBytes 2 0x4943++uint32 completion.deviceId++
    uint32 completion.completionId++uint32 0

/-- guac_rdpdr_new_io_completion. -/
def guacRdpdrNewIoCompletion (completion : Completion) (size : ℤ) : Option OutputStream :=
  OutputStream.write (completionHeader completion) ⟨wrap32 (16+size),[]⟩

/-- The bytes of units, each with its least significant byte first. -/
def unitBytes (units : List UInt16) : List UInt8 :=
  units.flatMap fun codepoint => littleEndianBytes 2 codepoint.toNat

/-- The local buffer for the name, once units are stored in it. -/
def entryBuffer (stack : List UInt8) (units : List UInt16) : List UInt8 :=
  unitBytes units++stack.drop (unitBytes units).length

/-- Bytes are read from the start of the local buffer, with the number as size_t. -/
def readBuffer (length : ℤ) (buffer : List UInt8) : Option (List UInt8) :=
  if 0≤length ∧ length≤utf16EntryNameSize then some (buffer.take length.toNat) else none

/-- The response with a record of a class: the number of bytes that the class has before the
name, the fields before the length of the name, and those behind it. The stack is what the
local buffer held before. -/
def processQueryInfo (size : ℤ) (fields fieldsBehind : List UInt8) (completion : Completion)
    (stack entryName : List UInt8) : Option (List UInt8) := do
  let length := wrap32 (guacUtf8Strlen entryName)
  let utf16Length := wrap32 (length*2)
  let utf16EntryName := guacRdpUtf8ToUtf16 length.toNat entryName utf16EntryNameSize
  guard (2*utf16EntryName.length≤utf16EntryNameSize)
  let stream ← guacRdpdrNewIoCompletion completion (wrap32 (4+size+utf16Length+2))
  let stream ← stream.write (uint32 (size+utf16Length+2))
  let stream ← stream.write fields
  let stream ← stream.write (uint32 (utf16Length+2))
  let stream ← stream.write fieldsBehind
  let fileName ← readBuffer utf16Length (entryBuffer stack utf16EntryName)
  let stream ← stream.write fileName
  let stream ← stream.write [0,0]
  some stream.written

/-- NextEntryOffset, FileIndex, and what the file system says of the file. -/
def directoryFields (file : EntryFile) : List UInt8 :=
  uint32 0++uint32 0++uint64 file.ctime++uint64 file.atime++uint64 file.mtime++
    uint64 file.mtime++uint64 file.size++uint64 file.size++uint32 file.attributes

/-- guac_rdpdr_fs_process_query_directory_info. -/
def guacRdpdrFsProcessQueryDirectoryInfo (file : EntryFile) :
    Completion→List UInt8→List UInt8→Option (List UInt8) :=
  processQueryInfo 64 (directoryFields file) []

/-- guac_rdpdr_fs_process_query_full_directory_info. -/
def guacRdpdrFsProcessQueryFullDirectoryInfo (file : EntryFile) :
    Completion→List UInt8→List UInt8→Option (List UInt8) :=
  processQueryInfo 68 (directoryFields file) (uint32 0)

/-- guac_rdpdr_fs_process_query_both_directory_info, with no short name. -/
def guacRdpdrFsProcessQueryBothDirectoryInfo (file : EntryFile) :
    Completion→List UInt8→List UInt8→Option (List UInt8) :=
  processQueryInfo (69+24) (directoryFields file) (uint32 0++[0]++List.replicate 24 0)

/-- guac_rdpdr_fs_process_query_names_info. -/
def guacRdpdrFsProcessQueryNamesInfo (_ : EntryFile) :
    Completion→List UInt8→List UInt8→Option (List UInt8) :=
  processQueryInfo 12 (uint32 0++uint32 0) []

/-- The classes that guac_rdpdr_fs_process_query_directory responds to. -/
inductive DirectoryClass
  | directory
  | fullDirectory
  | bothDirectory
  | names

/-- The handler of a class. -/
def DirectoryClass.process (file : EntryFile) :
    DirectoryClass → Completion→List UInt8→List UInt8→Option (List UInt8)
  | .directory => guacRdpdrFsProcessQueryDirectoryInfo file
  | .fullDirectory => guacRdpdrFsProcessQueryFullDirectoryInfo file
  | .bothDirectory => guacRdpdrFsProcessQueryBothDirectoryInfo file
  | .names => guacRdpdrFsProcessQueryNamesInfo file

/-- A name that a file can have. -/
structure EntryName where
  text : List Char
  noZero : ∀ c∈text, c≠Char.ofNat 0

/-- The name as a field of a record, with its terminator. -/
def fileNameField (text : List Char) : List UInt8 := unitBytes (utf16Encode text)++[0,0]

/-- A response with a record of some length that ends with a name of some length. -/
def response (completion : Completion) (fields fieldsBehind fileName : List UInt8) : List UInt8 :=
  let record := fields++uint32 fileName.length++fieldsBehind++fileName
  completionHeader completion++uint32 record.length++record

/-- The response to a query of a class, according to what the fields mean. -/
def DirectoryClass.response (completion : Completion) (file : EntryFile) (fileName : List UInt8) :
    DirectoryClass→List UInt8
  | .directory => DeviceRedirection.response completion (directoryFields file) [] fileName
  | .fullDirectory =>
    DeviceRedirection.response completion (directoryFields file) (uint32 0) fileName
  | .bothDirectory =>
    DeviceRedirection.response completion (directoryFields file)
      (uint32 0++[0]++List.replicate 24 0) fileName
  | .names => DeviceRedirection.response completion (uint32 0++uint32 0) [] fileName

/-- A response carries the whole name, whatever the local buffer held before and whatever is in
memory behind the name. -/
def SendsName (query : DirectoryClass) (completion : Completion) (file : EntryFile)
    (name : EntryName) (stack behind : List UInt8) : Prop :=
  query.process file completion stack (utf8Encode name.text++0::behind)=
    some (query.response completion file (fileNameField name.text))

/-! ## Units of a name -/

theorem length_unitBytes (units : List UInt16) : (unitBytes units).length=2*units.length := by
  induction units with
  | nil => rfl
  | cons codepoint units ih =>
    have hcons : unitBytes (codepoint::units)=
        littleEndianBytes 2 codepoint.toNat++unitBytes units := rfl
    rw [hcons,List.length_append,length_littleEndianBytes,ih,List.length_cons]
    omega

/-- The characters of a text are counted. -/
theorem strlen_utf8Encode (name : EntryName) (behind : List UInt8) :
    guacUtf8Strlen (utf8Encode name.text++0::behind)=name.text.length := by
  have hzero : ∀ b∈textBytes (name.text.map utf8Char), b≠0 := by
    rw [utf8Encode_textBytes]
    exact utf8Encode_ne_zero name.noZero
  have hcount := guacUtf8Strlen_text hzero
  rw [utf8Encode_textBytes,List.length_map] at hcount
  rw [guacUtf8Strlen,strlenLoop_terminated]
  exact hcount

/-! ## Responses -/

/-- A write succeeds exactly if it fits. -/
theorem write_eq_some_iff {bytes : List UInt8} {stream next : OutputStream} :
    stream.write bytes=some next ↔
      ((stream.written.length+bytes.length : ℕ) : ℤ) ≤ stream.capacity ∧
        next=⟨stream.capacity,stream.written++bytes⟩ := by
  unfold OutputStream.write
  rw [Option.ite_none_right_eq_some,Option.some.injEq,eq_comm (b := next)]

theorem readBuffer_eq_some_iff {length : ℤ} {buffer bytes : List UInt8} :
    readBuffer length buffer=some bytes ↔
      (0≤length ∧ length≤utf16EntryNameSize) ∧ bytes=buffer.take length.toNat := by
  unfold readBuffer
  rw [Option.ite_none_right_eq_some,Option.some.injEq,eq_comm (b := bytes)]

variable {size : ℤ} {fields fieldsBehind stack entryName : List UInt8} {completion : Completion}

/-- The bytes before the name of a response, with the length that is given for it. -/
def beforeName (size : ℤ) (fields fieldsBehind : List UInt8) (completion : Completion)
    (utf16Length : ℤ) : List UInt8 :=
  completionHeader completion++uint32 (size+utf16Length+2)++fields++
    uint32 (utf16Length+2)++fieldsBehind

/-- What a response consists of. -/
theorem processQueryInfo_eq_some {pdu : List UInt8}
    (h : processQueryInfo size fields fieldsBehind completion stack entryName=some pdu) :
    ∃ utf16Length fileName, utf16Length=wrap32 (wrap32 (guacUtf8Strlen entryName)*2) ∧
      0≤utf16Length ∧ utf16Length≤utf16EntryNameSize ∧
      fileName.length≤utf16Length.toNat ∧
      pdu=beforeName size fields fieldsBehind completion utf16Length++fileName++[0,0] := by
  unfold processQueryInfo guacRdpdrNewIoCompletion at h
  obtain ⟨_,-,h⟩ := Option.bind_eq_some_iff.mp h
  obtain ⟨_,hheader,h⟩ := Option.bind_eq_some_iff.mp h
  obtain ⟨_,hlength,h⟩ := Option.bind_eq_some_iff.mp h
  obtain ⟨_,hfields,h⟩ := Option.bind_eq_some_iff.mp h
  obtain ⟨_,hnameLength,h⟩ := Option.bind_eq_some_iff.mp h
  obtain ⟨_,hbehind,h⟩ := Option.bind_eq_some_iff.mp h
  obtain ⟨fileName,hread,h⟩ := Option.bind_eq_some_iff.mp h
  obtain ⟨_,hname,h⟩ := Option.bind_eq_some_iff.mp h
  obtain ⟨_,hend,h⟩ := Option.bind_eq_some_iff.mp h
  obtain ⟨hrange,htaken⟩ := readBuffer_eq_some_iff.mp hread
  refine ⟨_,fileName,rfl,hrange.1,hrange.2,?_,?_⟩
  · rw [htaken]
    exact List.length_take_le ..
  · rw [←Option.some.inj h,(write_eq_some_iff.mp hend).2,(write_eq_some_iff.mp hname).2,
      (write_eq_some_iff.mp hbehind).2,(write_eq_some_iff.mp hnameLength).2,
      (write_eq_some_iff.mp hfields).2,(write_eq_some_iff.mp hlength).2,
      (write_eq_some_iff.mp hheader).2]
    rfl

theorem length_uint32 (value : ℤ) : (uint32 value).length=4 := length_littleEndianBytes ..

theorem length_completionHeader (completion : Completion) :
    (completionHeader completion).length=16 := by
  unfold completionHeader
  simp only [List.length_append,length_littleEndianBytes,length_uint32]

/-- Bytes are written if they have room. -/
theorem write_of_room {bytes written : List UInt8} {capacity : ℤ}
    {next : OutputStream→Option (List UInt8)}
    (h : ((written.length+bytes.length : ℕ) : ℤ)≤capacity) :
    (OutputStream.write bytes ⟨capacity,written⟩).bind next=next ⟨capacity,written++bytes⟩ := by
  rw [OutputStream.write,if_pos h]
  rfl

/-- The size of a class is that of its fields and of the length of the name. -/
structure Sized (size : ℤ) (fields fieldsBehind : List UInt8) : Prop where
  exact : size=fields.length+4+fieldsBehind.length
  small : size≤93

/-- A response that has been written as a whole is the one that is due. -/
theorem response_eq (h : Sized size fields fieldsBehind) (text : List Char) :
    response completion fields fieldsBehind (fileNameField text)=
      beforeName size fields fieldsBehind completion (2*(utf16Encode text).length : ℕ)++
        unitBytes (utf16Encode text)++[0,0] := by
  have hname : (((fileNameField text).length : ℕ) : ℤ)=
      ((2*(utf16Encode text).length : ℕ) : ℤ)+2 := by
    rw [fileNameField,List.length_append,length_unitBytes]
    rfl
  have hrecord : (((fields++uint32 (fileNameField text).length++fieldsBehind++
      fileNameField text).length : ℕ) : ℤ)=
      size+((2*(utf16Encode text).length : ℕ) : ℤ)+2 := by
    rw [h.exact,List.length_append,List.length_append,List.length_append,length_uint32]
    push_cast at hname ⊢
    omega
  unfold response beforeName
  dsimp only
  rw [hrecord,hname,fileNameField]
  simp only [List.append_assoc]

/-- Units that fit the local buffer are read back from it. -/
theorem readBuffer_entryBuffer {units : List UInt16} (h : 2*units.length≤utf16EntryNameSize) :
    readBuffer (2*units.length : ℕ) (entryBuffer stack units)=some (unitBytes units) := by
  refine readBuffer_eq_some_iff.mpr ⟨⟨Int.natCast_nonneg _,Int.ofNat_le.mpr h⟩,?_⟩
  rw [Int.toNat_natCast,←length_unitBytes,entryBuffer,List.take_left]

/-- A name of single units that fit the local buffer is sent. -/
theorem processQueryInfo_of_fits (h : Sized size fields fieldsBehind) (name : EntryName)
    (behind : List UInt8) (hlength : name.text.length≤128) (hpairs : WithoutPairs name.text) :
    processQueryInfo size fields fieldsBehind completion stack (utf8Encode name.text++0::behind)=
      some (response completion fields fieldsBehind (fileNameField name.text)) := by
  obtain ⟨hexact,hsmall⟩ := h
  have hcount : (utf16Encode name.text).length=name.text.length :=
    le_antisymm ((length_utf16Encode _).2.mpr hpairs) (length_utf16Encode _).1
  rw [response_eq ⟨hexact,hsmall⟩]
  have hfits : 2*name.text.length≤utf16EntryNameSize := Nat.mul_le_mul_left 2 hlength
  have hunits := utf8ToUtf16_encode hpairs (0::behind) hfits
  rw [←hcount] at hfits hlength hunits
  have hlength32 : wrap32 ((utf16Encode name.text).length : ℤ)=(utf16Encode name.text).length :=
    wrap32_of_range (by omega) (by omega)
  have hlength16 : wrap32 (((utf16Encode name.text).length : ℤ)*2)=
      (2*(utf16Encode name.text).length : ℕ) := by
    rw [wrap32_of_range (by omega) (by omega)]
    push_cast
    omega
  have hcapacity : wrap32 (16+wrap32 (4+size+((2*(utf16Encode name.text).length : ℕ) : ℤ)+2))=
      22+size+(2*(utf16Encode name.text).length : ℕ) := by
    have hinner : wrap32 (4+size+((2*(utf16Encode name.text).length : ℕ) : ℤ)+2)=
        4+size+((2*(utf16Encode name.text).length : ℕ) : ℤ)+2 :=
      wrap32_of_range (by omega) (by omega)
    rw [hinner,wrap32_of_range (by omega) (by omega)]
    ring
  unfold processQueryInfo guacRdpdrNewIoCompletion
  dsimp only
  rw [strlen_utf8Encode,←hcount,hlength32,hlength16,Int.toNat_natCast,hunits,
    hcapacity,readBuffer_entryBuffer hfits]
  simp only [Option.bind_eq_bind,guard,if_pos hfits,pure,Option.bind_some]
  rw [write_of_room,write_of_room,write_of_room,write_of_room,write_of_room,write_of_room,
    write_of_room]
  · rfl
  all_goals
    simp only [List.length_append,List.length_nil,List.length_cons,length_uint32,
      length_completionHeader,length_unitBytes]
    omega

/-- No more units than characters can be sent, and no more characters than the local buffer has
room for. -/
theorem fits_of_processQueryInfo (h : Sized size fields fieldsBehind) {name : EntryName}
    {behind : List UInt8}
    (hsent : processQueryInfo size fields fieldsBehind completion stack
        (utf8Encode name.text++0::behind)=
      some (response completion fields fieldsBehind (fileNameField name.text))) :
    name.text.length≤128 ∧ WithoutPairs name.text := by
  obtain ⟨utf16Length,fileName,hlength,-,hsize,htaken,hpdu⟩ := processQueryInfo_eq_some hsent
  rw [response_eq h] at hpdu
  have hbytes := congrArg List.length hpdu
  simp only [beforeName,List.length_append,length_uint32,length_unitBytes] at hbytes
  have hbuffer : utf16EntryNameSize=256 := rfl
  obtain ⟨hatLeast,hpairs⟩ := length_utf16Encode name.text
  have hshort : name.text.length≤128 := by omega
  rw [strlen_utf8Encode,wrap32_of_range (x := name.text.length) (by omega) (by omega),
    wrap32_of_range (by omega) (by omega)] at hlength
  exact ⟨hshort,hpairs.mp (by omega)⟩

theorem length_directoryFields (file : EntryFile) : (directoryFields file).length=60 := by
  unfold directoryFields uint64
  simp only [List.length_append,length_uint32,length_littleEndianBytes]

/-- The classes with times and sizes have so many bytes before what is behind the length of the
name. -/
theorem sized_directoryFields (file : EntryFile) {fieldsBehind : List UInt8}
    (h : size=64+fieldsBehind.length) (hsmall : size≤93) :
    Sized size (directoryFields file) fieldsBehind := by
  refine ⟨?_,hsmall⟩
  rw [length_directoryFields,h]
  rfl

/-- Each class says of its own size how many bytes it has before the name. -/
theorem DirectoryClass.process_eq (query : DirectoryClass) (file : EntryFile)
    (completion : Completion) :
    ∃ size fields fieldsBehind, Sized size fields fieldsBehind ∧
      query.process file completion=processQueryInfo size fields fieldsBehind completion ∧
      ∀ fileName, query.response completion file fileName=
        DeviceRedirection.response completion fields fieldsBehind fileName := by
  cases query with
  | directory =>
    exact ⟨64,directoryFields file,[],sized_directoryFields file rfl (by decide),rfl,fun _ => rfl⟩
  | fullDirectory =>
    exact ⟨68,directoryFields file,uint32 0,sized_directoryFields file rfl (by decide),rfl,
      fun _ => rfl⟩
  | bothDirectory =>
    exact ⟨69+24,directoryFields file,uint32 0++[0]++List.replicate 24 0,
      sized_directoryFields file rfl (by decide),rfl,fun _ => rfl⟩
  | names => exact ⟨12,uint32 0++uint32 0,[],⟨rfl,by decide⟩,rfl,fun _ => rfl⟩

/-- A response carries the whole name exactly if that has at most 128 characters, each of them a
single unit. -/
theorem sendsName_iff (query : DirectoryClass) (completion : Completion) (file : EntryFile)
    (name : EntryName) (stack behind : List UInt8) :
    SendsName query completion file name stack behind ↔
      name.text.length≤128 ∧ WithoutPairs name.text := by
  obtain ⟨size,fields,fieldsBehind,hsized,hprocess,hresponse⟩ := query.process_eq file completion
  unfold SendsName
  rw [hprocess,hresponse]
  constructor
  · exact fits_of_processQueryInfo hsized
  · exact fun hfits => processQueryInfo_of_fits hsized name behind hfits.1 hfits.2

/-- A name with a character beyond the first 65536. -/
def pairName : EntryName := ⟨[Char.ofNat 0x1F600],List.forall_mem_singleton.mpr (by decide)⟩

/-- Of such a character only the lower half of its code point is sent. -/
theorem not_sendsName_pair :
    ¬SendsName .names ⟨0,1⟩ ⟨0,0,0,0,0⟩ pairName (List.replicate 256 0) [] := by
  have hsized : Sized 12 (uint32 0++uint32 0) [] := ⟨rfl,by decide⟩
  intro hsent
  have hpair := List.forall_mem_singleton.mp (fits_of_processQueryInfo hsized hsent).2
  exact absurd hpair (by decide)

end GuacServer.DeviceRedirection
