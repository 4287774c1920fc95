import GuacServer.DeviceRedirection

/-!
# Messages of the RDPDR channel that fit

A message fits if all that its handler reads was received: the fields of its header and of
the request, texts and data as long as it says they are, and as many capability sets as it
says there are. Converted paths must not fill their buffers, and no data that is searched for
a title must end within the start of one.
-/

namespace GuacServer.DeviceRedirection

open ByteStreams DecimalNumerals StringBuffers PrintJobs RdpDrive RdpUnicode Unicode
open PathNormalization

/-! ## Texts -/

/-- The units that a text has. -/
def units (length : ℤ) (input : ByteStream) : List UInt16 :=
  (input.uints 2 length.toNat).map UInt16.ofNat

/-- The units of a text were received, and there is room for a terminator behind the
characters that are written. -/
def TextFits (length : ℤ) (size : ℕ) (input : ByteStream) : Prop :=
  input.Covers (2*length.toNat) ∧ 0<spaceLeft (units length input) size

variable {length : ℤ} {size : ℕ} {input : ByteStream} {rdpdr : Rdpdr}

theorem readText_eq_some_iff {text : List UInt8} :
    readText length size input=some text ↔ TextFits length size input ∧
        text=(guacRdpUtf16ToUtf8 (units length input) size).contents := by
  simp only [readText,Option.bind_eq_bind,Option.bind_eq_some_iff,Prod.exists,
    ByteStream.readUInts_eq_some_iff Nat.two_pos,Prod.mk.injEq,Option.guard_eq_some']
  constructor
  · rintro ⟨_,_,⟨hcovers,rfl,rfl⟩,_,hwritten,htext⟩
    exact ⟨⟨hcovers,written_utf16ToUtf8_le_iff.mp hwritten⟩,(Option.some.inj htext).symm⟩
  · rintro ⟨⟨hcovers,hroom⟩,rfl⟩
    exact ⟨_,_,⟨hcovers,rfl,rfl⟩,(),written_utf16ToUtf8_le_iff.mpr hroom,rfl⟩

@[simp] theorem isSome_readText_bind {α : Type} {f : List UInt8→Option α} :
    ((readText length size input).bind f).isSome ↔ TextFits length size input ∧
      (f (guacRdpUtf16ToUtf8 (units length input) size).contents).isSome :=
  isSome_bind_of_iff readText_eq_some_iff

/-! ## Titles -/

/-- The message ends within the start of a title. -/
def EndsWithinTitle (input : ByteStream) : Prop :=
  input.rest <+: titleHeader ∧ input.rest.length<titleHeader.length

/-- A text is compared if the message does not end within it, and found where it is. -/
theorem startsWith_isSome_iff (text : List UInt8) (input : ByteStream) :
    (startsWith text input).isSome ↔ ¬(input.rest <+: text ∧ input.rest.length<text.length) := by
  induction text generalizing input with
  | nil => simp [startsWith]
  | cons c text ih =>
    simp only [startsWith,Option.bind_eq_bind,ByteStream.isSome_readUInt_bind,
      ByteStream.has_one_iff]
    cases hrest : input.rest with
    | nil => simp
    | cons b rest =>
      obtain ⟨huint,hnext⟩ := ByteStream.uint_one_of_rest hrest
      by_cases hsame : b=c
      · simp [huint,hsame,ih,hnext]
      · simp [huint,hsame,UInt8.toNat_inj]

theorem startsWith_eq_true_iff (text : List UInt8) (input : ByteStream) :
    startsWith text input=some true ↔ text <+: input.rest := by
  induction text generalizing input with
  | nil => simp [startsWith]
  | cons c text ih =>
    simp only [startsWith,Option.bind_eq_bind,Option.bind_eq_some_iff,Prod.exists,
      ByteStream.readUInt_eq_some_iff,Prod.mk.injEq,ByteStream.has_one_iff]
    cases hrest : input.rest with
    | nil => simp
    | cons b rest =>
      obtain ⟨huint,hnext⟩ := ByteStream.uint_one_of_rest hrest
      by_cases hsame : b=c
      · simp [huint,hsame,ih,hnext]
      · simp [huint,hsame,UInt8.toNat_inj,Ne.symm hsame]

theorem copyTitle_isSome {remaining : ℕ} (h : input.Covers remaining) :
    (copyTitle remaining input).isSome := by
  induction remaining generalizing input with
  | zero => rfl
  | succ remaining ih =>
    obtain hzero | hhas := h
    · cases hzero
    · simp only [copyTitle,Option.bind_eq_bind,ByteStream.isSome_readUInt_bind]
      refine ⟨hhas.mono (Nat.le_add_left ..),?_⟩
      split_ifs
      · rfl
      · rw [Option.isSome_map]
        exact ih (Or.inr (ByteStream.has_seek.mpr (Nat.add_comm 1 remaining ▸ hhas)))

/-! ## The title of a document -/

/-- What is left of the data behind a header is enough for the title. -/
theorem copyTitle_seek_isSome {length : ℕ} (h : input.Covers length) {remaining : ℤ}
    (hremaining : remaining≤length-9) : (copyTitle remaining.toNat (input.seek 9)).isSome := by
  apply copyTitle_isSome
  by_cases hnone : remaining.toNat=0
  · exact Or.inl hnone
  · have hlength : length≠0 := by omega
    have hhas := h.resolve_left hlength
    exact Or.inr (ByteStream.has_seek.mpr (hhas.mono (by omega)))

/-- The header is looked for if the message does not end within it. -/
theorem parseTitleHeader_isSome_iff {length : ℕ} (h : input.Covers length) :
    (guacRdpPrintJobParseTitleHeader input length).isSome ↔ ¬EndsWithinTitle input := by
  rw [EndsWithinTitle,←startsWith_isSome_iff]
  simp only [guacRdpPrintJobParseTitleHeader,Option.bind_eq_bind]
  cases hcompared : startsWith titleHeader input with
  | none => simp
  | some found =>
    cases found with
    | false => simp
    | true =>
      have hspace : (if (length : ℤ)-9<(guacRdpPrintJobFilenameMaxLength : ℤ)-5 then
          (length : ℤ)-9 else (guacRdpPrintJobFilenameMaxLength : ℤ)-5)≤length-9 := by
        split_ifs <;> omega
      have hcopied := copyTitle_seek_isSome h hspace
      obtain ⟨title,htitle⟩ := Option.isSome_iff_exists.mp hcopied
      simp [htitle]

/-- A filename is found where the header is. -/
theorem found_of_parseTitleHeader {length : ℤ} {found : Option (List UInt8)}
    (h : guacRdpPrintJobParseTitleHeader input length=some found) :
    found.isSome ↔ titleHeader <+: input.rest := by
  rw [←startsWith_eq_true_iff]
  simp only [guacRdpPrintJobParseTitleHeader,Option.bind_eq_bind,Option.bind_eq_some_iff] at h
  obtain ⟨compared,hcompared,h⟩ := h
  cases compared with
  | false => simp_all
  | true =>
    rw [if_pos rfl] at h
    obtain ⟨title,-,h⟩ := Option.bind_eq_some_iff.mp h
    cases h
    simp [hcompared]

/-- At none of the places that are searched for a title, as far as none was found before,
does the message end within the start of one. -/
def TitleFits (tried length : ℕ) (input : ByteStream) : Prop :=
  ∀ k, tried+2*k<length →
    (∃ j<k, titleHeader <+: (input.seek j).rest) ∨ ¬EndsWithinTitle (input.seek k)

/-- The search goes on behind a place without a header. -/
theorem titleFits_succ_iff {tried length : ℕ} (h : tried<length)
    (hends : ¬EndsWithinTitle input) (hheader : ¬titleHeader <+: input.rest) :
    TitleFits (tried+1) (length-1) (input.seek 1) ↔ TitleFits tried length input := by
  constructor
  · intro hfits k hk
    cases k with
    | zero => exact Or.inr hends
    | succ k =>
      obtain ⟨j,hj,hfound⟩ | hrest := hfits k (by omega)
      · refine Or.inl ⟨j+1,Nat.succ_lt_succ hj,?_⟩
        rwa [Nat.add_comm,←ByteStream.seek_seek]
      · refine Or.inr ?_
        rwa [Nat.add_comm,←ByteStream.seek_seek]
  · intro hfits k hk
    rw [ByteStream.seek_seek,Nat.add_comm 1 k]
    obtain ⟨j,hj,hfound⟩ | hrest := hfits (k+1) (by omega)
    · cases j with
      | zero => exact absurd hfound hheader
      | succ j =>
        refine Or.inl ⟨j,Nat.lt_of_succ_lt_succ hj,?_⟩
        rwa [ByteStream.seek_seek,Nat.add_comm]
    · exact Or.inr hrest

/-- The search stays within the data, each place having less of it. -/
theorem searchTitle_isSome_iff {tried length : ℕ} (h : input.Covers length) :
    (searchTitle tried length input).isSome ↔ TitleFits tried length input := by
  induction tried, length, input using searchTitle.induct with
  | case1 tried length input hlt ih =>
    have hparsed := parseTitleHeader_isSome_iff h
    rw [searchTitle,if_pos hlt]
    cases hfound : guacRdpPrintJobParseTitleHeader input length with
    | none =>
      have hends : EndsWithinTitle input := by
        by_contra hnot
        rw [hfound] at hparsed
        exact absurd (hparsed.mpr hnot) (by simp)
      simp only [Option.bind_eq_bind,Option.bind_none,Option.isSome_none,Bool.false_eq_true,
        false_iff]
      intro hfits
      obtain ⟨j,hj,-⟩ | hnot := hfits 0 hlt
      · exact Nat.not_lt_zero j hj
      · exact hnot hends
    | some found =>
      have hends : ¬EndsWithinTitle input := hparsed.mp (by rw [hfound]; rfl)
      have hheader := found_of_parseTitleHeader hfound
      cases found with
      | some filename =>
        simp only [Option.bind_eq_bind,Option.bind_some,Option.isSome_some,true_iff]
        intro k _
        cases k with
        | zero => exact Or.inr hends
        | succ k => exact Or.inl ⟨0,Nat.succ_pos k,hheader.mp rfl⟩
      | none =>
        have hnext : (input.seek 1).Covers (length-1) := by
          refine Or.inr (ByteStream.has_seek.mpr ?_)
          rw [Nat.add_sub_cancel' (Nat.one_le_of_lt hlt)]
          exact h.resolve_left (Nat.ne_zero_of_lt hlt)
        simp only [Option.bind_eq_bind,Option.bind_some]
        rw [ih hnext,titleFits_succ_iff hlt hends (by simpa using hheader.not.mp)]
  | case2 tried length input hle =>
    rw [searchTitle,if_neg hle]
    simp only [Option.isSome_some,true_iff]
    intro k hk
    omega

/-! ## Requests -/

/-- The data that is printed was received, and can be searched for a title if it is the
first. -/
def PrintDataFits (length : ℤ) (buffer : ByteStream) (job : ActiveJob) : Prop :=
  (job.bytesReceived=0 → TitleFits 0 (min length guacRdpPrintJobTitleSearchLength).toNat buffer) ∧
    buffer.Covers (byteCount length)

/-- The length and the data of a document. -/
def PrintJobWriteFits (input : ByteStream) (rdpdr : Rdpdr) : Prop :=
  input.Has 4 ∧ ∀ job, rdpdr.activeJob=some job →
    PrintDataFits (wrap32 (input.uint 4)) (input.seek 32) job

/-- Several fields and a path. -/
def CreateFits (input : ByteStream) : Prop :=
  input.Has 32 ∧
    TextFits ((wrap32 ((input.seek 28).uint 4)).tdiv 2-1) guacRdpFsMaxPath (input.seek 32)

/-- A length and an offset, and the data if there is such a file. -/
def WriteFits (fileId : ℤ) (input : ByteStream) (rdpdr : Rdpdr) : Prop :=
  input.Has 12 ∧ ((guacRdpFsGetFile rdpdr.fs fileId).isSome=true →
    (input.seek 32).Covers (byteCount (wrap32 (input.uint 4))))

/-- Behind space, a length and a path. -/
def RenameFits (input : ByteStream) : Prop :=
  (input.seek 2).Has 4 ∧
    TextFits ((wrap32 ((input.seek 2).uint 4)).tdiv 2) guacRdpFsMaxPath (input.seek 6)

/-- A class and a length, and behind space a new size or a new path. -/
def SetFileInfoFits (input : ByteStream) : Prop :=
  let fsInformationClass := input.uint 4
  input.Has 8 ∧ if fsInformationClass=fileEndOfFileInformation then (input.seek 32).Has 8
    else if fsInformationClass=fileDispositionInformation then True
    else if fsInformationClass=fileRenameInformation then RenameFits (input.seek 32)
    else if fsInformationClass=fileAllocationInformation then (input.seek 32).Has 8
    else True

/-- If there is such a file, a class, a flag and a length, and behind space a pattern if the
flag is set. -/
def QueryDirectoryFits (fileId : ℤ) (input : ByteStream) (rdpdr : Rdpdr) : Prop :=
  (guacRdpFsGetFile rdpdr.fs fileId).isSome=true → input.Has 9 ∧ ((input.seek 4).uint 1≠0 →
      TextFits ((wrap32 ((input.seek 5).uint 4)).tdiv 2-1) guacRdpFsMaxPath (input.seek 32))

/-- What a request to the drive has behind its header. -/
def DriveRequestFits (request : IoRequest) (input : ByteStream) (rdpdr : Rdpdr) : Prop :=
  if request.majorFunc=irpMjCreate then CreateFits input
  else if request.majorFunc=irpMjClose then True
  else if request.majorFunc=irpMjRead then input.Has 12
  else if request.majorFunc=irpMjWrite then WriteFits request.fileId input rdpdr
  else if request.majorFunc=irpMjQueryVolumeInformation then input.Has 4
  else if request.majorFunc=irpMjQueryInformation then input.Has 4
  else if request.majorFunc=irpMjSetInformation then SetFileInfoFits input
  else if request.majorFunc=irpMjDirectoryControl ∧
      request.minorFunc=irpMnQueryDirectory then QueryDirectoryFits request.fileId input rdpdr
  else True

/-- The header of an I/O request. -/
def ioRequest (input : ByteStream) : IoRequest :=
  ⟨wrap32 (input.uint 4),wrap32 ((input.seek 4).uint 4),wrap32 ((input.seek 8).uint 4),
    wrap32 ((input.seek 12).uint 4),wrap32 ((input.seek 16).uint 4)⟩

/-- What the device of a request reads. -/
def DeviceRequestFits (request : IoRequest) (input : ByteStream) (rdpdr : Rdpdr) : Prop :=
  match rdpdr.device request.deviceId with
  | some .printer => request.majorFunc=irpMjWrite→PrintJobWriteFits input rdpdr
  | some .filesystem => DriveRequestFits request input rdpdr
  | none => True

/-- The header of an I/O request, and what its device reads. -/
def DeviceIorequestFits (input : ByteStream) (rdpdr : Rdpdr) : Prop :=
  input.Has 20 ∧ DeviceRequestFits (ioRequest input) (input.seek 20) rdpdr

/-- So many capability sets have a header, each at the distance that the one before it
says. -/
def CapabilitiesFit : ℕ→ByteStream→Prop
  | 0, _ => True
  | count+1, input =>
    input.Has 4 ∧ CapabilitiesFit count (input.seek ((input.seek 2).uint 2))

/-- The header of a message was received, and all that its handler reads. -/
def Fits (pdu : List UInt8) (rdpdr : Rdpdr) : Prop :=
  let header : ByteStream := ⟨pdu,0⟩
  let packetId := (header.seek 2).uint 2
  let input := header.seek 4
  header.Has 4 ∧ if header.uint 2=rdpdrCtypCore then
      if packetId=pakidCoreServerAnnounce then input.Has 8
      else if packetId=pakidCoreDeviceReply then input.Has 8
      else if packetId=pakidCoreDeviceIorequest then DeviceIorequestFits input rdpdr
      else if packetId=pakidCoreServerCapability then
        input.Has 2 ∧ CapabilitiesFit (input.uint 2) (input.seek 4)
      else True
    else True

/-! ## The handlers -/

theorem byteCount_of_nonneg {length : ℤ} (h : 0≤length) (hlt : length<2^31) :
    byteCount length=length.toNat := by
  rw [byteCount,Int.emod_eq_of_lt h (hlt.trans (by decide))]

/-- A negative length searches nothing, and is passed on as a large number. -/
theorem covers_toNat {length searched : ℤ} (hlt : length<2^31) (hle : searched≤length)
    (h : input.Covers (byteCount length)) : input.Covers searched.toNat := by
  by_cases hnone : searched.toNat=0
  · exact Or.inl hnone
  · rw [byteCount_of_nonneg (by omega) hlt] at h
    exact Or.inr ((h.resolve_left (by omega)).mono (by omega))

/-- The first part of the data is searched. -/
theorem readFilename_isSome_iff (filename : List UInt8) {searched : ℤ}
    (hsearched : searched=min length guacRdpPrintJobTitleSearchLength)
    (h : input.Covers searched.toNat) :
    (guacRdpPrintJobReadFilename input length filename).isSome ↔
      TitleFits 0 searched.toNat input := by
  have hclip : (if length > guacRdpPrintJobTitleSearchLength then
      guacRdpPrintJobTitleSearchLength else length)=searched := by
    split_ifs <;> omega
  rw [←searchTitle_isSome_iff h]
  simp only [guacRdpPrintJobReadFilename,Option.bind_eq_bind,hclip]
  cases searchTitle 0 searched.toNat input <;> rfl

theorem write_isSome_iff {job : ActiveJob} (hlt : length<2^31) :
    (job.write input length).isSome ↔ PrintDataFits length input job := by
  by_cases hcovers : input.Covers (byteCount length)
  · have hread := readFilename_isSome_iff job.filename rfl
      (covers_toNat hlt (min_le_left ..) hcovers)
    simp only [PrintDataFits,hcovers,and_true,←hread]
    by_cases hfirst : job.bytesReceived=0
    · cases hname : guacRdpPrintJobReadFilename input length job.filename <;>
        simp [ActiveJob.write,hfirst,hname,hcovers,guard]
    · simp [ActiveJob.write,hfirst,hcovers,guard]
  · simp [PrintDataFits,ActiveJob.write,hcovers,guard]

theorem printJobWrite_isSome_iff :
    (guacRdpdrProcessPrintJobWrite input rdpdr).isSome ↔ PrintJobWriteFits input rdpdr := by
  simp only [guacRdpdrProcessPrintJobWrite,PrintJobWriteFits,Option.bind_eq_bind,
    ByteStream.isSome_readUInt_bind,ByteStream.seek_seek,Nat.reduceAdd]
  cases rdpdr.activeJob with
  | none => simp
  | some job =>
    simp only [Option.isSome_map,write_isSome_iff (wrap32_lt _),Option.some.injEq,forall_eq']

variable {host : Host} {request : IoRequest}

theorem printerRequest_isSome_iff :
    (guacRdpdrDevicePrinterIorequestHandler host request input rdpdr).isSome ↔
      (request.majorFunc=irpMjWrite→PrintJobWriteFits input rdpdr) := by
  have hcreate : irpMjCreate≠irpMjWrite := by decide
  rw [guacRdpdrDevicePrinterIorequestHandler]
  split_ifs with hcreated hwrite hclose
  · simp [guacRdpdrProcessPrintJobCreate,hcreated,hcreate]
  · simp [hwrite,printJobWrite_isSome_iff]
  · simp [guacRdpdrProcessPrintJobClose,hwrite]
  · simp [hwrite]

theorem create_isSome_iff :
    (guacRdpdrFsProcessCreate host input rdpdr).isSome ↔ CreateFits input := by
  simp [guacRdpdrFsProcessCreate,CreateFits]

theorem close_isSome : (guacRdpdrFsProcessClose host request rdpdr).isSome := by
  rw [guacRdpdrFsProcessClose]
  cases guacRdpFsGetFile rdpdr.fs request.fileId <;> rfl

theorem read_isSome_iff :
    (guacRdpdrFsProcessRead host request input rdpdr).isSome ↔ input.Has 12 := by
  simp [guacRdpdrFsProcessRead]

theorem writeFile_isSome_iff : (guacRdpdrFsProcessWrite host request input rdpdr).isSome ↔
      WriteFits request.fileId input rdpdr := by
  simp [guacRdpdrFsProcessWrite,WriteFits]

theorem processInfo_isSome_iff : (processInfo input rdpdr).isSome ↔ input.Has 4 := by
  simp [processInfo]

theorem setSize_isSome_iff : (setSize host request input rdpdr).isSome ↔ input.Has 8 := by
  simp [setSize]

theorem setRenameInfo_isSome_iff :
    (guacRdpdrFsProcessSetRenameInfo host request input rdpdr).isSome ↔ RenameFits input := by
  simp [guacRdpdrFsProcessSetRenameInfo,RenameFits]

theorem setFileInfo_isSome_iff :
    (guacRdpdrFsProcessSetFileInfo host request input rdpdr).isSome ↔ SetFileInfoFits input := by
  simp only [guacRdpdrFsProcessSetFileInfo,SetFileInfoFits,Option.bind_eq_bind,
    ByteStream.isSome_readUInt_bind,ByteStream.has_seek,ByteStream.seek_seek,Nat.reduceAdd,
    ByteStream.has_and_has_and,Nat.reduceLeDiff]
  refine and_congr_right fun _ => ?_
  split_ifs
  · exact setSize_isSome_iff.trans ByteStream.has_seek
  · exact iff_true_intro rfl
  · exact setRenameInfo_isSome_iff
  · exact setSize_isSome_iff.trans ByteStream.has_seek
  · exact iff_true_intro rfl

/-- The name of an entry always finds room. -/
theorem queryEntry_isSome (entryName : List UInt8) : (queryEntry entryName).isSome := by
  have hroom := length_utf8ToUtf16_le (guacUtf8Strlen entryName) entryName
    (by decide : 2≤utf16EntryNameSize)
  simp [queryEntry,guard,hroom]

/-- The paths of entries find room in their buffer. -/
theorem queryEntries_isSome (fileId : ℤ) (fsInformationClass : ℕ) (entries : List HostEntry) :
    (queryEntries host fileId fsInformationClass entries rdpdr).isSome := by
  induction entries generalizing rdpdr with
  | nil => rfl
  | cons entry entries ih =>
    simp only [queryEntries]
    split
    · rfl
    · split
      · exact ih
      · next entryPath hpath =>
        have hwritten : entryPath.written≤guacRdpFsMaxPath := (normalizePath_some hpath).2.1
        simp only [Option.bind_eq_bind,isSome_guard_bind,hwritten,true_and]
        split
        · split
          · obtain ⟨converted,hconverted⟩ :=
              Option.isSome_iff_exists.mp (queryEntry_isSome entry.name)
            split_ifs <;> simp [hconverted]
          · exact ih
        · exact ih

theorem queryDirectory_isSome_iff :
    (guacRdpdrFsProcessQueryDirectory host request input rdpdr).isSome ↔
      QueryDirectoryFits request.fileId input rdpdr := by
  rw [guacRdpdrFsProcessQueryDirectory,QueryDirectoryFits]
  cases guacRdpFsGetFile rdpdr.fs request.fileId with
  | none => simp
  | some file =>
    simp only [Option.bind_eq_bind,ByteStream.isSome_readUInt_bind,ByteStream.has_seek,
      ByteStream.seek_seek,Nat.reduceAdd,ByteStream.has_and_has_and,Nat.reduceLeDiff,
      Option.isSome_some,true_imp_iff]
    refine and_congr_right fun _ => ?_
    by_cases hinitial : (input.seek 4).uint 1=0
    · simp [hinitial,queryEntries_isSome]
    · simp [hinitial,queryEntries_isSome,Option.map_eq_bind,Option.bind_assoc]

theorem driveRequest_isSome_iff :
    (guacRdpdrDeviceFsIorequestHandler host request input rdpdr).isSome ↔
      DriveRequestFits request input rdpdr := by
  rw [guacRdpdrDeviceFsIorequestHandler,DriveRequestFits]
  split_ifs
  · exact create_isSome_iff
  · exact iff_true_intro close_isSome
  · exact read_isSome_iff
  · exact writeFile_isSome_iff
  · exact processInfo_isSome_iff
  · exact processInfo_isSome_iff
  · exact setFileInfo_isSome_iff
  · exact queryDirectory_isSome_iff
  · exact iff_true_intro rfl

theorem callHandler_isSome_iff :
    (callHandler host request input rdpdr).isSome ↔ DeviceRequestFits request input rdpdr := by
  rw [callHandler,DeviceRequestFits]
  cases rdpdr.device request.deviceId with
  | none => exact iff_true_intro rfl
  | some device =>
    cases device with
    | printer => exact printerRequest_isSome_iff
    | filesystem => exact driveRequest_isSome_iff

theorem deviceIorequest_isSome_iff : (guacRdpdrProcessDeviceIorequest host input rdpdr).isSome ↔
      DeviceIorequestFits input rdpdr := by
  simp only [guacRdpdrProcessDeviceIorequest,DeviceIorequestFits,ioRequest,Option.bind_eq_bind,
    ByteStream.isSome_readUInt_bind,ByteStream.has_seek,ByteStream.seek_seek,Nat.reduceAdd,
    ByteStream.has_and_has_and,Nat.reduceLeDiff,callHandler_isSome_iff]

/-! ## Messages -/

theorem seekCapabilities_isSome_iff (count : ℕ) (input : ByteStream) :
    (seekCapabilities count input).isSome ↔ CapabilitiesFit count input := by
  induction count generalizing input with
  | zero => exact iff_true_intro rfl
  | succ count ih => simp [seekCapabilities,CapabilitiesFit,ih]

theorem serverCapability_isSome_iff : (guacRdpdrProcessServerCapability input rdpdr).isSome ↔
      input.Has 2 ∧ CapabilitiesFit (input.uint 2) (input.seek 4) := by
  rw [←seekCapabilities_isSome_iff]
  simp only [guacRdpdrProcessServerCapability,Option.bind_eq_bind,
    ByteStream.isSome_readUInt_bind,ByteStream.seek_seek,Nat.reduceAdd]
  cases seekCapabilities (input.uint 2) (input.seek 4) <;> simp

/-- A request to open a file whose path has 100 bytes, of which none are sent. -/
def createWithoutPath : List UInt8 :=
  [0x72,0x44,0x52,0x49]++List.replicate 20 0++List.replicate 28 0++[100,0,0,0]

end GuacServer.DeviceRedirection
