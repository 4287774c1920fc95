import GuacServer.RdpPaths
import GuacServer.Unicode

/-!
# Uploads to the RDP drive

A file that is uploaded is opened in the root of the drive, under its name without separators. The
path of that file is put together byte by byte and normalised as any other when it is opened.
-/

namespace GuacServer.RdpUploads

open List PathNormalization PathResolution Pool RdpDrive StringBuffers Unicode

/-- A separator is replaced by an underscore. -/
def underscored (c : UInt8) : UInt8 := if isSeparator c then 0x5F else c

/-- The loop of __generate_upload_path, which stores n more bytes at most, and the terminator. -/
def uploadPathLoop : ℕ→List UInt8→List UInt8→StringBuffer
  | 0, _, path => ⟨path,path.length+1⟩
  | _ + 1, [], path => ⟨path,path.length+1⟩
  | n+1, c::filename, path => uploadPathLoop n filename (path++[underscored c])

/-- __generate_upload_path. -/
def generateUploadPath (filename : List UInt8) : StringBuffer :=
  uploadPathLoop (guacRdpFsMaxPath-1) filename [0x5C]

/-- guac_rdp_upload_status. -/
structure RdpUploadStatus where
  offset : ℕ
  fileId : ℤ

/-- What is left when an upload has begun or was refused. -/
structure Upload where
  filesystem : Option RdpFs
  calls : List SystemCall
  /-- The data of the stream, which gets its handlers with them. -/
  data : Option RdpUploadStatus
  /-- The text and the status of the ack. -/
  ack : List UInt8×ℤ

/-- guac_rdp_upload_file_handler: GENERIC_WRITE is 0x40000000, FILE_OVERWRITE_IF is 5. -/
def guacRdpUploadFileHandler (filesystem : Option RdpFs) (filename : List UInt8)
    (answers : OpenAnswers) : Upload :=
  match filesystem with
  | none => ⟨none,[],none,ascii "FAIL (NO FS)", 0x0200⟩
  | some fs =>
    let filePath := generateUploadPath filename
    let opened := guacRdpFsOpen fs filePath.contents 0x40000000 5 0 answers
    if opened.result<0 then
      ⟨some opened.fs,opened.calls,none,ascii "FAIL (CANNOT OPEN)", 0x0303⟩
    else
      ⟨some opened.fs,opened.calls,some ⟨0,opened.result⟩,ascii "OK (STREAM BEGIN)", 0⟩

/-- A file is the one of that name in the root of the drive, and no other was asked for. -/
structure InRoot (drivePath name : List UInt8) (file : RdpFsFile) (calls : List SystemCall) :
    Prop where
  entry : Names 0x2E isSeparator name
  absolutePath : file.absolutePath=0x5C::name
  realPath : file.realPath=drivePath++0x2F::name
  calls : ∀ call∈calls, call.target=some (drivePath++0x2F::name)

/-- The path is written to its buffer, and an upload that is not refused is that of a file in the
root of the drive. -/
def Lands (filesystem : Option RdpFs) (filename : List UInt8) (answers : OpenAnswers) : Prop :=
  (generateUploadPath filename).written≤guacRdpFsMaxPath ∧
    ∀ status∈(guacRdpUploadFileHandler filesystem filename answers).data,
      ∃ fs after, filesystem=some fs ∧
        (guacRdpUploadFileHandler filesystem filename answers).filesystem=some after ∧
        InRoot fs.drivePath (filename.map underscored) (after.files status.fileId)
          (guacRdpUploadFileHandler filesystem filename answers).calls

/-- A file is opened, if need be only for reading. -/
def Opens (answers : OpenAnswers) : Prop :=
  (∃ fd, answers.opened=.ok fd) ∨ answers.opened=.error .eisdir ∧ ∃ fd, answers.reopened=.ok fd

/-- No file is opened for a name: too many are, it names a stream, or neither the operating system
nor the pool has one. -/
def Denied (fs : RdpFs) (filename : List UInt8) (answers : OpenAnswers) : Prop :=
  fs.openFiles≥guacRdpFsMaxFiles ∨ 0x3A∈filename ∨ ¬Opens answers ∨
    (guacPoolNextInt fs.fileIdPool).1<0

variable {fs : RdpFs} {filename name : List UInt8} {answers : OpenAnswers}

theorem uploadPathLoop_eq (n : ℕ) (filename path : List UInt8) : uploadPathLoop n filename path=
      ⟨path++(filename.take n).map underscored,path.length+min n filename.length+1⟩ := by
  induction n generalizing filename path with
  | zero => simp [uploadPathLoop]
  | succ n ih =>
    cases filename with
    | nil => simp [uploadPathLoop]
    | cons c filename =>
      rw [uploadPathLoop,ih]
      simp only [append_assoc,singleton_append,length_append,
        length_nil,take_succ_cons,map_cons,length_cons,Nat.succ_min_succ]
      congr 1
      omega

theorem underscored_whole (filename : List UInt8) :
    ∀ c∈filename.map underscored, isSeparator c=false := by
  intro c hc
  obtain ⟨b,-,rfl⟩ := mem_map.mp hc
  unfold underscored
  split_ifs with hb
  · decide
  · exact Bool.eq_false_iff.mpr hb

/-- The bytes that are told apart in a name stay as they are. -/
theorem underscored_eq_iff {b c : UInt8} (hb : isSeparator b=false) (hne : b≠0x5F) :
    underscored c=b ↔ c=b := by
  unfold underscored
  split_ifs with hc
  · refine iff_of_false hne.symm ?_
    rintro rfl
    exact absurd hc (by simp [hb])
  · rfl

/-- The name is that of an entry unless it is empty or stands for a directory. -/
theorem names_underscored_iff (filename : List UInt8) :
    Names 0x2E isSeparator (filename.map underscored) ↔ filename ∉ [[],[0x2E],[0x2E,0x2E]] := by
  have hdot {c : UInt8} : underscored c=0x2E ↔ c=0x2E := underscored_eq_iff (by decide) (by decide)
  have hself : filename.map underscored=[0x2E] ↔ filename=[0x2E] := by
    simp [map_eq_cons_iff,hdot]
  have hparent : filename.map underscored=[0x2E,0x2E] ↔ filename=[0x2E,0x2E] := by
    simp [map_eq_cons_iff,hdot]
  simp only [mem_cons,not_mem_nil,or_false,not_or]
  constructor
  · intro h
    exact ⟨fun hnil => h.ne_nil (by rw [hnil]; rfl),fun heq => h.ne_self (hself.mpr heq),
      fun heq => h.ne_parent (hparent.mpr heq)⟩
  · rintro ⟨hnil,hne,hne'⟩
    exact ⟨fun heq => hnil (map_eq_nil_iff.mp heq),fun heq => hne (hself.mp heq),
      fun heq => hne' (hparent.mp heq),underscored_whole filename⟩

/-- A component behind the root is refused only if it names a stream. -/
theorem normalize_root_eq_none_iff (hwhole : ∀ c∈name, isSeparator c=false)
    (h : name.length+1<guacRdpFsMaxPath) :
    guacRdpFsNormalizePath (0x5C::name)=none ↔ 0x3A∈name := by
  rw [guacRdpFsNormalizePath,normalizePath_component_eq_none_iff (by decide) hwhole h]
  constructor
  · rintro ⟨c,hc,hstream⟩
    rwa [←of_decide_eq_true hstream]
  · exact fun hmem => ⟨0x3A,hmem,by decide⟩

/-- What is normalised is the root itself if the component stands for a directory. -/
theorem contents_normalize_root (hwhole : ∀ c∈name, isSeparator c=false)
    {normalized : StringBuffer} (h : guacRdpFsNormalizePath (0x5C::name)=some normalized) :
    (Names 0x2E isSeparator name → normalized.contents=0x5C::name) ∧
      (¬Names 0x2E isSeparator name → normalized.contents=[0x5C]) := by
  have hcontents := (normalizePath_some h).1
  rw [components,drop_succ_cons,drop_zero,
    splitOnP_eq_singleton fun c hc => by simp [hwhole c hc]] at hcontents
  rw [hcontents]
  constructor
  · intro hname
    have hnot : ¬(name=[0x2E] ∨ name=[]) := not_or.mpr ⟨hname.ne_self,hname.ne_nil⟩
    simp [resolve,resolveStep,hname.ne_parent,hnot,rdpRules]
  · intro hname
    have hdirectory : resolve 0x2E [name]=[] := by
      unfold resolve resolveStep
      simp only [foldl_cons,foldl_nil]
      split_ifs with hparent hself
      · rfl
      · rfl
      · exact absurd ⟨fun h => hself (.inr h),fun h => hself (.inl h),hparent,hwhole⟩ hname
    rw [hdirectory]
    rfl

/-- An open fails, or stores a file and its descriptor. -/
theorem openNative_cases (fs : RdpFs) (normalizedPath realPath : List UInt8) (flags : OpenFlags)
    (answers : OpenAnswers) (calls : List SystemCall) :
    (¬Opens answers ∧ (openNative fs normalizedPath realPath flags answers calls).result<0) ∨
      Opens answers ∧ ∃ fd calls', openNative fs normalizedPath realPath flags answers calls=
        fillFile fs normalizedPath realPath fd answers.directory calls' := by
  unfold openNative Opens
  cases hopened : answers.opened with
  | ok fd => exact .inr ⟨.inl ⟨fd,rfl⟩,fd,_,rfl⟩
  | error err =>
    by_cases hdirectory : err=.eisdir
    · rw [hdirectory]
      simp only [if_true]
      cases hreopened : answers.reopened with
      | ok fd => exact .inr ⟨by simp,fd,_,rfl⟩
      | error err => exact .inl ⟨by simp,getErrorcode_neg err⟩
    · simp only [hdirectory,if_false]
      exact .inl ⟨by simp [hdirectory],getErrorcode_neg err⟩

/-- What is opened for a name in the root, unless it is denied. -/
theorem open_root (hwhole : ∀ c∈name, isSeparator c=false)
    (h : name.length+1<guacRdpFsMaxPath) {opened : Step}
    (hopened : guacRdpFsOpen fs (0x5C::name) 0x40000000 5 0 answers=opened) :
    (Denied fs name answers ∧ opened.result<0) ∨
      ¬Denied fs name answers ∧ 0≤opened.result ∧ ∃ normalized,
        guacRdpFsNormalizePath (0x5C::name)=some normalized ∧
        (opened.fs.files opened.result).absolutePath=normalized.contents ∧
        (opened.fs.files opened.result).realPath=guacRdpFsTranslatePath fs normalized.contents ∧
        AimedAt (guacRdpFsTranslatePath fs normalized.contents) opened.calls := by
  have hdisposition : dispositionFlags 5 (accessFlags 0x40000000)≠none := by decide
  have hrefused : OpenRefused fs (0x5C::name) 0x40000000 5 ↔
      fs.openFiles≥guacRdpFsMaxFiles ∨ 0x3A∈name := by
    rw [OpenRefused,or_iff_left hdisposition,orRoot,if_neg (cons_ne_nil _ _),
      normalize_root_eq_none_iff hwhole h]
  rcases open_cases fs (0x5C::name) 0x40000000 5 0 answers with
    ⟨hrefuse,err,hopen⟩ | ⟨hopens,normalized,flags,hnormal,hopen⟩
  · rw [←hopened,hopen]
    exact .inl ⟨(hrefused.mp hrefuse).imp_right .inl,getErrorcode_neg err⟩
  · rw [hrefused,not_or] at hopens
    have haimed := aimedAt_unlinked fs normalized.contents
      (guacRdpFsTranslatePath fs normalized.contents) flags 5 0 answers
    rw [hopened] at hopen
    rw [←hopen] at haimed
    unfold createAndOpen at hopen
    rw [if_neg (by simp)] at hopen
    rcases openNative_cases fs normalized.contents (guacRdpFsTranslatePath fs normalized.contents)
      flags answers (if (5 : UInt32)=fileSupersede then
        [.unlink (guacRdpFsTranslatePath fs normalized.contents)] else []) with
      ⟨hnot,hresult⟩ | ⟨hopensFile,fd,calls,hfill⟩
    · rw [←hopen] at hresult
      exact .inl ⟨.inr (.inr (.inl hnot)),hresult⟩
    · rw [hfill] at hopen
      have hresult : opened.result=(guacPoolNextInt fs.fileIdPool).1 := by
        rw [hopen]
        rfl
      by_cases hnext : (guacPoolNextInt fs.fileIdPool).1<0
      · exact .inl ⟨.inr (.inr (.inr hnext)),by rwa [hresult]⟩
      · refine .inr ⟨?_,by omega,normalized,hnormal,?_,?_,haimed⟩
        · rintro (hmany | hstream | hnot | hnegative)
          · exact hopens.1 hmany
          · exact hopens.2 hstream
          · exact hnot hopensFile
          · exact hnext hnegative
        · rw [hresult,hopen]
          simp [fillFile]
        · rw [hresult,hopen]
          simp [fillFile]

theorem generateUploadPath_eq (filename : List UInt8) : generateUploadPath filename=
    ⟨0x5C::(filename.take (guacRdpFsMaxPath-1)).map underscored,
      min (guacRdpFsMaxPath-1) filename.length+2⟩ := by
  unfold generateUploadPath
  rw [uploadPathLoop_eq,length_singleton,Nat.add_comm 1]
  rfl

theorem denied_underscored (fs : RdpFs) (filename : List UInt8) (answers : OpenAnswers) :
    Denied fs (filename.map underscored) answers ↔ Denied fs filename answers := by
  unfold Denied
  rw [mem_map]
  simp only [underscored_eq_iff (by decide : isSeparator 0x3A=false) (by decide),exists_eq_right]

/-- A file that is opened for a name is that of the root exactly if it is an entry and its whole
path fits. -/
theorem inRoot_iff {file : RdpFsFile} {calls : List SystemCall} {normalized : StringBuffer}
    (hwhole : ∀ c∈name, isSeparator c=false)
    (hnormal : guacRdpFsNormalizePath (0x5C::name)=some normalized)
    (habsolute : file.absolutePath=normalized.contents)
    (hreal : file.realPath=guacRdpFsTranslatePath fs normalized.contents)
    (hcalls : AimedAt (guacRdpFsTranslatePath fs normalized.contents) calls) :
    InRoot fs.drivePath name file calls ↔
      Names 0x2E isSeparator name ∧ fs.drivePath.length+1+name.length<guacRdpFsMaxPath := by
  obtain ⟨hentry,-⟩ := contents_normalize_root hwhole hnormal
  have hslashes : (0x5C::name).map toSlash=0x2F::name := by
    rw [map_cons,map_toSlash_whole hwhole]
    rfl
  have hfits (hname : Names 0x2E isSeparator name) :
      guacRdpFsTranslatePath fs normalized.contents=fs.drivePath++0x2F::name ↔
        fs.drivePath.length+1+name.length<guacRdpFsMaxPath := by
    rw [hentry hname,←hslashes,translatePath_whole_iff,length_cons]
    omega
  constructor
  · intro h
    exact ⟨h.entry,(hfits h.entry).mp (hreal.symm.trans h.realPath)⟩
  · rintro ⟨hname,hlength⟩
    have hpath := (hfits hname).mpr hlength
    rw [hpath] at hreal hcalls
    exact ⟨hname,habsolute.trans (hentry hname),hreal,hcalls.target⟩

/-- An upload lands in the root of the drive exactly if there is room for the terminator behind its
name, and it is denied or the name is that of an entry and fits behind the path of the drive. -/
theorem lands_iff (filesystem : Option RdpFs) (filename : List UInt8) (answers : OpenAnswers) :
    Lands filesystem filename answers ↔
      filename.length+1<guacRdpFsMaxPath ∧ ∀ fs∈filesystem, Denied fs filename answers ∨
        filename ∉ [[],[0x2E],[0x2E,0x2E]] ∧
          fs.drivePath.length+1+filename.length<guacRdpFsMaxPath := by
  have hwritten : (generateUploadPath filename).written≤guacRdpFsMaxPath ↔
      filename.length+1<guacRdpFsMaxPath := by
    have hmax : guacRdpFsMaxPath=4096 := rfl
    rw [generateUploadPath_eq]
    dsimp only
    omega
  rw [Lands,hwritten]
  refine and_congr_right fun hshort => ?_
  cases filesystem with
  | none => simp [guacRdpUploadFileHandler]
  | some fs =>
    have hwhole := underscored_whole filename
    have hlength : (filename.map underscored).length=filename.length := length_map _
    have hcontents : (generateUploadPath filename).contents=0x5C::filename.map underscored := by
      rw [generateUploadPath_eq,take_of_length_le (by omega)]
    obtain ⟨opened,hopened⟩ : ∃ opened, guacRdpFsOpen fs (0x5C::filename.map underscored)
      0x40000000 5 0 answers=opened := ⟨_,rfl⟩
    unfold guacRdpUploadFileHandler
    simp only [hcontents,hopened,Option.mem_some_iff,forall_eq']
    rw [←names_underscored_iff,←denied_underscored,←hlength]
    rcases open_root hwhole (by omega) hopened with
      ⟨hdenied,hresult⟩ | ⟨hdenied,hresult,normalized,hnormal,habsolute,hreal,hcalls⟩
    · simp [hdenied,hresult]
    · rw [if_neg (by omega)]
      simp [hdenied,inRoot_iff hwhole hnormal habsolute hreal hcalls]

/-- The terminator of a path for a name of 4095 bytes is written behind its buffer. -/
theorem not_lands : ¬∀ filesystem filename answers, Lands filesystem filename answers := by
  intro h
  have hwritten := (h (some (guacRdpFsAlloc (ascii "/drive") fun _ =>
    ⟨0,false,[],[],false,0,none⟩)) (List.replicate 4095 0x61) ⟨none,.ok 3,.ok 3,none⟩).1
  rw [generateUploadPath_eq,length_replicate] at hwritten
  exact absurd hwritten (by decide)

end GuacServer.RdpUploads
