import GuacServer.RdpDrive

/-!
# Containment of the RDP drive

Every path is normalised before it is appended to the path of the drive, so that no path
leads out of it. The buffer for the real path is as large as the one for the normalised
path, though, and what does not fit is cut off.
-/

namespace GuacServer.RdpDrive

open List PathNormalization PathResolution Pool StringBuffers

/-- The path that a call looks up or creates. -/
def SystemCall.target : SystemCall→Option (List UInt8)
  | .unlink path | .mkdir path | .openFile path _ | .rename _ path => some path
  | _ => none

/-- The path within the drive that the components of a path name. -/
def virtualPath (path : List UInt8) : List UInt8 := 0x5C::join 0x5C (components path)

/-- Calls are contained in the drive: there are none, or the path was normalised to its
components, stays as it is when it is normalised again, and all of it is used behind the
path of the drive, where no component leads to a parent. -/
def Contained (drivePath path : List UInt8) (calls : List SystemCall) : Prop :=
  calls=[] ∨ ∃ normalized, guacRdpFsNormalizePath path=some normalized ∧
    normalized.contents=virtualPath path ∧
    (∃ again, guacRdpFsNormalizePath normalized.contents=some again ∧
      again.contents=normalized.contents) ∧
    ∀ call∈calls, ∀ realPath∈call.target, realPath=drivePath++normalized.contents.map toSlash ∧
      ∀ c∈(realPath.drop drivePath.length).splitOnP isSeparator, c≠[0x2E,0x2E]

/-- The real path is cut off at the size of its buffer. -/
theorem translatePath_eq (fs : RdpFs) (path : List UInt8) :
    guacRdpFsTranslatePath fs path=(fs.drivePath++path.map toSlash).take (guacRdpFsMaxPath-1) := by
  simp only [guacRdpFsTranslatePath,take_append,map_take,length_take]
  congr 2
  omega

/-- It is the whole path exactly if that fits. -/
theorem translatePath_whole_iff (fs : RdpFs) (path : List UInt8) :
    guacRdpFsTranslatePath fs path=fs.drivePath++path.map toSlash ↔
      fs.drivePath.length+path.length<guacRdpFsMaxPath := by
  rw [translatePath_eq,take_eq_self_iff,length_append,length_map]
  have hpos : 0<guacRdpFsMaxPath := by decide
  omega

theorem map_toSlash_whole {component : List UInt8}
    (h : ∀ c∈component, isSeparator c=false) : component.map toSlash=component := by
  have hbytes : ∀ c∈component, toSlash c=id c := by
    intro c hc
    refine if_neg ?_
    rintro rfl
    exact absurd (h _ hc) (by decide)
  rw [map_congr_left hbytes,map_id]

/-- Of joined components the separators are translated. -/
theorem map_toSlash_join {names : List (List UInt8)} (h : ∀ c∈names, Names 0x2E isSeparator c) :
    (join 0x5C names).map toSlash=join 0x2F names := by
  have hnames : ∀ c∈names, c.map toSlash=c := fun c hc => map_toSlash_whole (h c hc).whole
  clear h
  induction names with
  | nil => rfl
  | cons component names ih =>
    have hfirst := hnames component (mem_cons_self ..)
    have hrest := ih fun c hc => hnames c (mem_cons_of_mem _ hc)
    cases names with
    | nil => simpa using hfirst
    | cons next names =>
      rw [join_cons_cons,join_cons_cons,map_append,map_cons,hfirst,hrest]
      rfl

/-- There are calls, and all of them look up or create the path. -/
structure AimedAt (realPath : List UInt8) (calls : List SystemCall) : Prop where
  ne_nil : calls≠[]
  target : ∀ call∈calls, call.target=some realPath

variable {calls : List SystemCall}

/-- Calls for a path that was normalised are contained exactly if the real path fits. -/
theorem contained_iff_fits {fs : RdpFs} {path : List UInt8} {normalized : StringBuffer}
    (hnormal : guacRdpFsNormalizePath path=some normalized)
    (hcalls : AimedAt (guacRdpFsTranslatePath fs normalized.contents) calls) :
    Contained fs.drivePath path calls ↔
      fs.drivePath.length+(virtualPath path).length<guacRdpFsMaxPath := by
  have hcontents : normalized.contents=virtualPath path := (normalizePath_some hnormal).1
  have hwhole := translatePath_whole_iff fs normalized.contents
  rw [hcontents] at hwhole
  rw [←hwhole,←hcontents]
  constructor
  · rintro (hnil | ⟨again,hagain,-,-,hpaths⟩)
    · exact absurd hnil hcalls.ne_nil
    · cases hnormal.symm.trans hagain
      obtain ⟨call,hcall⟩ := exists_mem_of_ne_nil _ hcalls.ne_nil
      exact (hpaths call hcall _ (hcalls.target call hcall)).1
  · intro hreal
    refine Or.inr ⟨normalized,hnormal,hcontents,normalizePath_normalized hnormal,?_⟩
    intro call hcall realPath htarget
    rw [hcalls.target call hcall,Option.mem_some_iff,hreal] at htarget
    subst htarget
    refine ⟨rfl,?_⟩
    have hnames := names_components path
    rw [drop_left,hcontents,virtualPath,map_cons,map_toSlash_join hnames]
    exact not_parent_cons rfl (not_parent_join rfl hnames)

/-! ## The calls that are made -/

variable {realPath : List UInt8}

theorem aimedAt_append {call : SystemCall}
    (h : ∀ made∈calls, made.target=some realPath) (hcall : call.target=some realPath) :
    AimedAt realPath (calls++[call]) :=
  ⟨by simp,fun made hmade => (mem_append.mp hmade).elim (h made)
    fun hlast => mem_singleton.mp hlast ▸ hcall⟩

section

variable (fs : RdpFs)

/-- All calls of an open have the same target. -/
theorem aimedAt_openNative (normalizedPath : List UInt8) (flags : OpenFlags)
    (answers : OpenAnswers) (h : ∀ made∈calls, made.target=some realPath) :
    AimedAt realPath (openNative fs normalizedPath realPath flags answers calls).calls := by
  have hfirst : AimedAt realPath (calls++[.openFile realPath flags]) := aimedAt_append h rfl
  unfold openNative
  cases answers.opened with
  | ok fd => exact hfirst
  | error err =>
    by_cases hdirectory : err=.eisdir
    · simp only [hdirectory,if_true]
      cases answers.reopened <;> exact aimedAt_append hfirst.target rfl
    · simp only [hdirectory,if_false]
      exact hfirst

theorem aimedAt_createAndOpen (normalizedPath : List UInt8) (flags : OpenFlags)
    (createOptions : UInt32) (answers : OpenAnswers) (h : ∀ made∈calls, made.target=some realPath) :
    AimedAt realPath
      (createAndOpen fs normalizedPath realPath flags createOptions answers calls).calls := by
  have hmade : AimedAt realPath (calls++[.mkdir realPath]) := aimedAt_append h rfl
  unfold createAndOpen
  split_ifs
  · cases answers.mkdir with
    | none => exact aimedAt_openNative _ _ _ _ hmade.target
    | some err =>
      simp only
      split_ifs
      · exact hmade
      · exact aimedAt_openNative _ _ _ _ hmade.target
  · exact aimedAt_openNative _ _ _ _ h

/-- The path that is normalised for a path that is opened. -/
def orRoot (path : List UInt8) : List UInt8 := if path=[] then [0x5C] else path

theorem absolute_eq (path : List UInt8) :
    absolute path=none ∧ guacRdpFsNormalizePath (orRoot path)=none ∨
      absolute path=some (orRoot path) := by
  cases path with
  | nil => simp [absolute,orRoot]
  | cons first rest =>
    by_cases hfirst : first≠0x5C ∧ first≠0x2F
    · have hnot : isSeparator first=false := by simp [isSeparator,hfirst]
      simp [absolute,orRoot,hfirst,guacRdpFsNormalizePath,normalizePath,hnot]
    · simp [absolute,orRoot,hfirst]

/-- A file is not opened: too many are, the path is not valid, or it is not recognised
what is to be done if the file exists. -/
def OpenRefused (path : List UInt8) (access createDisposition : UInt32) : Prop :=
  fs.openFiles≥guacRdpFsMaxFiles ∨ guacRdpFsNormalizePath (orRoot path)=none ∨
    dispositionFlags createDisposition (accessFlags access)=none

/-- A file is not renamed: its ID or the new path is not valid. -/
def RenameRefused (fileId : ℤ) (newPath : List UInt8) : Prop :=
  fileId<0 ∨ fileId≥guacRdpFsMaxFiles ∨ guacRdpFsNormalizePath newPath=none

theorem getErrorcode_neg (err : Errno) : guacRdpFsGetErrorcode err<0 := by
  cases err <;> decide

/-- A file is refused without a call, or its path is normalised and translated and the
directory or file is created. -/
theorem open_cases (path : List UInt8)
    (access createDisposition createOptions : UInt32) (answers : OpenAnswers) :
    (OpenRefused fs path access createDisposition ∧ ∃ err,
      guacRdpFsOpen fs path access createDisposition createOptions answers=
        ⟨fs,[],guacRdpFsGetErrorcode err⟩) ∨
    (¬OpenRefused fs path access createDisposition ∧ ∃ normalized flags,
      guacRdpFsNormalizePath (orRoot path)=some normalized ∧
      guacRdpFsOpen fs path access createDisposition createOptions answers=
        createAndOpen fs normalized.contents (guacRdpFsTranslatePath fs normalized.contents) flags
          createOptions answers
          (if createDisposition=fileSupersede then
            [.unlink (guacRdpFsTranslatePath fs normalized.contents)] else [])) := by
  unfold guacRdpFsOpen OpenRefused
  by_cases hmany : fs.openFiles≥guacRdpFsMaxFiles
  · exact Or.inl ⟨Or.inl hmany,.enfile,by simp [hmany]⟩
  · rcases absolute_eq path with ⟨habsolute,hnormal⟩ | habsolute
    · exact Or.inl ⟨Or.inr (Or.inl hnormal),.enoent,by simp [hmany,habsolute]⟩
    · simp only [hmany,if_false,habsolute,false_or]
      cases hnormal : guacRdpFsNormalizePath (orRoot path) with
      | none => exact Or.inl ⟨Or.inl rfl,.enoent,rfl⟩
      | some normalized =>
        cases hflags : dispositionFlags createDisposition (accessFlags access) with
        | none => exact Or.inl ⟨Or.inr rfl,.enosys,rfl⟩
        | some flags => exact Or.inr ⟨by simp,normalized,flags,rfl,rfl⟩

/-- All calls for a file that is not refused look up or create its real path. -/
theorem aimedAt_unlinked (normalizedPath realPath : List UInt8) (flags : OpenFlags)
    (createDisposition createOptions : UInt32) (answers : OpenAnswers) :
    AimedAt realPath (createAndOpen fs normalizedPath realPath flags createOptions answers
      (if createDisposition=fileSupersede then [.unlink realPath] else [])).calls := by
  refine aimedAt_createAndOpen _ _ _ _ _ fun made hmade => ?_
  split_ifs at hmade
  · rw [mem_singleton.mp hmade]
    rfl
  · exact absurd hmade not_mem_nil

/-- When all calls of an open stay within the drive. -/
theorem contained_open_iff (path : List UInt8)
    (access createDisposition createOptions : UInt32) (answers : OpenAnswers) :
    Contained fs.drivePath (orRoot path)
        (guacRdpFsOpen fs path access createDisposition createOptions answers).calls ↔
      OpenRefused fs path access createDisposition ∨
        fs.drivePath.length+(virtualPath (orRoot path)).length<guacRdpFsMaxPath := by
  rcases open_cases fs path access createDisposition createOptions answers with
    ⟨hrefused,err,hopen⟩ | ⟨hrefused,normalized,flags,hnormal,hopen⟩
  · simp [hopen,hrefused,Contained]
  · rw [hopen,or_iff_right hrefused]
    exact contained_iff_fits hnormal (aimedAt_unlinked ..)

/-- When the call of a rename stays within the drive. -/
theorem contained_rename_iff (fileId : ℤ) (newPath : List UInt8)
    (answer : Option Errno) :
    Contained fs.drivePath newPath (guacRdpFsRename fs fileId newPath answer).calls ↔
      RenameRefused fileId newPath ∨
        fs.drivePath.length+(virtualPath newPath).length<guacRdpFsMaxPath := by
  unfold guacRdpFsRename RenameRefused withFile guacRdpFsGetFile
  by_cases hid : fileId<0 ∨ fileId≥guacRdpFsMaxFiles
  · simp [hid,←or_assoc,Contained]
  · simp only [hid,if_false,←or_assoc,false_or]
    cases hnormal : guacRdpFsNormalizePath newPath with
    | none => simp [Contained]
    | some normalized =>
      simp only [reduceCtorEq,false_or]
      exact contained_iff_fits hnormal ⟨by simp,by simp [SystemCall.target]⟩

/-- The calls made to open or rename a file are contained in the drive exactly if they
are refused before the first of them, or the path of the drive and the path within it
are together shorter than the buffer for the real path. -/
theorem calls_contained_iff :
    (∀ (path : PathString) (access createDisposition createOptions : UInt32)
        (answers : OpenAnswers),
      Contained fs.drivePath (orRoot path.bytes)
          (guacRdpFsOpen fs path.bytes access createDisposition createOptions answers).calls ↔
        OpenRefused fs path.bytes access createDisposition ∨
          fs.drivePath.length+(virtualPath (orRoot path.bytes)).length<guacRdpFsMaxPath) ∧
      ∀ (fileId : ℤ) (newPath : PathString) (answer : Option Errno),
        Contained fs.drivePath newPath.bytes
            (guacRdpFsRename fs fileId newPath.bytes answer).calls ↔
          RenameRefused fileId newPath.bytes ∨
            fs.drivePath.length+(virtualPath newPath.bytes).length<guacRdpFsMaxPath :=
  ⟨fun path => contained_open_iff fs path.bytes,
    fun fileId newPath => contained_rename_iff fs fileId newPath.bytes⟩

end

/-- Below a drive whose path has 4092 bytes the path \\..x is cut off after its second dot,
which leads to the parent of the drive. -/
theorem not_calls_contained :
    ¬∀ (fs : RdpFs) (path : PathString) (access createDisposition createOptions : UInt32)
        (answers : OpenAnswers),
      Contained fs.drivePath (orRoot path.bytes)
        (guacRdpFsOpen fs path.bytes access createDisposition createOptions answers).calls := by
  intro h
  have hcut := (contained_open_iff _ _ _ _ _ _).mp
    (h (guacRdpFsAlloc (List.replicate 4092 0x64) fun _ => ⟨0,false,[],[],false,0,none⟩)
      ⟨[0x5C,0x2E,0x2E,0x78],by simp,by decide⟩ 1 1 0 ⟨none,.ok 3,.ok 3,none⟩)
  rcases hcut with hrefused | hfits
  · exact absurd hrefused (by unfold OpenRefused; decide +kernel)
  · exact absurd hfits (by
      simp only [guacRdpFsAlloc,length_replicate]
      decide +kernel)

end GuacServer.RdpDrive
