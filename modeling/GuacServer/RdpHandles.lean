import GuacServer.RdpPaths
import GuacServer.StateRuns

/-!
# The file IDs of the RDP drive

A run of calls with arbitrary file IDs. Only the range of an ID is checked, so a call with
the ID of a file that was closed uses what is left in its structure, and closing it again
gives its ID back to the pool twice. A directory that was read is closed with its stream
and then once more.
-/

namespace GuacServer.RdpDrive

open DecimalNumerals List PathNormalization PathResolution Pool StateRuns StringBuffers

/-- The drive, the IDs that were returned and not closed since, and all system calls. -/
structure Session where
  /-- The file system. -/
  fs : RdpFs
  /-- The IDs that are open, the last one first. -/
  openIds : List ℤ
  /-- The system calls, in order. -/
  log : List SystemCall

/-- A call is made. -/
def step (op : FsOperation) (s : Session) : Option Session :=
  let made := perform s.fs op
  some
    { fs := made.fs
      openIds :=
        match op with
        | .openFile .. => if made.result≥0 then made.result::s.openIds else s.openIds
        | .close fileId => s.openIds.erase fileId
        | _ => s.openIds
      log := s.log++made.calls }

/-- No file was opened. -/
def start (drivePath : List UInt8) (memory : ℤ→RdpFsFile) : Session :=
  ⟨guacRdpFsAlloc drivePath memory,[],[]⟩

/-- The opening whose descriptor a call releases. -/
@[simp]
def SystemCall.releasesDescriptor : SystemCall→Option ℕ
  | .closedir _ opening | .close _ opening => opening
  | _ => none

/-- The opening whose path strings a call releases. -/
@[simp]
def SystemCall.releasesPaths : SystemCall→Option ℕ
  | .freePaths opening => opening
  | _ => none

/-- How often something of an opening is released. -/
def releases (released : SystemCall→Option ℕ) (opening : ℕ) (log : List SystemCall) : ℕ :=
  log.countP fun call => released call=some opening

/-- The opening is that of a file which is open. -/
def Session.HasOpen (s : Session) (opening : ℕ) : Prop :=
  ∃ id∈s.openIds, (s.fs.files id).opening=some opening

/-- Something is released once for each file that was closed, and not for any other. -/
structure ReleasedOnce (released : SystemCall→Option ℕ) (s : Session) : Prop where
  opened : ∀ opening, s.HasOpen opening ∨ s.fs.openings≤opening → releases released opening s.log=0
  closed : ∀ opening<s.fs.openings, ¬s.HasOpen opening → releases released opening s.log=1

/-- The open files are counted, have different IDs, and were not released, and those that
were closed were released once. -/
structure HandlesKept (s : Session) : Prop where
  nodup : s.openIds.Nodup
  counted : s.fs.openFiles=s.openIds.length
  bounded : 0 ≤ s.fs.openFiles ∧ s.fs.openFiles≤guacRdpFsMaxFiles
  descriptors : ReleasedOnce SystemCall.releasesDescriptor s
  paths : ReleasedOnce SystemCall.releasesPaths s

/-- An ID that is returned was not open and is an index, and a call with an ID that is not
open changes nothing and calls nothing. -/
structure CallKept (op : FsOperation) (s s' : Session) : Prop where
  returned : op.fileId=none→0≤(perform s.fs op).result →
    (perform s.fs op).result ∉ s.openIds ∧ (perform s.fs op).result<guacRdpFsMaxFiles
  stray : ∀ id, op.fileId=some id → id ∉ s.openIds → s'.fs=s.fs ∧ s'.log=s.log

/-- A call with this ID is refused. -/
def FsOperation.Refused : FsOperation→ℤ→Prop
  | .rename _ newPath _, id => RenameRefused id newPath.bytes
  | _, id => id<0 ∨ id≥guacRdpFsMaxFiles

/-- The file is closed. -/
def FsOperation.Closes : FsOperation→Prop
  | .close _ => True
  | _ => False

/-- A call that names a file is refused, or the file is open and is not a directory that
was read and is now closed. -/
def Proper (op : FsOperation) (s : Session) : Prop :=
  ∀ id, op.fileId=some id → op.Refused id ∨ (id∈s.openIds ∧ (op.Closes→(s.fs.files id).dir=false))

/-! ## What a call does -/

/-- Calls that release nothing. -/
def Idle (calls : List SystemCall) : Prop :=
  ∀ call∈calls, call.releasesDescriptor=none ∧ call.releasesPaths=none

variable {calls : List SystemCall} {id : ℤ} {op : FsOperation} {released : SystemCall→Option ℕ}
variable {s' : Session}

/-- A call that looks up a path releases nothing. -/
theorem idle_of_target {realPath : List UInt8} (h : ∀ call∈calls, call.target=some realPath) :
    Idle calls := by
  intro call hcall
  have htarget := h call hcall
  cases call <;> simp_all [SystemCall.target]

/-- A file is put where the pool says, or nothing changes. -/
def Fills (fs : RdpFs) (made : Step) : Prop :=
  (made.fs=fs ∧ made.result<0) ∨ ∃ normalizedPath realPath fd directory calls,
    made=fillFile fs normalizedPath realPath fd directory calls

theorem fills_openNative (fs : RdpFs) (normalizedPath realPath : List UInt8) (flags : OpenFlags)
    (answers : OpenAnswers) (calls : List SystemCall) :
    Fills fs (openNative fs normalizedPath realPath flags answers calls) := by
  unfold openNative
  cases answers.opened with
  | ok fd => exact Or.inr ⟨_,_,_,_,_,rfl⟩
  | error err =>
    by_cases hdirectory : err=.eisdir
    · simp only [hdirectory,if_true]
      cases answers.reopened with
      | ok fd => exact Or.inr ⟨_,_,_,_,_,rfl⟩
      | error err => exact Or.inl ⟨rfl,getErrorcode_neg err⟩
    · simp only [hdirectory,if_false]
      exact Or.inl ⟨rfl,getErrorcode_neg err⟩

/-- A file that is created takes a slot, or nothing changes. -/
theorem fills_createAndOpen (fs : RdpFs) (normalizedPath realPath : List UInt8)
    (flags : OpenFlags) (createOptions : UInt32) (answers : OpenAnswers)
    (calls : List SystemCall) :
    Fills fs (createAndOpen fs normalizedPath realPath flags createOptions answers calls) := by
  unfold createAndOpen
  split_ifs
  · cases answers.mkdir with
    | none => exact fills_openNative ..
    | some err =>
      simp only
      split_ifs
      · exact Or.inl ⟨rfl,getErrorcode_neg err⟩
      · exact fills_openNative ..
  · exact fills_openNative ..

/-- When a file is opened nothing is released, and there is room for it. -/
theorem fills_open (fs : RdpFs) (path : PathString)
    (access createDisposition createOptions : UInt32) (answers : OpenAnswers) :
    let made := perform fs (.openFile path access createDisposition createOptions answers)
    Idle made.calls ∧ Fills fs made ∧
      ((made.fs=fs ∧ made.result<0) ∨ fs.openFiles<guacRdpFsMaxFiles) := by
  rcases open_cases fs path.bytes access createDisposition createOptions answers with
    ⟨-,err,hopen⟩ | ⟨hrefused,normalized,flags,-,hopen⟩
  · have hneg := getErrorcode_neg err
    rw [perform,hopen]
    exact ⟨fun call hcall => absurd hcall not_mem_nil,Or.inl ⟨rfl,hneg⟩,Or.inl ⟨rfl,hneg⟩⟩
  · rw [perform,hopen]
    exact ⟨idle_of_target (aimedAt_unlinked ..).target,fills_createAndOpen ..,
      Or.inr (Int.not_le.mp fun hmany => hrefused (Or.inl hmany))⟩

theorem withFile_refused (fs : RdpFs) (h : id<0 ∨ id≥guacRdpFsMaxFiles)
    (operation : RdpFsFile→Step) :
    withFile fs id operation=⟨fs,[],guacRdpFsGetErrorcode .einval⟩ := by
  simp [withFile,guacRdpFsGetFile,h]

theorem withFile_used (fs : RdpFs) (h : ¬(id<0 ∨ id≥guacRdpFsMaxFiles))
    (operation : RdpFsFile→Step) : withFile fs id operation=operation (fs.files id) := by
  simp [withFile,guacRdpFsGetFile,h]

/-- A call that is refused does nothing. -/
theorem perform_refused (fs : RdpFs) (hid : op.fileId=some id) (h : op.Refused id) :
    (perform fs op).fs=fs ∧ (perform fs op).calls=[] := by
  cases op with
  | openFile => cases hid
  | rename fileId newPath answer =>
    cases hid
    simp only [perform,guacRdpFsRename]
    by_cases hrange : id<0 ∨ id≥guacRdpFsMaxFiles
    · simp [withFile_refused fs hrange]
    · have hnormal : guacRdpFsNormalizePath newPath.bytes=none :=
        (or_assoc.mpr h).resolve_left hrange
      simp [withFile_used fs hrange,hnormal]
  | readDir fileId answers =>
    cases hid
    have hrange : id<0 ∨ id≥guacRdpFsMaxFiles := h
    simp [perform,guacRdpFsReadDir,guacRdpFsGetFile,hrange]
  | _ =>
    cases hid
    simp [perform,guacRdpFsRead,guacRdpFsWrite,guacRdpFsDelete,guacRdpFsTruncate,
      guacRdpFsClose,withFile_refused fs h]

@[simp]
theorem RdpFs.setFile_self (fs : RdpFs) (id : ℤ) : fs.setFile id (fs.files id)=fs := by
  simp [RdpFs.setFile]

/-- What a call with an ID may do if it does not close the file: it changes at most the
structure, which stays that of the same opening, and calls something but releases nothing. -/
structure Uses (fs : RdpFs) (id : ℤ) (made : Step) : Prop where
  file : ∃ file, made.fs=fs.setFile id file ∧ file.opening=(fs.files id).opening
  ne_nil : made.calls≠[]
  idle : Idle made.calls

theorem uses_unchanged (fs : RdpFs) (id : ℤ) (result : ℤ) (hne : calls≠[]) (hidle : Idle calls) :
    Uses fs id ⟨fs,calls,result⟩ :=
  ⟨⟨fs.files id,by simp,rfl⟩,hne,hidle⟩

theorem uses_perform (fs : RdpFs) (hid : op.fileId=some id) (h : ¬op.Refused id)
    (hopen : ¬op.Closes) : Uses fs id (perform fs op) := by
  cases op with
  | openFile => cases hid
  | read fileId answer =>
    cases hid
    simp only [perform,guacRdpFsRead,withFile_used fs h]
    exact uses_unchanged _ _ _ (by simp) (by simp [Idle])
  | write fileId answer =>
    cases hid
    rw [perform,guacRdpFsWrite,withFile_used fs h]
    have hidle : Idle [.lseek (fs.files id).fd,.write (fs.files id).fd] := by simp [Idle]
    cases answer with
    | ok bytesWritten => exact ⟨⟨_,rfl,rfl⟩,by simp,hidle⟩
    | error err => exact uses_unchanged _ _ _ (by simp) hidle
  | rename fileId newPath answer =>
    cases hid
    obtain ⟨hrange,hnormal⟩ := not_or.mp (mt or_assoc.mp h)
    obtain ⟨normalized,hnormal⟩ := Option.ne_none_iff_exists'.mp hnormal
    rw [perform,guacRdpFsRename,withFile_used fs hrange]
    simp only [hnormal]
    exact uses_unchanged _ _ _ (by simp) (by simp [Idle])
  | delete fileId answer =>
    cases hid
    rw [perform,guacRdpFsDelete,withFile_used fs h]
    refine uses_unchanged _ _ _ (by simp) ?_
    cases (fs.files id).directory <;> simp [Idle]
  | truncate fileId answer =>
    cases hid
    rw [perform,guacRdpFsTruncate,withFile_used fs h]
    exact uses_unchanged _ _ _ (by simp) (by simp [Idle])
  | readDir fileId answers =>
    cases hid
    have hrange : ¬(id<0 ∨ id≥guacRdpFsMaxFiles) := h
    simp only [perform,guacRdpFsReadDir,guacRdpFsGetFile,hrange,if_false]
    generalize (if answers.entry=true then (1 : ℤ) else 0)=result
    split_ifs
    · exact uses_unchanged _ _ _ (by simp) (by simp [Idle])
    · exact ⟨⟨_,rfl,rfl⟩,by simp,by simp [Idle]⟩
    · exact uses_unchanged _ _ _ (by simp) (by simp [Idle])
  | close => exact absurd trivial hopen

/-! ## The pool of IDs -/

/-- Every integer below the counter of the pool is an ID that is open or was given back, and
the counter is within the array. -/
structure PoolHolds (pool : GuacPool) (openIds : List ℤ) : Prop where
  accounts : pool.Accounts openIds
  reuses : pool.minSize=0
  tally : (openIds.length : ℤ)+pool.ints.length=pool.nextValue
  within : pool.nextValue≤guacRdpFsMaxFiles

theorem poolHolds_alloc : PoolHolds (guacPoolAlloc 0) [] :=
  ⟨guacPoolAlloc_accounts 0,rfl,rfl,by decide⟩

variable {openIds : List ℤ}

theorem PoolHolds.mem {pool : GuacPool} (h : PoolHolds pool openIds)
    (hid : id∈openIds) : 0 ≤ id ∧ id<guacRdpFsMaxFiles := by
  have hcounted := h.accounts.counted id (mem_append_left _ hid)
  exact ⟨hcounted.1,lt_of_lt_of_le hcounted.2 h.within⟩

/-- As long as not all IDs are open, the next one is new or was given back. -/
theorem poolHolds_next {pool : GuacPool} (h : PoolHolds pool openIds)
    (hroom : (openIds.length : ℤ)<guacRdpFsMaxFiles) :
    PoolHolds (guacPoolNextInt pool).2 ((guacPoolNextInt pool).1::openIds) := by
  obtain ⟨haccounts,hreuses,htally,hwithin⟩ := h
  have hmax : guacRdpFsMaxFiles=128 := rfl
  have hnonneg := haccounts.nonneg
  have hcan : pool.Recycles ∨ pool.CanCount := Or.inr (show pool.nextValue<2^31-1 by omega)
  refine ⟨haccounts.next hcan,by simp [hreuses],?_,?_⟩
  all_goals
    by_cases hrecycles : pool.Recycles
    · obtain ⟨value,ints,hints,hnext⟩ := guacPoolNextInt_recycled hrecycles
      rw [hints,length_cons] at htally
      simp only [hnext,length_cons]
      push_cast at htally ⊢
      omega
    · have hnil : pool.ints=[] := by
        by_contra hne
        exact hrecycles ⟨hne,by omega⟩
      rw [hnil,length_nil] at htally
      have hwrap : wrap32 (pool.nextValue+1)=pool.nextValue+1 :=
        wrap32_of_range (by omega) (by omega)
      simp only [guacPoolNextInt_fresh hrecycles,hnil,length_cons,length_nil,hwrap]
      push_cast at htally ⊢
      omega

theorem poolHolds_free {pool : GuacPool} (h : PoolHolds pool openIds)
    (hid : id∈openIds) : PoolHolds (guacPoolFreeInt id pool) (openIds.erase id) := by
  obtain ⟨haccounts,hreuses,htally,hwithin⟩ := h
  refine ⟨haccounts.free hid,hreuses,?_,hwithin⟩
  have hlength := length_erase_add_one hid
  simp only [guacPoolFreeInt,length_append,length_singleton]
  omega

/-! ## What is released -/

theorem releases_append (released : SystemCall→Option ℕ) (opening : ℕ)
    (log calls : List SystemCall) :
    releases released opening (log++calls)=
      releases released opening log+releases released opening calls :=
  countP_append

theorem releases_none (h : ∀ call∈calls, released call=none) (opening : ℕ) :
    releases released opening calls=0 := by
  simp only [releases,countP_eq_zero,decide_eq_true_eq]
  intro call hcall
  simp [h call hcall]

variable {s : Session}

/-- Nothing is released, and the same openings are those of open files. -/
theorem releasedOnce_same (h : ReleasedOnce released s)
    (hlog : s'.log=s.log++calls) (hcalls : ∀ call∈calls, released call=none)
    (hopenings : s'.fs.openings=s.fs.openings)
    (hsame : ∀ opening, s'.HasOpen opening ↔ s.HasOpen opening) : ReleasedOnce released s' := by
  constructor <;> intro opening hopening
  · rw [hlog,releases_append,releases_none hcalls]
    exact h.opened opening (by rwa [hsame,hopenings] at hopening)
  · intro hclosed
    rw [hlog,releases_append,releases_none hcalls]
    exact h.closed opening (hopenings ▸ hopening) (mt (hsame opening).mpr hclosed)

/-- Nothing is released, and there is one more opening, whose file is open. -/
theorem releasedOnce_opened (h : ReleasedOnce released s)
    (hlog : s'.log=s.log++calls) (hcalls : ∀ call∈calls, released call=none)
    (hopenings : s'.fs.openings=s.fs.openings+1)
    (hmore : ∀ opening, s'.HasOpen opening ↔ opening=s.fs.openings ∨ s.HasOpen opening) :
    ReleasedOnce released s' := by
  constructor <;> intro opening hopening
  · rw [hlog,releases_append,releases_none hcalls]
    refine h.opened opening ?_
    rw [hmore,hopenings] at hopening
    rcases hopening with (hnew | hopen) | hlater
    · exact Or.inr hnew.ge
    · exact Or.inl hopen
    · exact Or.inr (by omega)
  · intro hclosed
    obtain ⟨hnew,hnot⟩ := not_or.mp (mt (hmore opening).mpr hclosed)
    rw [hlog,releases_append,releases_none hcalls]
    exact h.closed opening (by omega) hnot

/-- The file of an opening is closed, and what is released is released for it once. -/
theorem releasedOnce_closed {closed : ℕ} (h : ReleasedOnce released s)
    (hlog : s'.log=s.log++calls)
    (hcalls : ∀ opening, releases released opening calls=if opening=closed then 1 else 0)
    (hopenings : s'.fs.openings=s.fs.openings) (hopen : s.HasOpen closed)
    (hless : ∀ opening, s'.HasOpen opening ↔ s.HasOpen opening ∧ opening≠closed)
    (hbefore : closed<s.fs.openings) : ReleasedOnce released s' := by
  constructor <;> intro opening hopening
  · have hother : opening≠closed := by
      rcases hopening with hopening | hlater
      · exact ((hless opening).mp hopening).2
      · omega
    rw [hlog,releases_append,hcalls,if_neg hother]
    refine h.opened opening ?_
    rw [hless,hopenings] at hopening
    exact hopening.imp_left And.left
  · intro hclosed
    rw [hlog,releases_append,hcalls]
    by_cases hself : opening=closed
    · rw [if_pos hself,hself,h.opened closed (Or.inl hopen)]
    · rw [if_neg hself]
      exact h.closed opening (hopenings ▸ hopening)
        fun hstill => hclosed ((hless opening).mpr ⟨hstill,hself⟩)

/-! ## Runs -/

/-- What holds in every state of a run of proper calls. -/
structure HandleInvariant (s : Session) : Prop where
  pool : PoolHolds s.fs.fileIdPool s.openIds
  counted : s.fs.openFiles=s.openIds.length
  owned : ∀ id∈s.openIds, ∃ opening<s.fs.openings, (s.fs.files id).opening=some opening
  distinct : ∀ i∈s.openIds, ∀ j∈s.openIds, (s.fs.files i).opening=(s.fs.files j).opening → i=j
  descriptors : ReleasedOnce SystemCall.releasesDescriptor s
  paths : ReleasedOnce SystemCall.releasesPaths s

theorem handleInvariant_start (drivePath : List UInt8) (memory : ℤ→RdpFsFile) :
    HandleInvariant (start drivePath memory) where
  pool := poolHolds_alloc
  counted := rfl
  owned := by simp [start]
  distinct := by simp [start]
  descriptors := ⟨fun _ _ => rfl,fun _ h => absurd h (Nat.not_lt_zero _)⟩
  paths := ⟨fun _ _ => rfl,fun _ h => absurd h (Nat.not_lt_zero _)⟩

theorem HandleInvariant.kept (h : HandleInvariant s) : HandlesKept s where
  nodup := (nodup_append.mp h.pool.accounts.nodup).1
  counted := h.counted
  bounded := by
    have htally := h.pool.tally
    have hwithin := h.pool.within
    rw [h.counted]
    omega
  descriptors := h.descriptors
  paths := h.paths

/-- A call that is refused leaves everything as it is. -/
theorem step_refused (hs : HandleInvariant s) (hid : op.fileId=some id)
    (h : op.Refused id) (hstep : step op s=some s') : s' = s := by
  obtain ⟨hfs,hcalls⟩ := perform_refused s.fs hid h
  cases op with
  | openFile => cases hid
  | close fileId =>
    cases hid
    have hrange : id<0 ∨ id≥guacRdpFsMaxFiles := h
    have hnot : id ∉ s.openIds := by
      intro hmem
      have hbounds := hs.pool.mem hmem
      omega
    simpa [step,hfs,hcalls,erase_of_not_mem hnot] using hstep.symm
  | _ => simpa [step,hfs,hcalls] using hstep.symm

/-- A call that uses a file and does not close it keeps the IDs that are open. -/
theorem step_used (hid : op.fileId=some id) (hopen : ¬op.Closes)
    (hstep : step op s=some s') :
    s' = ⟨(perform s.fs op).fs,s.openIds,s.log++(perform s.fs op).calls⟩ := by
  cases op with
  | openFile => cases hid
  | close => exact absurd trivial hopen
  | _ => simpa [step] using hstep.symm

theorem handleInvariant_used (hs : HandleInvariant s) (hid : op.fileId=some id)
    (h : ¬op.Refused id) (hopen : ¬op.Closes) (hstep : step op s=some s') :
    HandleInvariant s' := by
  obtain ⟨⟨file,hfs,hfile⟩,-,hidle⟩ := uses_perform s.fs hid h hopen
  rw [step_used hid hopen hstep,hfs]
  have hopening : ∀ j, ((s.fs.setFile id file).files j).opening=(s.fs.files j).opening := by
    intro j
    by_cases hj : j=id
    · simp [RdpFs.setFile,hj,hfile]
    · simp [RdpFs.setFile,hj]
  have hsame : ∀ opening, Session.HasOpen ⟨s.fs.setFile id file,s.openIds,
      s.log++(perform s.fs op).calls⟩ opening ↔ s.HasOpen opening := by
    simp [Session.HasOpen,hopening]
  exact
    { pool := hs.pool
      counted := hs.counted
      owned := fun j hj => by
        rw [hopening]
        exact hs.owned j hj
      distinct := by simpa [hopening] using hs.distinct
      descriptors := releasedOnce_same hs.descriptors rfl (fun call hcall => (hidle call hcall).1)
        rfl hsame
      paths := releasedOnce_same hs.paths rfl (fun call hcall => (hidle call hcall).2) rfl hsame }

theorem handleInvariant_close (hs : HandleInvariant s) (hid : id∈s.openIds)
    (hdir : (s.fs.files id).dir=false) (hstep : step (.close id) s=some s') :
    HandleInvariant s' := by
  have hbounds := hs.pool.mem hid
  obtain ⟨closed,hbefore,hclosed⟩ := hs.owned id hid
  have hnodup := (nodup_append.mp hs.pool.accounts.nodup).1
  have hused : perform s.fs (.close id)=
      ⟨{ s.fs with
          openFiles := s.fs.openFiles-1
          fileIdPool := guacPoolFreeInt id s.fs.fileIdPool },
        [.close (s.fs.files id).fd (some closed),.freePaths (some closed)],0⟩ := by
    rw [perform,guacRdpFsClose,withFile_used s.fs (by omega)]
    simp [hdir,hclosed]
  simp only [step,hused,Option.some.injEq] at hstep
  subst hstep
  have hless : ∀ opening, (∃ j∈s.openIds.erase id, (s.fs.files j).opening=some opening) ↔
      s.HasOpen opening ∧ opening≠closed := by
    intro opening
    constructor
    · rintro ⟨j,hj,hopening⟩
      obtain ⟨hne,hmem⟩ := hnodup.mem_erase_iff.mp hj
      refine ⟨⟨j,hmem,hopening⟩,?_⟩
      rintro rfl
      exact hne (hs.distinct j hmem id hid (hopening.trans hclosed.symm))
    · rintro ⟨⟨j,hj,hopening⟩,hne⟩
      refine ⟨j,hnodup.mem_erase_iff.mpr ⟨?_,hj⟩,hopening⟩
      rintro rfl
      exact hne (Option.some.inj (hopening.symm.trans hclosed))
  have hlength := length_erase_add_one hid
  exact
    { pool := poolHolds_free hs.pool hid
      counted := by
        have hcounted := hs.counted
        dsimp only
        omega
      owned := fun j hj => hs.owned j (mem_of_mem_erase hj)
      distinct := fun i hi j hj =>
        hs.distinct i (mem_of_mem_erase hi) j (mem_of_mem_erase hj)
      descriptors := releasedOnce_closed hs.descriptors rfl
        (fun opening => by simp [releases,countP_cons,eq_comm]) rfl ⟨id,hid,hclosed⟩ hless
        hbefore
      paths := releasedOnce_closed hs.paths rfl
        (fun opening => by simp [releases,countP_cons,eq_comm]) rfl ⟨id,hid,hclosed⟩ hless
        hbefore }

theorem handleInvariant_filled (hs : HandleInvariant s)
    (hroom : s.fs.openFiles<guacRdpFsMaxFiles) (normalizedPath realPath : List UInt8) (fd : ℤ)
    (directory : Option Bool) (hidle : Idle calls) :
    let made := fillFile s.fs normalizedPath realPath fd directory calls
    HandleInvariant ⟨made.fs,made.result::s.openIds,s.log++calls⟩ := by
  intro made
  have hpool := poolHolds_next hs.pool (by rw [←hs.counted]; exact hroom)
  have hnodup := (nodup_append.mp hpool.accounts.nodup).1
  have hnew : made.result ∉ s.openIds := (nodup_cons.mp hnodup).1
  have hself : (made.fs.files made.result).opening=some s.fs.openings := by
    simp [made,fillFile]
  have hother : ∀ j∈s.openIds, made.fs.files j=s.fs.files j := by
    intro j hj
    have hne : j≠made.result := by
      rintro rfl
      exact hnew hj
    exact Function.update_of_ne hne _ _
  have hmore : ∀ opening, (∃ j∈made.result::s.openIds, (made.fs.files j).opening=some opening) ↔
        opening=s.fs.openings ∨ s.HasOpen opening := by
    intro opening
    rw [exists_mem_cons_iff,hself]
    refine or_congr (by simp [eq_comm]) (exists_congr fun j => and_congr_right fun hj => ?_)
    rw [hother j hj]
  exact
    { pool := hpool
      counted := by
        have hcounted := hs.counted
        simp only [made,fillFile,length_cons]
        push_cast
        omega
      owned := by
        intro j hj
        rcases mem_cons.mp hj with rfl | hj
        · exact ⟨s.fs.openings,Nat.lt_succ_self _,hself⟩
        · obtain ⟨opening,hbefore,hopening⟩ := hs.owned j hj
          rw [←hother j hj] at hopening
          exact ⟨opening,Nat.lt_succ_of_lt hbefore,hopening⟩
      distinct := by
        have hfresh : ∀ j∈s.openIds, (made.fs.files j).opening≠some s.fs.openings := by
          intro j hj hopening
          obtain ⟨opening,hbefore,howned⟩ := hs.owned j hj
          rw [hother j hj,howned] at hopening
          exact hbefore.ne (Option.some.inj hopening)
        intro i hi j hj hsame
        rcases mem_cons.mp hi with rfl | hi <;> rcases mem_cons.mp hj with rfl | hj
        · rfl
        · exact absurd (hsame.symm.trans hself) (hfresh j hj)
        · exact absurd (hsame.trans hself) (hfresh i hi)
        · exact hs.distinct i hi j hj (by rwa [←hother i hi,←hother j hj])
      descriptors := releasedOnce_opened hs.descriptors rfl (fun call hcall => (hidle call hcall).1)
        rfl hmore
      paths := releasedOnce_opened hs.paths rfl (fun call hcall => (hidle call hcall).2) rfl hmore }

/-- A file that is opened gets an ID that was not open. -/
theorem handleInvariant_open {path : PathString} {access createDisposition createOptions : UInt32}
    {answers : OpenAnswers} (hs : HandleInvariant s)
    (hstep : step (.openFile path access createDisposition createOptions answers) s=some s') :
    HandleInvariant s' ∧
      CallKept (.openFile path access createDisposition createOptions answers) s s' := by
  obtain ⟨hidle,hfills,hroom⟩ := fills_open s.fs path access createDisposition createOptions answers
  suffices hkept : HandleInvariant s' ∧
      (0≤(perform s.fs (.openFile path access createDisposition createOptions answers)).result →
        (perform s.fs (.openFile path access createDisposition createOptions answers)).result ∉
          s.openIds ∧
        (perform s.fs (.openFile path access createDisposition createOptions answers)).result<
          guacRdpFsMaxFiles) from
    ⟨hkept.1,fun _ => hkept.2,fun id hid => nomatch hid⟩
  simp only [step,Option.some.injEq] at hstep
  generalize perform s.fs (.openFile path access createDisposition createOptions answers)=made
    at hidle hfills hroom hstep ⊢
  subst hstep
  have hcases : (made.fs=s.fs ∧ made.result<0) ∨ s.fs.openFiles<guacRdpFsMaxFiles ∧
      ∃ normalizedPath realPath fd directory calls,
        made=fillFile s.fs normalizedPath realPath fd directory calls := by
    exact hroom.elim Or.inl fun hfits => Or.imp_right (fun hfill => ⟨hfits,hfill⟩) hfills
  rcases hcases with ⟨hfs,hneg⟩ | ⟨hfits,normalizedPath,realPath,fd,directory,calls,rfl⟩
  · rw [if_neg (Int.not_le.mpr hneg),hfs]
    refine ⟨?_,fun hresult => absurd hresult (Int.not_le.mpr hneg)⟩
    exact ⟨hs.pool,hs.counted,hs.owned,hs.distinct,
      releasedOnce_same hs.descriptors rfl (fun call hcall => (hidle call hcall).1) rfl
        fun _ => Iff.rfl,releasedOnce_same hs.paths rfl (fun call hcall => (hidle call hcall).2) rfl
        fun _ => Iff.rfl⟩
  · have hfilled := handleInvariant_filled hs hfits normalizedPath realPath fd directory
      (show Idle calls from hidle)
    have hbounds := hfilled.pool.mem (mem_cons_self ..)
    rw [if_pos hbounds.1]
    exact ⟨hfilled,fun _ => ⟨(nodup_cons.mp hfilled.kept.nodup).1,hbounds.2⟩⟩

/-- A proper call keeps what the theorem is about. -/
theorem proper_step (hs : HandleInvariant s) (hproper : Proper op s)
    (hstep : step op s=some s') : HandleInvariant s' ∧ CallKept op s s' := by
  cases hop : op.fileId with
  | none =>
    cases op with
    | openFile => exact handleInvariant_open hs hstep
    | _ => cases hop
  | some id =>
    have hreturned : op.fileId=none→0≤(perform s.fs op).result →
        (perform s.fs op).result ∉ s.openIds ∧
          (perform s.fs op).result<guacRdpFsMaxFiles := by simp [hop]
    by_cases hrefused : op.Refused id
    · cases step_refused hs hop hrefused hstep
      exact ⟨hs,hreturned,fun _ _ _ => ⟨rfl,rfl⟩⟩
    · obtain ⟨hid,hdir⟩ := (hproper id hop).resolve_left hrefused
      refine ⟨?_,hreturned,fun other hother hnot => ?_⟩
      · by_cases hcloses : op.Closes
        · cases op with
          | close fileId =>
            cases hop
            exact handleInvariant_close hs hid (hdir hcloses) hstep
          | _ => cases hcloses
        · exact handleInvariant_used hs hop hrefused hcloses hstep
      · cases hop.symm.trans hother
        exact absurd hid hnot

/-- What is called when a file is closed. -/
theorem log_close (hid : ¬(id<0 ∨ id≥guacRdpFsMaxFiles))
    (hstep : step (.close id) s=some s') :
    s'.log=s.log++((if (s.fs.files id).dir then
        [.closedir (s.fs.files id).fd (s.fs.files id).opening] else [])++
      [.close (s.fs.files id).fd (s.fs.files id).opening,.freePaths (s.fs.files id).opening]) ∧
    s'.fs.openings=s.fs.openings := by
  simp only [step,Option.some.injEq] at hstep
  subst hstep
  simp [perform,guacRdpFsClose,withFile_used s.fs hid]

/-- The descriptor of a directory that was read is released twice. -/
theorem not_released_twice (hs : HandleInvariant s) (hid : id∈s.openIds)
    (hdir : (s.fs.files id).dir=true) (hstep : step (.close id) s=some s') :
    ¬ReleasedOnce SystemCall.releasesDescriptor s' := by
  have hbounds := hs.pool.mem hid
  obtain ⟨hlog,hopenings⟩ := log_close (by omega) hstep
  obtain ⟨closed,hbefore,hclosed⟩ := hs.owned id hid
  have htwice : releases SystemCall.releasesDescriptor closed s'.log=2 := by
    rw [hlog,releases_append,hs.descriptors.opened closed (Or.inl ⟨id,hid,hclosed⟩),hdir,hclosed]
    simp [releases]
  intro honce
  by_cases hopen : s'.HasOpen closed
  · have hzero := honce.opened closed (Or.inl hopen)
    omega
  · have hone := honce.closed closed (by omega) hopen
    omega

/-- A call that is not proper calls something for a file that is not open, or releases a
descriptor twice. -/
theorem proper_of_kept (hs : HandleInvariant s) (hstep : step op s=some s')
    (hcall : CallKept op s s') (hkept : HandlesKept s') : Proper op s := by
  intro id hop
  by_cases hrefused : op.Refused id
  · exact Or.inl hrefused
  refine Or.inr ?_
  by_cases hcloses : op.Closes
  · cases op with
    | close fileId =>
      cases hop
      have hopen : id∈s.openIds := by
        by_contra hnot
        have hlog := (hcall.stray id rfl hnot).2
        rw [(log_close hrefused hstep).1] at hlog
        exact absurd (append_right_eq_self.mp hlog) (by simp)
      refine ⟨hopen,fun _ => ?_⟩
      by_contra hdir
      exact not_released_twice hs hopen (Bool.not_eq_false _ ▸ hdir) hstep hkept.descriptors
    | _ => cases hcloses
  · have huses := uses_perform s.fs hop hrefused hcloses
    refine ⟨?_,fun h => absurd h hcloses⟩
    by_contra hnot
    have hlog := (hcall.stray id hop hnot).2
    rw [step_used hop hcloses hstep] at hlog
    exact huses.ne_nil (append_right_eq_self.mp hlog)

/-- Throughout a run of calls the open files are counted, have IDs that were free, and are
released once, and calls for IDs that are not open do nothing, exactly if every call that
is not refused is for a file that is open and does not close a directory that was read. -/
theorem handles_kept_iff (drivePath : List UInt8) (memory : ℤ→RdpFsFile) (ops : List FsOperation) :
    (∀ made, made <+: ops→∀ s, run step made (start drivePath memory)=some s →
      HandlesKept s ∧ ∀ op s', made++[op] <+: ops → step op s=some s'→CallKept op s s') ↔
      Along step Proper ops (start drivePath memory) :=
  steps_iff_along (fun hs => hs.kept) (fun _ _ => rfl) proper_step proper_of_kept ops
    (handleInvariant_start drivePath memory)

/-- A file that is closed twice is counted as closed twice. -/
theorem not_handles_kept :
    ¬∀ (drivePath : List UInt8) (memory : ℤ→RdpFsFile) (ops : List FsOperation),
      ∀ made, made <+: ops→∀ s, run step made (start drivePath memory)=some s →
        HandlesKept s ∧ ∀ op s', made++[op] <+: ops → step op s=some s'→CallKept op s s' := by
  intro h
  have hclosed := h [] (fun _ => ⟨0,false,[],[],false,0,none⟩)
    [.openFile ⟨[],by simp,by simp⟩ 1 1 0 ⟨none,.ok 3,.ok 3,none⟩,.close 0,.close 0] _
    (prefix_refl _) _ rfl
  exact absurd hclosed.1.bounded.1 (by decide +kernel)

end GuacServer.RdpDrive
