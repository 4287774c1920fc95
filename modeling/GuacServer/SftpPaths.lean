import GuacServer.PathNormalization

/-!
# Paths of the SFTP file system

The root of an SFTP file system is normalised when it is created. The name of a stream is
normalised as well and appended to the root, so that no name leads out of it. Every copy
is bounded by the size of the buffer, and a result that would not fit is refused.
-/

namespace GuacServer.SftpPaths

open List PathNormalization PathResolution StringBuffers

/-- GUAC_COMMON_SSH_SFTP_MAX_PATH. -/
def guacCommonSshSftpMaxPath : ℕ := 2048

/-- GUAC_COMMON_SSH_SFTP_MAX_DEPTH. -/
def guacCommonSshSftpMaxDepth : ℕ := 1024

/-- The rules of guac_common_ssh_sftp_normalize_path. -/
def sftpRules : PathRules where
  maxPath := guacCommonSshSftpMaxPath
  maxDepth := guacCommonSshSftpMaxDepth
  separator := 0x2F
  refused := fun _ => false
  separates := rfl
  roomy := by decide
  deep := by decide

/-- guac_common_ssh_sftp_normalize_path. -/
def guacCommonSshSftpNormalizePath (path : List UInt8) : Option StringBuffer :=
  normalizePath sftpRules path

/-- guac_common_ssh_sftp_filesystem, as far as paths are concerned. -/
structure SftpFilesystem where
  /-- The path that all names are relative to. -/
  rootPath : List UInt8
  deriving DecidableEq

/-- guac_common_ssh_create_sftp_filesystem, for a session that may have SFTP. -/
def guacCommonSshCreateSftpFilesystem (sftpSession : Bool) (rootPath : List UInt8) :
    Option SftpFilesystem :=
  if sftpSession then
    match guacCommonSshSftpNormalizePath rootPath with
    | none => none
    | some normalized => some ⟨normalized.contents⟩
  else none

/-- guac_ssh_append_path, the buffer it leaves and whether it has succeeded. -/
def guacSshAppendPath (fullpath : StringBuffer) (pathA pathB : List UInt8) : StringBuffer×Bool :=
  let first := guacStrlcpy 0 pathA guacCommonSshSftpMaxPath fullpath
  if first.2≥guacCommonSshSftpMaxPath then (first.1,false)
  else
    let slashed :=
      if first.2=0 ∨ first.1.contents[first.2-1]? ≠ some 0x2F then
        guacStrlcpy first.2 [0x2F] (guacCommonSshSftpMaxPath-first.2) first.1
      else (first.1,0)
    let length := first.2+slashed.2
    -- The leading slashes of the second path are skipped.
    let appended := guacStrlcpy length (pathB.dropWhile (· = 0x2F))
      (guacCommonSshSftpMaxPath-length) slashed.1
    (appended.1,decide (length+appended.2<guacCommonSshSftpMaxPath))

/-- guac_common_ssh_sftp_translate_name. -/
def guacCommonSshSftpTranslateName (fullpath : StringBuffer) (filesystem : SftpFilesystem)
    (name : List UInt8) : StringBuffer×Bool :=
  match guacCommonSshSftpNormalizePath name with
  | none => (fullpath,false)
  | some normalized => guacSshAppendPath fullpath filesystem.rootPath normalized.contents

/-- The slash between a root and what is appended to it. -/
def trailingSlash (path : List UInt8) : List UInt8 :=
  if path.getLast? = some 0x2F then [] else [0x2F]

/-- The first path is copied and ended with a slash. -/
theorem holds_slashed {fullpath : StringBuffer} {pathA : List UInt8} (h : pathA.length<2048)
    (hcopied : Holds [] pathA 2048 fullpath) :
    let slashed :=
      if pathA.length=0 ∨ fullpath.contents[pathA.length-1]? ≠ some 0x2F then
        guacStrlcpy pathA.length [0x2F] (2048-pathA.length) fullpath
      else (fullpath,0)
    Holds [] (pathA++trailingSlash pathA) 2048 slashed.1 ∧
      slashed.2=(trailingSlash pathA).length := by
  have hlast : (pathA.length=0 ∨ fullpath.contents[pathA.length-1]? ≠ some 0x2F) ↔
      pathA.getLast? ≠ some 0x2F := by
    rw [hcopied.whole h,nil_append,←List.getLast?_eq_getElem?]
    refine or_iff_right_of_imp fun hnil => ?_
    rw [length_eq_zero_iff.mp hnil]
    simp
  simp only [hlast,trailingSlash]
  by_cases hslash : pathA.getLast? = some 0x2F
  · simp only [hslash,ne_eq,not_true_eq_false,if_true,if_false,append_nil]
    exact ⟨hcopied,rfl⟩
  · simp only [hslash,ne_eq,not_false_eq_true,if_true,if_false]
    have hslashed := holds_guacStrlcpy (by omega) hcopied [0x2F]
    rw [length_nil,Nat.zero_add] at hslashed
    exact ⟨hslashed,guacStrlcpy_length ..⟩

/-- The paths are appended with a slash between them, as far as there is room. -/
theorem holds_guacSshAppendPath {fullpath : StringBuffer} (hfullpath : fullpath.written≤2048)
    (pathA pathB : List UInt8) :
    Holds [] (pathA++trailingSlash pathA++pathB.dropWhile (· = 0x2F)) 2048
        (guacSshAppendPath fullpath pathA pathB).1 ∧
      ((guacSshAppendPath fullpath pathA pathB).2=true ↔
        (pathA++trailingSlash pathA++pathB.dropWhile (· = 0x2F)).length<2048) := by
  have hcopied := holds_guacStrlcpy_zero (by omega : 0<2048) hfullpath pathA
  simp only [guacSshAppendPath,guacStrlcpy_length,guacCommonSshSftpMaxPath]
  by_cases hlong : 2048≤pathA.length
  · have htake : ∀ rest : List UInt8, (pathA++rest).take 2047=pathA.take 2047 := fun rest =>
      take_append_of_le_length (by omega)
    simp only [ge_iff_le,hlong,if_true]
    constructor
    · refine ⟨?_,hcopied.written⟩
      rw [hcopied.contents,append_assoc,htake]
    · simp only [Bool.false_eq_true,length_append,false_iff]
      omega
  · obtain ⟨hslashed,hslash⟩ := holds_slashed (Nat.not_le.mp hlong) hcopied
    have happended := holds_guacStrlcpy (by omega) hslashed (pathB.dropWhile (· = 0x2F))
    rw [length_nil,Nat.zero_add] at happended
    simp only [ge_iff_le,hlong,if_false,hslash,←length_append]
    exact ⟨happended,by simp⟩

/-! ## Names within the root -/

/-- The root of a file system is a normalised path. -/
theorem rootPath_of_create {sftpSession : Bool} {rootPath : List UInt8}
    {filesystem : SftpFilesystem}
    (h : guacCommonSshCreateSftpFilesystem sftpSession rootPath=some filesystem) :
    filesystem.rootPath=0x2F::join 0x2F (components rootPath) := by
  unfold guacCommonSshCreateSftpFilesystem at h
  split_ifs at h
  cases hnormal : guacCommonSshSftpNormalizePath rootPath with
  | none => simp [hnormal] at h
  | some normalized =>
    simp only [hnormal,Option.some.injEq] at h
    rw [←h]
    exact (normalizePath_some hnormal).1

/-- Only the root directory ends with a slash. -/
theorem trailingSlash_root {root : List (List UInt8)} (h : ∀ c∈root, Names 0x2E isSeparator c) :
    trailingSlash (0x2F::join 0x2F root)=if root=[] then [] else [0x2F] := by
  by_cases hroot : root=[]
  · simp [hroot,trailingSlash]
  · have hne := join_ne_nil 0x2F hroot fun c hc => (h c hc).ne_nil
    have hlast : (join 0x2F root).getLast? ≠ some 0x2F := by
      rw [getLast?_join 0x2F fun c hc => (h c hc).ne_nil]
      intro hslash
      obtain ⟨c,hc,hb⟩ := Option.bind_eq_some_iff.mp hslash
      have hwhole := (h c (mem_of_getLast? hc)).whole _ (mem_of_getLast? hb)
      exact absurd hwhole (by decide)
    simp [trailingSlash,List.getLast?_cons_of_ne_nil hne,hlast,hroot]

/-- Of joined components that name entries no leading slash is skipped but the first. -/
theorem dropWhile_join {names : List (List UInt8)} (h : ∀ c∈names, Names 0x2E isSeparator c) :
    (0x2F::join 0x2F names).dropWhile (· = 0x2F)=join 0x2F names := by
  have hhead := head?_join 0x2F fun c hc => (h c hc).ne_nil
  cases hjoin : join 0x2F names with
  | nil => rfl
  | cons b rest =>
    rw [hjoin,List.head?_cons] at hhead
    obtain ⟨c,hc,hb⟩ := Option.bind_eq_some_iff.mp hhead.symm
    have hwhole := (h c (mem_of_head? hc)).whole _ (mem_of_head? hb)
    have hslash : b≠0x2F := by
      rintro rfl
      exact absurd hwhole (by decide)
    simp [hslash]

/-- The slash between the path of a root and what is within it, which the path of the root
directory ends with already. -/
def rootSlash (root : List (List UInt8)) : List UInt8 := if root=[] then [] else [0x2F]

/-- Within a root there are only components that name entries. -/
theorem splitOnP_within (root : List (List UInt8)) {names : List (List UInt8)}
    (h : ∀ c∈names, Names 0x2E isSeparator c) :
    ∀ c∈(rootSlash root++join 0x2F names).splitOnP isSeparator, c≠[0x2E,0x2E] := by
  have hnames := not_parent_join (a := 0x2F) rfl h
  unfold rootSlash
  split_ifs
  · exact hnames
  · exact not_parent_cons rfl hnames

/-- A name is translated to the path of the root, a slash and the components of the name
that are left, none of which is cut off or leads out of the root, or it is refused; the
buffers of both and of what they are normalised to are not left in either case. -/
theorem translateName_contained (sftpSession : Bool) (root name : PathString)
    (filesystem : SftpFilesystem)
    (hcreate : guacCommonSshCreateSftpFilesystem sftpSession root.bytes=some filesystem) :
    let translated := guacCommonSshSftpTranslateName ⟨[],0⟩ filesystem name.bytes
    let within := rootSlash (components root.bytes)++join 0x2F (components name.bytes)
    filesystem.rootPath=0x2F::join 0x2F (components root.bytes) ∧
      (∀ path∈[root.bytes,name.bytes], ∀ normalized∈guacCommonSshSftpNormalizePath path,
        normalized.written≤guacCommonSshSftpMaxPath) ∧
      translated.1.written≤guacCommonSshSftpMaxPath ∧
      (translated.2=true → translated.1.contents=filesystem.rootPath++within ∧
        translated.1.contents.length<guacCommonSshSftpMaxPath ∧
        ∀ c∈within.splitOnP isSeparator, c≠[0x2E,0x2E]) := by
  have hroot := rootPath_of_create hcreate
  have hwithin := splitOnP_within (components root.bytes) (names_components name.bytes)
  refine ⟨hroot,fun path _ normalized hnormal => (normalizePath_some hnormal).2.1,?_⟩
  cases hnormal : guacCommonSshSftpNormalizePath name.bytes with
  | none => simp [guacCommonSshSftpTranslateName,hnormal]
  | some normalized =>
    have hempty : (⟨[],0⟩ : StringBuffer).written≤2048 := Nat.zero_le _
    have happend := holds_guacSshAppendPath hempty filesystem.rootPath normalized.contents
    have hcontents : normalized.contents=0x2F::join 0x2F (components name.bytes) :=
      (normalizePath_some hnormal).1
    have hslash : trailingSlash filesystem.rootPath=rootSlash (components root.bytes) := by
      rw [hroot]
      exact trailingSlash_root (names_components root.bytes)
    rw [hcontents,dropWhile_join (names_components name.bytes),hslash,append_assoc] at happend
    simp only [guacCommonSshSftpTranslateName,hnormal,hcontents]
    refine ⟨by simpa [guacCommonSshSftpMaxPath] using happend.1.written,fun hfits => ?_⟩
    have hlength := happend.2.mp hfits
    have hwhole := happend.1.whole hlength
    rw [nil_append] at hwhole
    exact ⟨hwhole,by rw [hwhole]; exact hlength,hwithin⟩

/-- The name /a/..\\b within the root /r. -/
theorem translateName_contained_below :
    let name : PathString := ⟨[0x2F,0x61,0x2F,0x2E,0x2E,0x5C,0x62],by simp,by decide⟩
    let translated := guacCommonSshSftpTranslateName ⟨[],0⟩ ⟨[0x2F,0x72]⟩ name.bytes
    translated.2=true ∧ translated.1.contents=[0x2F,0x72,0x2F,0x62] ∧
      translated.1.written≤guacCommonSshSftpMaxPath := by
  have hbelow := translateName_contained true ⟨[0x2F,0x72],by simp,by decide⟩
    ⟨[0x2F,0x61,0x2F,0x2E,0x2E,0x5C,0x62],by simp,by decide⟩ ⟨[0x2F,0x72]⟩
    (by decide +kernel)
  exact ⟨by decide +kernel,by decide +kernel,hbelow.2.2.1⟩

/-- In the root directory no slash comes between the path of the root and a name: the name
/a is translated to itself. -/
theorem not_always_slash :
    ¬∀ (sftpSession : Bool) (root name : PathString) (filesystem : SftpFilesystem),
      guacCommonSshCreateSftpFilesystem sftpSession root.bytes=some filesystem →
      (guacCommonSshSftpTranslateName ⟨[],0⟩ filesystem name.bytes).2=true →
      (guacCommonSshSftpTranslateName ⟨[],0⟩ filesystem name.bytes).1.contents=
        filesystem.rootPath++0x2F::join 0x2F (components name.bytes) := by
  intro h
  have hslash := h true ⟨[0x2F],by simp,by decide⟩ ⟨[0x2F,0x61],by simp,by decide⟩
    ⟨[0x2F]⟩ (by decide +kernel) (by decide +kernel)
  exact absurd hslash (by decide +kernel)

end GuacServer.SftpPaths
