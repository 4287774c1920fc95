import GuacServer.RdpDrive
import GuacServer.SftpPaths

/-!
# Paths that are put together

A relative path is appended to its parent, and the name of a file to the path of its directory.
Where this is done by copies behind each other, the offset is an int to which the whole length of
each string is added, and what remains of the buffer is passed as a size_t.
-/

namespace GuacServer.AppendedPaths

open DecimalNumerals List PathNormalization PathResolution RdpDrive SftpPaths StringBuffers

/-- An int as a size_t, which addresses what is before a buffer as well. -/
def toSizeT (x : ℤ) : ℕ := (x%2^64).toNat

/-- length += guac_strlcpy(dest + length, src, size - length). -/
def copyAt (size : ℕ) (copied : StringBuffer×ℤ) (src : List UInt8) : StringBuffer×ℤ :=
  let next := guacStrlcpy (toSizeT copied.2) src (toSizeT (size-copied.2)) copied.1
  (next.1,wrap32 (copied.2+next.2))

/-- A buffer to which nothing was copied. -/
def start : StringBuffer×ℤ := (⟨[],0⟩,0)

/-- guac_rdp_fs_convert_path: what is stored if zero is returned, and combined_path. -/
def guacRdpFsConvertPath (parent relPath : List UInt8) : Option StringBuffer×StringBuffer :=
  let slashed := copyAt guacRdpFsMaxPath (copyAt guacRdpFsMaxPath start parent) [0x5C]
  let combined := copyAt guacRdpFsMaxPath slashed relPath
  (guacRdpFsNormalizePath combined.1.contents,combined.1)

/-- Byte i of a string, or its terminator, or nothing behind that. -/
def readAt (str : List UInt8) (i : ℕ) : Option (Option UInt8) := (str.map some++[none])[i]?

/-- The first loop of guac_rdp_fs_append_filename, which has room for n more bytes. -/
def copyPath (path : List UInt8) : ℕ→List UInt8→Option (List UInt8)
  | 0, fullpath => some fullpath
  | n+1, fullpath => do
    match ← readAt path fullpath.length with
    | none =>
      if fullpath.length > 0 ∧ (path[fullpath.length-1]?).all (!isSeparator ·) then
        return fullpath++[0x2F]
      else return fullpath
    | some c => copyPath path n (fullpath++[c])

/-- The second loop, from byte i of the file name on. -/
def copyFilename (filename : List UInt8) : ℕ→ℕ→List UInt8→Option (Bool×StringBuffer)
  | 0, _, fullpath => some (false,⟨fullpath,fullpath.length⟩)
  | n+1, i, fullpath => do
    match ← readAt filename i with
    | none => return (true,⟨fullpath,fullpath.length+1⟩)
    | some c =>
      if isSeparator c then return (false,⟨fullpath,fullpath.length⟩)
      else copyFilename filename n (i+1) (fullpath++[c])

/-- guac_rdp_fs_append_filename, unless it reads behind a terminator. -/
def guacRdpFsAppendFilename (path filename : List UInt8) : Option (Bool×StringBuffer) :=
  if filename=[0x2E] then some (false,⟨[],0⟩)
  else if filename=[0x2E,0x2E] then some (false,⟨[],0⟩)
  else do
    let fullpath ← copyPath path guacRdpFsMaxPath []
    copyFilename filename (guacRdpFsMaxPath-fullpath.length) 0 fullpath

/-- A byte of a buffer, in which those behind the terminator are stale. -/
def byteAt (stale : ℕ→UInt8) (fullpath : StringBuffer) (i : ℕ) : UInt8 :=
  (fullpath.contents++[0])[i]?.getD (stale i)

/-- The path that guac_ssh_append_filename copies, and a slash if length > 0 and
fullpath[length - 1] is another byte. -/
def copySlashed (stale : ℕ→UInt8) (size : ℕ) (path : List UInt8) : StringBuffer×ℤ :=
  let copied := copyAt size start path
  if copied.2 > 0 ∧ byteAt stale copied.1 (toSizeT (copied.2-1))≠0x2F then
    copyAt size copied [0x2F]
  else copied

/-- guac_ssh_append_filename. -/
def guacSshAppendFilename (stale : ℕ→UInt8) (path filename : List UInt8) : Bool×StringBuffer :=
  if filename=[0x2E] then (false,⟨[],0⟩)
  else if filename=[0x2E,0x2E] then (false,⟨[],0⟩)
  else if 0x2F∈filename then (false,⟨[],0⟩)
  else
    let appended := copyAt guacCommonSshSftpMaxPath
      (copySlashed stale guacCommonSshSftpMaxPath path) filename
    (decide (appended.2<guacCommonSshSftpMaxPath),appended.1)

/-! ## Copies behind each other -/

theorem copyAt_snd (size : ℕ) (copied : StringBuffer×ℤ) (src : List UInt8) :
    (copyAt size copied src).2=wrap32 (copied.2+src.length) := by
  unfold copyAt
  simp only [guacStrlcpy_length]

section

variable {size : ℕ} {copied : StringBuffer×ℤ} {text front path : List UInt8} (hpos : 0<size)
  (hsmall : size<2^31)

include hpos hsmall

/-- A copy over the end of a text, as far as there is room for it. -/
theorem holds_copyAt (h : Holds [] text size copied.1) (hfront : front <+: text)
    (hlength : copied.2=front.length) (hroom : front.length ≤ size) (src : List UInt8) :
    Holds [] (front++src) size (copyAt size copied src).1 := by
  have hoffset : toSizeT copied.2=front.length := by
    unfold toSizeT
    omega
  have hremaining : toSizeT (size-copied.2)=size-front.length := by
    unfold toSizeT
    omega
  obtain ⟨rest,rfl⟩ := hfront
  have hwritten := h.written
  have hcontents := h.contents
  unfold copyAt
  dsimp only
  rw [hoffset,hremaining]
  unfold guacStrlcpy
  by_cases hfull : size-front.length=0
  · rw [if_pos hfull]
    refine ⟨?_,hwritten⟩
    rw [hcontents,take_append_of_le_length (by omega),take_append_of_le_length (by omega)]
  · have htake (rest : List UInt8) :
        (front++rest).take (size-1)=front++rest.take (size-front.length-1) := by
      rw [take_append,take_of_length_le (by omega),Nat.sub_right_comm]
    rw [nil_append,htake] at hcontents
    simp only [hfull,if_false,take_copyLength,hcontents,length_append,Nat.le_add_right,
      if_true,take_left]
    constructor
    · rw [nil_append,htake]
    · simp only [length_nil,Nat.zero_add,max_le_iff] at hwritten ⊢
      split_ifs <;> omega

/-- A copy at an offset before or behind the buffer is written there, and what was written stays
written. -/
theorem lt_written_copyAt {x : ℤ} (hlength : copied.2=wrap32 x)
    (h : size<copied.1.written ∨ copied.2<0 ∨ size<copied.2) (src : List UInt8) :
    size<(copyAt size copied src).1.written := by
  have hlow := neg_le_wrap32 x
  have hhigh := wrap32_lt x
  unfold copyAt guacStrlcpy
  dsimp only
  rcases h with hwritten | hout
  · split_ifs
    · exact hwritten
    · exact lt_max_of_lt_left hwritten
    · exact lt_max_of_lt_left hwritten
    · exact lt_max_of_lt_left hwritten
    · exact lt_max_of_lt_left hwritten
  · have hoffset : size≤toSizeT copied.2 ∧ toSizeT (size-copied.2)≠0 := by
      unfold toSizeT
      omega
    rw [if_neg hoffset.2]
    exact lt_max_of_lt_right (by omega)

/-- The first copy is at the start of the buffer. -/
theorem holds_first (path : List UInt8) : Holds [] path size (copyAt size start path).1 :=
  holds_copyAt hpos hsmall (⟨by simp [start],by simp [start]⟩ : Holds [] [] size start.1)
    nil_prefix rfl (Nat.zero_le _) path

omit hpos hsmall in
theorem first_snd (size : ℕ) (path : List UInt8) :
    (copyAt size start path).2=wrap32 path.length := by
  rw [copyAt_snd,start,zero_add]

/-- The next copy is within the buffer if the length of the path is, as an int. -/
theorem first_snd_eq (h : path.length%2^32<size) :
    (copyAt size start path).2=(path.take (path.length%2^32)).length := by
  obtain ⟨q,hwrap⟩ := wrap32_eq_add path.length
  have hlow := neg_le_wrap32 path.length
  have hhigh := wrap32_lt path.length
  rw [first_snd,length_take]
  omega

/-- A separator is put behind the path. -/
theorem holds_second (h : path.length%2^32<size) (b : UInt8) :
    Holds [] (path.take (path.length%2^32)++[b]) size (copyAt size (copyAt size start path) [b]).1 ∧
      (copyAt size (copyAt size start path) [b]).2=(path.take (path.length%2^32)++[b]).length := by
  have hlength := first_snd_eq hpos hsmall h
  have hle : (path.take (path.length%2^32)).length≤path.length%2^32 := length_take_le ..
  refine ⟨holds_copyAt hpos hsmall (holds_first hpos hsmall path) ( take_prefix ..) hlength
    (by omega) [b],?_⟩
  rw [copyAt_snd,hlength,length_append,Nat.cast_add]
  exact wrap32_of_range (by omega) (by rw [length_singleton]; omega)

/-- Otherwise a name goes outside behind the path, unless that fills the buffer, and behind a
separator. -/
theorem lt_written_outside (h : ¬path.length%2^32<size) (src : List UInt8) :
    ((copyAt size start path).2≠size → size<(copyAt size (copyAt size start path) src).1.written) ∧
    ∀ b, size<(copyAt size (copyAt size (copyAt size start path) [b]) src).1.written := by
  have hfirst := first_snd size path
  have hlow := neg_le_wrap32 path.length
  have hhigh := wrap32_lt path.length
  obtain ⟨q,hwrap⟩ := wrap32_eq_add path.length
  refine ⟨fun hne => lt_written_copyAt hpos hsmall hfirst (.inr (by omega)) src,fun b => ?_⟩
  have hsecond := copyAt_snd size (copyAt size start path) [b]
  rw [length_singleton,Nat.cast_one] at hsecond
  obtain ⟨q',hwrap'⟩ := wrap32_eq_add ((copyAt size start path).2+1)
  have hlow' := neg_le_wrap32 ((copyAt size start path).2+1)
  have hhigh' := wrap32_lt ((copyAt size start path).2+1)
  refine lt_written_copyAt hpos hsmall hsecond ?_ src
  by_cases hbefore : (copyAt size start path).2<0
  · exact .inl (lt_written_copyAt hpos hsmall hfirst (.inr (.inl hbefore)) [b])
  · exact .inr (by omega)

end

/-! ## Relative paths -/

/-- guac_rdp_fs_convert_path writes only to its buffer, and refuses or normalises the whole path. -/
def Converts (parent relPath : List UInt8) : Prop :=
  (guacRdpFsConvertPath parent relPath).2.written≤guacRdpFsMaxPath ∧
    ((guacRdpFsConvertPath parent relPath).1=none ∨ (guacRdpFsConvertPath parent relPath).1=
        guacRdpFsNormalizePath (parent++0x5C::relPath))

/-- What there is room for of a relative path and its parent, whose length is an int. -/
def combinedPath (parent relPath : List UInt8) : List UInt8 :=
  (parent.take (parent.length%2^32)++0x5C::relPath).take (guacRdpFsMaxPath-1)

/-- A path is relative, names a stream or is too deep. -/
def Unsupported (path : List UInt8) : Prop :=
  (∀ first∈path.head?, isSeparator first=false) ∨ 0x3A∈path.drop 1 ∨
    ∃ parts, parts <+: (path.drop 1).splitOnP isSeparator ∧
      guacRdpMaxPathDepth<(resolve 0x2E parts).length

/-- What is normalised is the last of three copies. -/
theorem convertPath_eq (parent relPath : List UInt8) :
    ∃ combined, combined=copyAt guacRdpFsMaxPath (copyAt guacRdpFsMaxPath
        (copyAt guacRdpFsMaxPath start parent) [0x5C]) relPath ∧
      guacRdpFsConvertPath parent relPath=(guacRdpFsNormalizePath combined.1.contents,combined.1) :=
  ⟨_,rfl,rfl⟩

/-- All copies are within the buffer if the first leaves room. -/
theorem converts_of_room {parent : List UInt8} (h : parent.length%2^32<guacRdpFsMaxPath)
    (relPath : List UInt8) :
    Converts parent relPath ↔ guacRdpFsNormalizePath (combinedPath parent relPath)=none ∨
      guacRdpFsNormalizePath (combinedPath parent relPath)=
        guacRdpFsNormalizePath (parent++0x5C::relPath) := by
  obtain ⟨combined,hcopies,hconvert⟩ := convertPath_eq parent relPath
  obtain ⟨hslashed,hlength⟩ := holds_second (by decide) (by decide) h 0x5C
  have hcombined := holds_copyAt (by decide) (by decide) hslashed prefix_rfl hlength
    (by simp; omega) relPath
  rw [append_assoc,singleton_append,←hcopies] at hcombined
  have hwritten := hcombined.written
  rw [length_nil,Nat.zero_add] at hwritten
  rw [Converts,hconvert,and_iff_right hwritten,hcombined.contents,nil_append,combinedPath]

/-- A path that does not fit is refused, and what is left of it for a reason of its own. -/
theorem normalizePath_eq_none {path : List UInt8} :
    (guacRdpFsMaxPath≤path.length → guacRdpFsNormalizePath path=none) ∧
      (path.length<guacRdpFsMaxPath → (guacRdpFsNormalizePath path=none ↔ Unsupported path)) := by
  constructor
  · intro h
    cases path with
    | nil => rfl
    | cons first rest =>
      rw [length_cons] at h
      rw [guacRdpFsNormalizePath,normalizePath_cons,if_neg]
      rintro ⟨-,hfits⟩
      have hmax : rdpRules.maxPath=guacRdpFsMaxPath := rfl
      omega
  · intro h
    have hstream : (∃ b∈path.drop 1, isSeparator b=false ∧ rdpRules.refused b=true) ↔
        0x3A∈path.drop 1 := by
      constructor
      · rintro ⟨b,hb,-,hbad⟩
        rwa [←of_decide_eq_true hbad]
      · exact fun h => ⟨0x3A,h,by decide⟩
    rw [guacRdpFsNormalizePath,normalizePath_eq_none_iff h,hstream]
    rfl

/-- What is left of two paths fits into the buffer. -/
theorem length_combinedPath (parent relPath : List UInt8) :
    (combinedPath parent relPath).length<guacRdpFsMaxPath :=
  (length_take_le ..).trans_lt (by decide)

/-- A relative path is put together with its parent safely exactly if all copies are within the
buffer, and the whole path fits or what is left of it is refused. -/
theorem convertPath_iff (parent relPath : List UInt8) :
    Converts parent relPath ↔ parent.length%2^32<guacRdpFsMaxPath ∧
      (parent.length+1+relPath.length<guacRdpFsMaxPath ∨
        Unsupported (combinedPath parent relPath)) := by
  by_cases h : parent.length%2^32<guacRdpFsMaxPath
  case neg =>
    obtain ⟨combined,hcopies,hconvert⟩ := convertPath_eq parent relPath
    have hout := (lt_written_outside (by decide) (by decide) h relPath).2 0x5C
    rw [←hcopies] at hout
    rw [Converts,hconvert]
    exact iff_of_false (fun hconverts => hout.not_ge hconverts.1) fun hsafe => h hsafe.1
  rw [and_iff_right h,converts_of_room h,
    ←normalizePath_eq_none.2 (length_combinedPath parent relPath)]
  have hwhole : (parent++0x5C::relPath).length=parent.length+1+relPath.length := by
    rw [length_append,length_cons]
    omega
  by_cases hfits : parent.length+1+relPath.length<guacRdpFsMaxPath
  · have hsmall : guacRdpFsMaxPath<2^31 := by decide
    refine iff_of_true (.inr ?_) (.inl hfits)
    rw [combinedPath,Nat.mod_eq_of_lt (by omega),take_length,take_of_length_le (by omega)]
  · rw [normalizePath_eq_none.1 (by omega : guacRdpFsMaxPath≤(parent++0x5C::relPath).length),
      or_self,or_iff_right hfits]

/-- The last two bytes do not fit behind a parent of 4095 bytes, which is what is normalised. -/
theorem not_converts : ¬∀ parent relPath, Converts parent relPath := by
  intro h
  obtain ⟨name,hname,hlength⟩ : ∃ name : List UInt8,
      (∀ c∈name, isSeparator c=false ∧ c≠0x3A) ∧ name.length=4094 := by
    refine ⟨List.replicate 4094 0x61,fun c hc => ?_,length_replicate⟩
    rw [eq_of_mem_replicate hc]
    decide
  have hparent : (0x2F::name).length=4095 := congrArg (· + 1) hlength
  have hshort : (0x2F::name).length<guacRdpFsMaxPath := by
    rw [hparent]
    decide
  have hcombined : combinedPath (0x2F::name) [0x62]=0x2F::name := by
    have hmax : guacRdpFsMaxPath-1=(0x2F::name).length := by
      rw [hparent]
      decide
    rw [combinedPath,Nat.mod_eq_of_lt (by omega),take_length,hmax,take_left]
  have hrefused := (converts_of_room ((Nat.mod_le ..).trans_lt hshort) [0x62]).mp (h _ _)
  have hlong : guacRdpFsNormalizePath (0x2F::name++[0x5C,0x62])=none := by
    refine normalizePath_eq_none.1 ?_
    rw [length_append,hparent]
    decide
  rw [hcombined,hlong,or_self] at hrefused
  obtain ⟨c,hc,hstream⟩ := (normalizePath_component_eq_none_iff (by decide)
    (fun c hc => (hname c hc).1) hshort).mp hrefused
  exact (hname c hc).2 (of_decide_eq_true hstream)

/-! ## Names of files -/

/-- A path, a slash unless it is empty or ends with a separator, and a name. -/
def appendedPath (separates : UInt8→Bool) (path filename : List UInt8) : List UInt8 :=
  path++(if path.getLast?.all separates then [] else [0x2F])++filename

/-- The name is that of an entry of a directory. -/
def Named (separates : UInt8→Bool) (filename : List UInt8) : Prop :=
  filename≠[0x2E] ∧ filename≠[0x2E,0x2E] ∧ ∀ c∈filename, separates c=false

/-- Nothing is written behind the buffer, and what is accepted is a name that fits behind the path,
where it is then. -/
structure Appends (separates : UInt8→Bool) (maxPath : ℕ) (path filename : List UInt8)
    (result : Bool×StringBuffer) : Prop where
  within : result.2.written ≤ maxPath
  accepts : result.1=true ↔
    Named separates filename ∧ (appendedPath separates path filename).length+1 ≤ maxPath
  whole : result.1=true → result.2.contents=appendedPath separates path filename

/-- What it means that a name is appended, of the answer and the buffer. -/
theorem appends_mk {separates : UInt8→Bool} {maxPath : ℕ} {path filename : List UInt8}
    {accepted : Bool} {fullpath : StringBuffer} :
    Appends separates maxPath path filename (accepted,fullpath) ↔ fullpath.written ≤ maxPath ∧
      (accepted=true ↔
        Named separates filename ∧ (appendedPath separates path filename).length+1 ≤ maxPath) ∧
      (accepted=true → fullpath.contents=appendedPath separates path filename) :=
  ⟨fun h => ⟨h.within,h.accepts,h.whole⟩,fun h => ⟨h.1,h.2.1,h.2.2⟩⟩

theorem readAt_cons (front rest : List UInt8) (c : UInt8) :
    readAt (front++c::rest) front.length=some (some c) := by
  unfold readAt
  simp

/-- The string ends where its terminator is. -/
theorem readAt_terminator (str : List UInt8) : readAt str str.length=some none := by
  unfold readAt
  simp

/-- The path is copied up to its terminator, unless there is no room for it. -/
theorem copyPath_eq (n : ℕ) (front rest : List UInt8) :
    copyPath (front++rest) n front=some (if rest.length<n then
      appendedPath isSeparator (front++rest) [] else front++rest.take n) := by
  induction n generalizing front rest with
  | zero => simp [copyPath]
  | succ n ih =>
    unfold copyPath
    cases rest with
    | nil =>
      rw [append_nil,readAt_terminator,←List.getLast?_eq_getElem?]
      rcases eq_nil_or_concat front with rfl | ⟨before,b,rfl⟩
      · rfl
      · by_cases hb : isSeparator b=true <;> simp [appendedPath,hb]
    | cons c rest =>
      rw [readAt_cons]
      have hrest := ih (front++[c]) rest
      simp only [append_assoc,singleton_append] at hrest
      simp [hrest]

/-- A name is copied up to its terminator, unless it contains a separator or there is no room. -/
theorem copyFilename_spec (n : ℕ) (front rest fullpath : List UInt8) :
    ∃ result, copyFilename (front++rest) n front.length fullpath=some result ∧
      result.2.written≤fullpath.length+n ∧
      (result.1=true ↔ (∀ c∈rest, isSeparator c=false) ∧ rest.length<n) ∧
      (result.1=true → result.2.contents=fullpath++rest) := by
  induction n generalizing front rest fullpath with
  | zero => exact ⟨_,rfl,by simp,by simp,by simp⟩
  | succ n ih =>
    unfold copyFilename
    cases rest with
    | nil =>
      rw [append_nil,readAt_terminator]
      exact ⟨_,rfl,by simp,by simp,by simp⟩
    | cons c rest =>
      rw [readAt_cons]
      by_cases hc : isSeparator c=true
      · exact ⟨(false,⟨fullpath,fullpath.length⟩),by simp [hc],by simp,by simp [hc],by simp⟩
      · obtain ⟨result,hcopied,hwritten,haccepted,hwhole⟩ := ih (front++[c]) rest (fullpath++[c])
        simp only [append_assoc,singleton_append,length_append,
          length_singleton] at hcopied hwritten hwhole
        refine ⟨result,by simpa [hc] using hcopied,by omega,?_,hwhole⟩
        rw [haccepted]
        simp [hc]

/-- The names that guac_rdp_fs_append_filename accepts. -/
theorem appends_rdp (path filename : List UInt8) :
    ∃ result, guacRdpFsAppendFilename path filename=some result ∧
      Appends isSeparator guacRdpFsMaxPath path filename result := by
  unfold guacRdpFsAppendFilename
  by_cases hself : filename=[0x2E]
  · exact ⟨(false,⟨[],0⟩),by simp [hself],by simp,by simp [Named,hself],by simp⟩
  by_cases hparent : filename=[0x2E,0x2E]
  · exact ⟨(false,⟨[],0⟩),by simp [hparent],by simp,by simp [Named,hparent],by simp⟩
  have hnamed : Named isSeparator filename ↔ ∀ c∈filename, isSeparator c=false := by
    simp [Named,hself,hparent]
  have happended : (appendedPath isSeparator path filename).length=
      (appendedPath isSeparator path []).length+filename.length := by
    simp [appendedPath,Nat.add_assoc]
  have hslashed : path.length≤(appendedPath isSeparator path []).length ∧
      (appendedPath isSeparator path []).length≤path.length+1 := by
    unfold appendedPath
    split_ifs <;> simp
  obtain ⟨fullpath,hpath⟩ : ∃ fullpath, copyPath path guacRdpFsMaxPath []=some fullpath :=
    ⟨_,copyPath_eq guacRdpFsMaxPath [] path⟩
  have hcopied := Option.some.inj (hpath.symm.trans (copyPath_eq guacRdpFsMaxPath [] path))
  obtain ⟨result,hresult,hwritten,haccepted,hwhole⟩ :=
    copyFilename_spec (guacRdpFsMaxPath-fullpath.length) [] filename fullpath
  refine ⟨result,?_,?_⟩
  · simp only [hself,hparent,if_false,hpath,Option.bind_eq_bind,Option.bind_some]
    exact hresult
  by_cases hroom : path.length<guacRdpFsMaxPath
  · rw [if_pos hroom,nil_append] at hcopied
    rw [hcopied] at hwritten haccepted hwhole
    refine ⟨by omega,?_,fun h => ?_⟩
    · rw [haccepted,hnamed,happended]
      exact and_congr_right fun _ => by omega
    · rw [hwhole h]
      simp [appendedPath]
  · rw [if_neg hroom,nil_append] at hcopied
    rw [hcopied,length_take,min_eq_left (Nat.not_lt.mp hroom)] at hwritten haccepted
    have hrefused : ¬result.1=true := by
      rw [haccepted]
      omega
    exact ⟨by omega,iff_of_false hrefused (by omega),fun h => absurd h hrefused⟩

/-! ### Names appended by copies -/

/-- The length of what is appended, with a path whose length is an int. -/
def appendedLength (path filename : List UInt8) : ℕ :=
  (appendedPath (· = 0x2F) (path.take (path.length%2^32)) filename).length

/-- guac_ssh_append_filename is right about a name: it is refused as such, or the path leaves room
as an int and its length with the name does not wrap to one that fits. -/
def AppendsSafely (path filename : List UInt8) : Prop :=
  ¬Named (· = 0x2F) filename ∨ path.length%2^32<guacCommonSshSftpMaxPath ∧
      (path.length<guacCommonSshSftpMaxPath ∧
          appendedLength path filename<guacCommonSshSftpMaxPath ∨
        guacCommonSshSftpMaxPath≤wrap32 (appendedLength path filename))

section

variable {size : ℕ} {path : List UInt8} (hpos : 0<size) (hsmall : size<2^31)

include hpos hsmall

/-- A path that leaves room for it gets a slash if it is not empty and ends with another byte. -/
theorem copySlashed_eq (stale : ℕ→UInt8) (h : path.length%2^32<size) : copySlashed stale size path=
      if (path.take (path.length%2^32)).getLast?.all (· = 0x2F) then copyAt size start path
      else copyAt size (copyAt size start path) [0x2F] := by
  have hcontents := (holds_first hpos hsmall path).contents
  have hlength := first_snd_eq hpos hsmall h
  have hle := Nat.mod_le path.length (2^32)
  rw [length_take,min_eq_left hle] at hlength
  unfold copySlashed
  generalize path.length%2^32=k at *
  rcases Nat.eq_zero_or_pos k with rfl | hk
  · simp [hlength]
  have hoffset : toSizeT ((copyAt size start path).2-1)=k-1 := by
    unfold toSizeT
    omega
  have hbyte : byteAt stale (copyAt size start path).1 (k-1)=path[k-1] := by
    rw [byteAt,hcontents,nil_append,
      List.getElem?_append_left (by rw [length_take]; omega),
      List.getElem?_take_of_lt (by omega),List.getElem?_eq_getElem (by omega),Option.getD_some]
  have hlast : (path.take k).getLast? = some path[k-1] := by
    rw [List.getLast?_take,if_neg hk.ne',List.getElem?_eq_getElem (by omega)]
    rfl
  dsimp only
  rw [hoffset,hbyte,hlast,hlength]
  by_cases hslash : path[k-1]=0x2F <;> simp [hslash,hk]

/-- A name is copied behind the path and a slash. -/
theorem holds_copySlashed (stale : ℕ→UInt8) (h : path.length%2^32<size) (filename : List UInt8) :
    Holds [] (appendedPath (· = 0x2F) (path.take (path.length%2^32)) filename) size
        (copyAt size (copySlashed stale size path) filename).1 ∧
      (copyAt size (copySlashed stale size path) filename).2=
        wrap32 (appendedLength path filename) := by
  have hlength := first_snd_eq hpos hsmall h
  obtain ⟨hsecond,hnext⟩ := holds_second hpos hsmall h 0x2F
  rw [copySlashed_eq hpos hsmall stale h,appendedLength,appendedPath,copyAt_snd]
  split_ifs
  · rw [append_nil,hlength,←Nat.cast_add,←length_append]
    exact ⟨holds_copyAt hpos hsmall (holds_first hpos hsmall path) ( take_prefix ..) hlength
      (by rw [length_take]; omega) filename,rfl⟩
  · rw [hnext,←Nat.cast_add,←length_append]
    exact ⟨holds_copyAt hpos hsmall hsecond prefix_rfl hnext (by simp; omega) filename,rfl⟩

/-- A path that leaves no room makes the copy of the name go outside: the terminator is read behind
a path that fills the buffer, so that it gets a slash. -/
theorem lt_written_copySlashed (stale : ℕ→UInt8) (h : ¬path.length%2^32<size)
    (filename : List UInt8) :
    size<(copyAt size (copySlashed stale size path) filename).1.written := by
  obtain ⟨hbehind,hslashed⟩ := lt_written_outside hpos hsmall h filename
  unfold copySlashed
  dsimp only
  split_ifs with hslash
  · exact hslashed 0x2F
  · refine hbehind fun hfull => hslash ⟨by omega,?_⟩
    obtain ⟨q,hwrap⟩ := wrap32_eq_add path.length
    have hlength := first_snd size path
    have hoffset : toSizeT ((copyAt size start path).2-1)=(path.take (size-1)).length := by
      rw [length_take]
      unfold toSizeT
      omega
    rw [hoffset,byteAt,(holds_first hpos hsmall path).contents,nil_append,
      List.getElem?_concat_length]
    simp

end

/-- A name is refused as such, or appended behind the path and the slash. -/
theorem sshAppendFilename_cases (stale : ℕ→UInt8) (path filename : List UInt8) :
    (¬Named (· = 0x2F) filename ∧ guacSshAppendFilename stale path filename=(false,⟨[],0⟩)) ∨
      Named (· = 0x2F) filename ∧ ∃ appended, appended=copyAt guacCommonSshSftpMaxPath
          (copySlashed stale guacCommonSshSftpMaxPath path) filename ∧
        guacSshAppendFilename stale path filename=
          (decide (appended.2<guacCommonSshSftpMaxPath),appended.1) := by
  unfold guacSshAppendFilename
  split_ifs with hself hparent hslash
  · exact .inl ⟨fun h => h.1 hself,rfl⟩
  · exact .inl ⟨fun h => h.2.1 hparent,rfl⟩
  · exact .inl ⟨fun h => by simpa using h.2.2 _ hslash,rfl⟩
  · exact .inr ⟨⟨hself,hparent,fun c hc => decide_eq_false fun heq => hslash (heq ▸ hc)⟩,_,rfl,rfl⟩

/-- Behind a path that leaves no room, a name is written outside of the buffer. -/
theorem not_appends_sftp (stale : ℕ→UInt8) {path filename : List UInt8}
    (hnamed : Named (· = 0x2F) filename) (h : ¬path.length%2^32<guacCommonSshSftpMaxPath) :
    ¬Appends (· = 0x2F) guacCommonSshSftpMaxPath path filename
      (guacSshAppendFilename stale path filename) := by
  have hout := lt_written_copySlashed (by decide) (by decide) stale h filename
  rcases sshAppendFilename_cases stale path filename with ⟨hnot,-⟩ | ⟨-,appended,hcopied,happend⟩
  · exact absurd hnamed hnot
  · rw [←hcopied] at hout
    rw [happend]
    exact fun happends => hout.not_ge happends.within

/-- guac_ssh_append_filename appends a name exactly if the path is not cut. -/
theorem appends_sftp_iff (stale : ℕ→UInt8) (path filename : List UInt8) :
    Appends (· = 0x2F) guacCommonSshSftpMaxPath path filename
      (guacSshAppendFilename stale path filename) ↔ AppendsSafely path filename := by
  unfold AppendsSafely
  rcases sshAppendFilename_cases stale path filename with
    ⟨hnot,hrefused⟩ | ⟨hnamed,appended,hcopied,happend⟩
  · rw [hrefused]
    exact iff_of_true ⟨Nat.zero_le _,by simp [hnot],by simp⟩ (.inl hnot)
  rw [or_iff_right (not_not.mpr hnamed)]
  by_cases h : path.length%2^32<guacCommonSshSftpMaxPath
  case neg => exact iff_of_false (not_appends_sftp stale hnamed h) fun hsafe => h hsafe.1
  obtain ⟨hheld,hlength⟩ := holds_copySlashed (by decide) (by decide) stale h filename
  rw [←hcopied] at hheld hlength
  have hwritten := hheld.written
  rw [length_nil,Nat.zero_add] at hwritten
  have hmax : guacCommonSshSftpMaxPath=2048 := rfl
  have hwrap (hshort : appendedLength path filename<guacCommonSshSftpMaxPath) :
      wrap32 (appendedLength path filename)=appendedLength path filename :=
    wrap32_of_range (by omega) (by omega)
  rw [happend,hlength,appends_mk,decide_eq_true_eq,and_iff_right hwritten,
    and_iff_right hnamed,and_iff_right h]
  by_cases hfits : path.length<guacCommonSshSftpMaxPath
  · rw [appendedLength,Nat.mod_eq_of_lt (by omega),take_length] at *
    constructor
    · rintro ⟨haccepts,-⟩
      omega
    · intro hsafe
      exact ⟨by omega,fun haccepts => hheld.whole (by omega)⟩
  · have hlong : guacCommonSshSftpMaxPath≤(appendedPath (· = 0x2F) path filename).length := by
      rw [appendedPath,length_append,length_append]
      omega
    constructor
    · rintro ⟨haccepts,-⟩
      omega
    · intro hsafe
      exact ⟨by omega,fun haccepts => by omega⟩

/-- guac_rdp_fs_append_filename accepts exactly the names that it should, and
guac_ssh_append_filename does if they are appended safely. -/
theorem appendFilename_exact_iff (path filename : List UInt8) (stale : ℕ→UInt8) :
    (∃ result, guacRdpFsAppendFilename path filename=some result ∧
      Appends isSeparator guacRdpFsMaxPath path filename result) ∧
    (Appends (· = 0x2F) guacCommonSshSftpMaxPath path filename
      (guacSshAppendFilename stale path filename) ↔ AppendsSafely path filename) :=
  ⟨appends_rdp path filename,appends_sftp_iff stale path filename⟩

/-- Behind a path of 2048 bytes. -/
theorem not_appendFilename_exact : ¬∀ path filename stale,
    Appends (· = 0x2F) guacCommonSshSftpMaxPath path filename
      (guacSshAppendFilename stale path filename) := by
  intro h
  have hlong : ¬(List.replicate 2048 0x61 : List UInt8).length%2^32<guacCommonSshSftpMaxPath := by
    rw [length_replicate]
    decide
  have hnamed : Named (· = 0x2F) [0x62] := ⟨by decide,by decide,by decide +kernel⟩
  exact not_appends_sftp (fun _ => 0) hnamed hlong (h _ _ _)

end GuacServer.AppendedPaths
