import GuacServer.CellMemory
import GuacServer.DecimalNumerals
import GuacServer.Unicode

/-!
# Files that are not overwritten

A recording and the data file of a typescript are created under a name that no file has yet,
if need be with a number behind it. The name is put together in a buffer of the caller, where
room for the number is kept free, and the test whether it fits compares with one length only.
-/

namespace GuacServer.NumberedFiles

open CellMemory DecimalNumerals Unicode

/-- The values of errno that are told apart. -/
inductive Errno
  | eexist
  | enametoolong
  | other
  deriving DecidableEq

/-- GUAC_COMMON_RECORDING_MAX_SUFFIX and GUAC_TERMINAL_TYPESCRIPT_MAX_SUFFIX. -/
def maxSuffix : ℕ := 255

/-- GUAC_COMMON_RECORDING_MAX_SUFFIX_LENGTH and GUAC_TERMINAL_TYPESCRIPT_MAX_SUFFIX_LENGTH. -/
def maxSuffixLength : ℕ := 4

/-- GUAC_COMMON_RECORDING_MAX_NAME_LENGTH. -/
def guacCommonRecordingMaxNameLength : ℕ := 2048

/-- GUAC_TERMINAL_TYPESCRIPT_MAX_NAME_LENGTH without the size of
GUAC_TERMINAL_TYPESCRIPT_TIMING_SUFFIX, with which the data file is opened. -/
def typescriptBasenameSize : ℕ := 2048-((ascii "timing").length+1)

/-- The directory or the name of a file, without its null terminator. -/
structure PathText where
  bytes : List UInt8
  noZero : ∀ b∈bytes, b≠0

/-- What was done to create a file. -/
structure Creation where
  /-- The buffer with the name. -/
  basename : List UInt8
  /-- The names that were passed to open(), in order. -/
  attempts : List (List UInt8)
  /-- errno, unless a file is open. -/
  errno : Option Errno
  deriving DecidableEq

/-- What snprintf returns for a text: its length, if that is an int. -/
def snprintfLength (text : List UInt8) : ℤ := if text.length<2^31 then text.length else -1

/-- A file of the name in the buffer is opened, if that answers so. -/
def attempt (files : List UInt8→Option Errno) (creation : Creation) : Creation :=
  { creation with
    attempts := creation.attempts++[cString creation.basename]
    errno := files (cString creation.basename) }

/-- The loop over numbers, which are printed at an offset. -/
def retry (files : List UInt8→Option Errno) (suffix : ℤ) : List ℕ→Creation→Option Creation
  | [], creation => some creation
  | i::rest, creation =>
    if creation.errno=some .eexist then do
      let basename ← store suffix (decimal i++[0]) creation.basename
      retry files suffix rest (attempt files { creation with basename := basename })
    else some creation

/-- The numbers to try. -/
def suffixes : List ℕ := (List.range maxSuffix).map (· + 1)

/-- A path and a name are put together in a buffer, and a file is created under that name or
under one with a number, with what open() answers for each. A store outside of the buffer has
no result. -/
def create (files : List UInt8→Option Errno) (path name : PathText) (buffer : List UInt8) :
    Option Creation := do
  let text := path.bytes++47::name.bytes
  let room := buffer.length-maxSuffixLength
  let basename ← store 0 (text.take (room-1)++[0]) buffer
  let basenameLength := snprintfLength text
  if basenameLength=room then some ⟨basename,[],some .enametoolong⟩
  else
    let creation := attempt files ⟨basename,[],none⟩
    if creation.errno=none then some creation
    else
      let basename ← store basenameLength [46] creation.basename
      retry files (basenameLength+1) suffixes { creation with basename := basename }

/-- What remains of an opened file once it is to be locked, with what fcntl() answers. -/
def locked (lock errno : Option Errno) : Option Errno := if errno=none then lock else errno

/-- guac_common_recording_open. -/
def guacCommonRecordingOpen (files : List UInt8→Option Errno) (lock : Option Errno)
    (path name : PathText) (basename : Vector UInt8 guacCommonRecordingMaxNameLength) :
    Option Creation :=
  (create files path name basename.toList).map fun creation =>
    { creation with errno := locked lock creation.errno }

/-- guac_terminal_typescript_open_data_file. -/
def guacTerminalTypescriptOpenDataFile (files : List UInt8→Option Errno)
    (path name : PathText) (basename : Vector UInt8 typescriptBasenameSize) : Option Creation :=
  create files path name basename.toList

/-! ## What they are for -/

/-- The names to choose from. -/
def candidates (path name : PathText) : List (List UInt8) :=
  let text := path.bytes++47::name.bytes
  text::suffixes.map fun i => text++46::decimal i

/-- The name, a suffix behind it and the terminator have room in a buffer. -/
def Fits (path name : PathText) (size : ℕ) : Prop :=
  (path.bytes++47::name.bytes).length+1+maxSuffixLength ≤ size

instance (path name : PathText) (size : ℕ) : Decidable (Fits path name size) :=
  inferInstanceAs (Decidable (_ ≤ _))

/-- Names are tried up to the first one that no file has yet. -/
def tried (files : List UInt8→Option Errno) : List (List UInt8)→List (List UInt8)
  | [] => []
  | c::rest => if files c=some .eexist then c::tried files rest else [c]

/-- What open() answers for the first name that no file has yet, or for the last one. -/
def chosen (files : List UInt8→Option Errno) (names : List (List UInt8)) : Option Errno :=
  match names.find? fun c => files c≠some .eexist with
  | none => some .eexist
  | some c => files c

/-- The file with the first name that no file has yet is opened and locked, nothing else is
tried, and if there is no room for the names nothing is. -/
structure OpensFirst (files : List UInt8→Option Errno) (lock : Option Errno)
    (path name : PathText) (size : ℕ) (result : Option Creation) : Prop where
  /-- The names that are tried. -/
  chooses : Fits path name size→∃ creation, result=some creation ∧
    creation.attempts=tried files (candidates path name) ∧
    creation.errno=locked lock (chosen files (candidates path name))
  /-- What does not fit is refused. -/
  refuses : ¬Fits path name size→∃ creation, result=some creation ∧
    creation.attempts=[] ∧ creation.errno=some .enametoolong

/-! ## Names in the buffer -/

/-- A string with its terminator at the start of a buffer is what the buffer holds. -/
theorem cString_of_prefix {text buffer : List UInt8} (h : text++[0] <+: buffer)
    (hzero : ∀ b∈text, b≠0) : cString buffer=text := by
  obtain ⟨rest,rfl⟩ := h
  rw [List.append_assoc,List.singleton_append,cString_terminated,cString_of_ne_zero hzero]

variable {files : List UInt8→Option Errno}

theorem tried_cons (c : List UInt8) (names : List (List UInt8)) :
    tried files (c::names)=c::if files c=some .eexist then tried files names else [] := by
  rw [tried]
  split_ifs
  · rfl
  · rfl

theorem chosen_cons (c : List UInt8) (names : List (List UInt8)) :
    chosen files (c::names)=if files c=some .eexist then chosen files names else files c := by
  unfold chosen
  split_ifs with hexists
  · rw [List.find?_cons_of_neg (by simpa using hexists)]
  · rw [List.find?_cons_of_pos (by simpa using hexists)]

/-- No more names are tried once a file does not exist yet. -/
theorem retry_stop {creation : Creation} (h : creation.errno≠some .eexist) (suffix : ℤ)
    (numbers : List ℕ) : retry files suffix numbers creation=some creation := by
  cases numbers with
  | nil => rfl
  | cons i numbers => rw [retry,if_neg h]

/-- Numbers that have room behind a text are tried one after the other. -/
theorem retry_tries {text : List UInt8} (hzero : ∀ b∈text, b≠0) (numbers : List ℕ)
    (hnumbers : ∀ i∈numbers, i ≤ maxSuffix) {creation : Creation}
    (hstart : text++[46] <+: creation.basename)
    (hroom : text.length+1+maxSuffixLength≤creation.basename.length)
    (herrno : creation.errno=some .eexist) :
    ∃ last, retry files (text.length+1) numbers creation=some last ∧
      last.attempts=creation.attempts++tried files (numbers.map fun i => text++46::decimal i) ∧
      last.errno=chosen files (numbers.map fun i => text++46::decimal i) := by
  induction numbers generalizing creation with
  | nil => exact ⟨creation,rfl,(List.append_nil _).symm,herrno⟩
  | cons i numbers ih =>
    obtain ⟨hi,hrest⟩ := List.forall_mem_cons.mp hnumbers
    have hdigits : (decimal i).length≤3 :=
      length_decimal_le (Nat.lt_of_le_of_lt hi (by decide : maxSuffix<10^3))
    have hlength : (text++[46]).length=text.length+1 := List.length_append
    have hplace : (decimal i++[0]).length=(decimal i).length+1 := List.length_append
    have hfour : maxSuffixLength=4 := rfl
    obtain ⟨stored,hstored,hname,hsize⟩ :=
      @store_behind _ (decimal i++[0]) _ _ hstart (by omega)
    rw [hlength] at hstored
    push_cast at hstored
    have hcandidate : ∀ b∈text++46::decimal i, b≠0 := by
      intro b hb
      rcases List.mem_append.mp hb with hb | hb
      · exact hzero b hb
      rcases List.mem_cons.mp hb with rfl | hb
      · decide
      · exact (decimal_digits i b hb).ascii.2
    have hstring : cString stored=text++46::decimal i := by
      refine cString_of_prefix ?_ hcandidate
      have hsame : text++46::decimal i++[0]=text++[46]++(decimal i++[0]) := by
        rw [List.append_assoc,List.append_assoc]
        rfl
      rwa [hsame]
    have hattempt : attempt files { creation with basename := stored }=
        ⟨stored,creation.attempts++[text++46::decimal i],files (text++46::decimal i)⟩ := by
      rw [attempt,hstring]
    rw [retry,if_pos herrno,hstored,List.map_cons,tried_cons,chosen_cons,Option.bind_eq_bind,
      Option.bind_some,hattempt]
    by_cases hexists : files (text++46::decimal i)=some .eexist
    · obtain ⟨last,hlast,hattempts,hchosen⟩ := @ih hrest
        ⟨stored,creation.attempts++[text++46::decimal i],files (text++46::decimal i)⟩
        ((List.prefix_append ..).trans hname) (hsize.symm ▸ hroom) hexists
      rw [if_pos hexists,if_pos hexists]
      exact ⟨last,hlast,by rw [hattempts,List.append_assoc]; rfl,hchosen⟩
    · rw [if_neg hexists,if_neg hexists]
      exact ⟨_,retry_stop hexists ..,rfl,rfl⟩

/-! ## Which names are right -/

/-- What snprintf stores is the whole text if that fits, and otherwise the start of it. -/
theorem store_start {text buffer : List UInt8} {room : ℕ} (hpos : 0<room)
    (hroom : room≤buffer.length) :
    ∃ stored, store 0 (text.take (room-1)++[0]) buffer=some stored ∧
      text.take (room-1)++[0] <+: stored ∧ stored.length=buffer.length := by
  have hlength : (text.take (room-1)++[0]).length≤room := by
    rw [List.length_append,List.length_take,List.length_singleton]
    omega
  have hstored := @store_behind _ (text.take (room-1)++[0]) buffer [] List.nil_prefix
    (by rw [List.length_nil]; omega)
  exact hstored

variable {path name : PathText} {lock : Option Errno} {buffer : List UInt8}

theorem PathText.noZero_append (path name : PathText) : ∀ b∈path.bytes++47::name.bytes, b≠0 := by
  intro b hb
  rcases List.mem_append.mp hb with hb | hb
  · exact path.noZero b hb
  rcases List.mem_cons.mp hb with rfl | hb
  · decide
  · exact name.noZero b hb

theorem suffixes_le : ∀ i∈suffixes, i ≤ maxSuffix := by
  intro i hi
  obtain ⟨k,hk,rfl⟩ := List.mem_map.mp hi
  exact List.mem_range.mp hk

/-- A length that is an int is what snprintf returns. -/
theorem snprintfLength_of_lt {text : List UInt8} (h : text.length<2^31) :
    snprintfLength text=text.length := if_pos h

/-- Of names that fit the first one that no file has yet is tried last. -/
theorem create_fits (h : Fits path name buffer.length) (hint : buffer.length<2^31) :
    ∃ creation, create files path name buffer=some creation ∧
      creation.attempts=tried files (candidates path name) ∧
      creation.errno=chosen files (candidates path name) := by
  have hzero := path.noZero_append name
  unfold Fits at h
  unfold candidates create
  dsimp only
  generalize path.bytes++47::name.bytes=text at *
  have hfour : maxSuffixLength=4 := rfl
  obtain ⟨basename,hstored,hname,hsize⟩ :=
    @store_start text buffer (buffer.length-maxSuffixLength) (by omega) (by omega)
  rw [List.take_of_length_le (by omega)] at hstored hname
  have hlength := snprintfLength_of_lt (by omega : text.length<2^31)
  have hroom : ¬(text.length : ℤ)=(buffer.length-maxSuffixLength : ℕ) := by omega
  have hattempt : attempt files ⟨basename,[],none⟩=⟨basename,[text],files text⟩ := by
    rw [attempt, cString_of_prefix hname hzero]
    rfl
  rw [List.take_of_length_le (by omega),hstored,Option.bind_eq_bind,Option.bind_some,hlength,
    if_neg hroom,hattempt,tried_cons,chosen_cons]
  dsimp only
  by_cases hopened : files text=none
  · have hexists : files text≠some .eexist := by simp [hopened]
    rw [if_pos hopened,if_neg hexists,if_neg hexists]
    exact ⟨_,rfl,rfl,rfl⟩
  · obtain ⟨dotted,hdotted,hstart,hsize'⟩ := @store_behind _ [46] basename text
      ((List.prefix_append ..).trans hname) (by rw [List.length_singleton]; omega)
    rw [if_neg hopened,hdotted,Option.bind_some]
    by_cases hexists : files text=some .eexist
    · rw [if_pos hexists,if_pos hexists]
      exact retry_tries hzero suffixes suffixes_le hstart
        (by omega : text.length+1+maxSuffixLength≤dotted.length) hexists
    · rw [if_neg hexists,if_neg hexists]
      exact ⟨_,retry_stop hexists ..,rfl,rfl⟩

/-- A name that leaves no room for the terminator of snprintf is refused if it is longer by one
byte only. -/
theorem create_refuses (h : (path.bytes++47::name.bytes).length+maxSuffixLength=
      buffer.length) (hint : buffer.length<2^31) :
    ∃ creation, create files path name buffer=some creation ∧
      creation.attempts=[] ∧ creation.errno=some .enametoolong := by
  have hpos : 0<(path.bytes++47::name.bytes).length :=
    List.length_pos_iff.mpr (List.append_ne_nil_of_right_ne_nil _ (List.cons_ne_nil _ _))
  unfold create
  dsimp only
  generalize path.bytes++47::name.bytes=text at *
  obtain ⟨basename,hstored,-⟩ :=
    @store_start text buffer (buffer.length-maxSuffixLength) (by omega) (by omega)
  have hlength := snprintfLength_of_lt (by omega : text.length<2^31)
  have hroom : (text.length : ℤ)=(buffer.length-maxSuffixLength : ℕ) := by omega
  rw [hstored,Option.bind_eq_bind,Option.bind_some,hlength,if_pos hroom]
  exact ⟨_,rfl,rfl,rfl⟩

/-- Names that were tried remain so. -/
theorem retry_prefix {suffix : ℤ} {numbers : List ℕ} {creation last : Creation}
    (h : retry files suffix numbers creation=some last) :
    creation.attempts <+: last.attempts := by
  induction numbers generalizing creation with
  | nil =>
    cases h
    exact List.prefix_rfl
  | cons i numbers ih =>
    rw [retry] at h
    split_ifs at h
    · obtain ⟨basename,-,h⟩ := Option.bind_eq_some_iff.mp h
      exact (List.prefix_append ..).trans (ih h)
    · cases h
      exact List.prefix_rfl

/-- A longer name is cut off, and tried like that. -/
theorem create_cuts (h : buffer.length-maxSuffixLength<
      (path.bytes++47::name.bytes).length) {creation : Creation}
    (hcreated : create files path name buffer=some creation) : creation.attempts≠[] := by
  obtain ⟨basename,-,hcreated⟩ := Option.bind_eq_some_iff.mp hcreated
  have hroom : ¬snprintfLength (path.bytes++47::name.bytes)=
      (buffer.length-maxSuffixLength : ℕ) := by
    by_cases hint : (path.bytes++47::name.bytes).length<2^31
    · rw [snprintfLength_of_lt hint]
      omega
    · rw [snprintfLength,if_neg hint]
      omega
  have hne : (attempt files ⟨basename,[],none⟩).attempts≠[] := List.cons_ne_nil _ _
  rw [if_neg hroom] at hcreated
  dsimp only at hcreated
  split_ifs at hcreated
  · cases hcreated
    exact hne
  · obtain ⟨dotted,-,hcreated⟩ := Option.bind_eq_some_iff.mp hcreated
    intro hnone
    have hprefix := retry_prefix hcreated
    rw [hnone,List.prefix_nil] at hprefix
    exact hne hprefix

/-- Which names are right in a buffer of some size. -/
theorem opensFirst_create_iff (files : List UInt8→Option Errno) (lock : Option Errno)
    (path name : PathText) (hpos : maxSuffixLength<buffer.length)
    (hint : buffer.length<2^31) :
    OpensFirst files lock path name buffer.length
        ((create files path name buffer).map fun creation =>
          { creation with errno := locked lock creation.errno }) ↔
      path.bytes.length+name.bytes.length+1+maxSuffixLength≤buffer.length := by
  have hlength : (path.bytes++47::name.bytes).length=
      path.bytes.length+name.bytes.length+1 := List.length_append
  rw [←hlength]
  constructor
  · intro hopens
    by_contra hlong
    have hnot : ¬Fits path name buffer.length := by
      unfold Fits
      omega
    obtain ⟨creation,hcreated,hnone,-⟩ := hopens.refuses hnot
    obtain ⟨made,hmade,rfl⟩ := Option.map_eq_some_iff.mp hcreated
    exact create_cuts (by omega) hmade hnone
  · intro hshort
    constructor
    · intro hfits
      obtain ⟨creation,hcreated,hattempts,herrno⟩ := @create_fits files _ _ _ hfits hint
      exact ⟨_,congrArg _ hcreated,hattempts,congrArg (locked lock) herrno⟩
    · intro hnot
      unfold Fits at hnot
      obtain ⟨creation,hcreated,hattempts,herrno⟩ :=
        @create_refuses files path name buffer (by omega) hint
      refine ⟨_,congrArg _ hcreated,hattempts,?_⟩
      dsimp only
      rw [herrno]
      rfl

/-- Recordings and typescripts have whole names exactly if the path and the name are at most as
long as the buffer has room for in front of a suffix, or longer by one byte. -/
theorem namesWhole_iff (files : List UInt8→Option Errno) (lock : Option Errno)
    (path name : PathText) (recording : Vector UInt8 guacCommonRecordingMaxNameLength)
    (typescript : Vector UInt8 typescriptBasenameSize) :
    (OpensFirst files lock path name guacCommonRecordingMaxNameLength
        (guacCommonRecordingOpen files lock path name recording) ↔
      path.bytes.length+name.bytes.length≤2043) ∧
    (OpensFirst files none path name typescriptBasenameSize
        (guacTerminalTypescriptOpenDataFile files path name typescript) ↔
      path.bytes.length+name.bytes.length≤2036) := by
  have hrecording : recording.toList.length=2048 := Vector.length_toList ..
  have htypescript : typescript.toList.length=2041 := Vector.length_toList ..
  have hfour : maxSuffixLength=4 := rfl
  have hunlocked : guacTerminalTypescriptOpenDataFile files path name typescript=
      (create files path name typescript.toList).map fun creation =>
        { creation with errno := locked none creation.errno } := by
    have hnone : ∀ errno, locked none errno=errno := by
      intro errno
      cases errno with
      | none => rfl
      | some errno => rfl
    simp only [hnone,Option.map_id']
    rfl
  have hrecorded := @opensFirst_create_iff recording.toList files lock path name (by omega)
    (by omega)
  have htyped := @opensFirst_create_iff typescript.toList files none path name (by omega)
    (by omega)
  rw [hrecording] at hrecorded
  rw [htypescript,←hunlocked] at htyped
  exact ⟨hrecorded.trans (by omega),htyped.trans (by omega)⟩

/-- A directory with a long path. -/
def longPath : PathText :=
  ⟨List.replicate 2048 97,fun b hb => by rw [List.eq_of_mem_replicate hb]; decide⟩

/-- A name of one byte. -/
def shortName : PathText := ⟨[98],List.forall_mem_singleton.mpr (by decide)⟩

/-- The name of a recording there is cut off. -/
theorem not_opensFirst_longPath :
    ¬OpensFirst (fun _ => none) none longPath shortName guacCommonRecordingMaxNameLength
      (guacCommonRecordingOpen (fun _ => none) none longPath shortName (Vector.replicate _ 0)) := by
  have hsize : (Vector.replicate guacCommonRecordingMaxNameLength (0 : UInt8)).toList.length=
      2048 := Vector.length_toList ..
  have hfour : maxSuffixLength=4 := rfl
  have hlength : longPath.bytes.length=2048 := List.length_replicate ..
  have hcreated := @opensFirst_create_iff
    (Vector.replicate guacCommonRecordingMaxNameLength 0).toList
    (fun _ => none) none longPath shortName (by omega) (by omega)
  rw [hsize,hlength] at hcreated
  exact hcreated.not.mpr (by omega)

end GuacServer.NumberedFiles
