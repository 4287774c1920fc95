import GuacServer.DecimalNumerals
import GuacServer.JsonGrammar

/-!
# Streaming of JSON objects

The routines of common/json.c. What is written is collected in a buffer, which
is sent as a blob once the next piece does not fit. Of a string only the quotes
are escaped: it is written in runs that each start at a quote, and the length of
a run is passed as an int.
-/

namespace GuacServer.JsonStream

open Unicode DecimalNumerals JsonGrammar

/-- The size of the buffer of guac_common_json_state. -/
def jsonBufferSize : ℕ := 4096

/-- guac_common_json_state, the used bytes of its buffer, and the blobs sent so
far. -/
structure JsonState where
  /-- The bytes of the buffer that are used. -/
  buffer : List UInt8
  /-- The number of properties written, as an int. -/
  propertiesWritten : ℤ
  /-- What guac_protocol_send_blob was given, in order. -/
  blobs : List (List UInt8)
  /-- The bytes are within the buffer. -/
  fits : buffer.length≤jsonBufferSize
  /-- No blob is larger than the buffer. -/
  blobsFit : ∀ blob∈blobs, blob.length≤jsonBufferSize

/-- guac_common_json_flush. -/
def guacCommonJsonFlush (state : JsonState) : JsonState :=
  if state.buffer.length > 0 then
    { state with
      buffer := []
      blobs := state.blobs++[state.buffer]
      fits := Nat.zero_le _
      blobsFit := by
        intro blob hblob
        rcases List.mem_append.mp hblob with h | h
        · exact state.blobsFit blob h
        · rw [List.mem_singleton.mp h]
          exact state.fits }
  else state

/-- Data is appended to the buffer that has room for it. -/
def JsonState.append (state : JsonState) (data : List UInt8)
    (h : state.buffer.length+data.length≤jsonBufferSize) : JsonState :=
  { state with
    buffer := state.buffer++data
    fits := List.length_append.trans_le h }

/-- After a flush the buffer is empty. -/
theorem guacCommonJsonFlush_buffer (state : JsonState) : (guacCommonJsonFlush state).buffer=[] := by
  unfold guacCommonJsonFlush
  split
  · rfl
  · next h => exact List.length_eq_zero_iff.mp (Nat.eq_zero_of_not_pos h)

/-- What a function leaves and whether it has written a blob. -/
abbrev JsonStep := JsonState→JsonState×Bool

/-- One function after the other. -/
def JsonStep.andThen (first second : JsonStep) : JsonStep := fun state =>
  ((second (first state).1).1,(first state).2 || (second (first state).1).2)

/-- guac_common_json_write. -/
def guacCommonJsonWrite (buffer : List UInt8) (length : ℤ) : JsonStep := fun state =>
  if hlength : 0<length then
    let blobLength := min length.toNat jsonBufferSize
    have hblob : (buffer.take blobLength).length≤blobLength := List.length_take_le ..
    if hroom : state.buffer.length+blobLength > jsonBufferSize then
      let flushed := (guacCommonJsonFlush state).append (buffer.take blobLength) (by
        rw [guacCommonJsonFlush_buffer,List.length_nil,Nat.zero_add]
        exact hblob.trans (Nat.min_le_right ..))
      ((guacCommonJsonWrite (buffer.drop blobLength) (length-blobLength) flushed).1,true)
    else
      guacCommonJsonWrite (buffer.drop blobLength) (length-blobLength)
        (state.append (buffer.take blobLength) (by omega))
  else (state,false)
termination_by length.toNat
decreasing_by
  all_goals
    have hpos : 0<jsonBufferSize := by decide
    omega

/-- The bytes of a string since its last quote are written, if there are any. -/
def writeRun (run : List UInt8) : JsonStep :=
  if run≠[] then guacCommonJsonWrite run (wrap32 run.length) else fun state => (state,false)

/-- The loop of guac_common_json_write_string and the run that is left after it. -/
def writeStringFrom (run : List UInt8) : List UInt8→JsonStep
  | [] => writeRun run
  | current::str =>
    if current=0 then writeRun run
    else if current=0x22 then
      (writeRun run).andThen ((guacCommonJsonWrite [0x5C] 1).andThen
        (writeStringFrom [current] str))
    else writeStringFrom (run++[current]) str

/-- guac_common_json_write_string. -/
def guacCommonJsonWriteString (str : List UInt8) : JsonStep :=
  (guacCommonJsonWrite [0x22] 1).andThen
    ((writeStringFrom [] str).andThen (guacCommonJsonWrite [0x22] 1))

/-- guac_common_json_write_property. -/
def guacCommonJsonWriteProperty (name value : List UInt8) : JsonStep :=
  JsonStep.andThen (fun state =>
      if state.propertiesWritten≠0 then guacCommonJsonWrite [0x2C] 1 state else (state,false))
    ((guacCommonJsonWriteString name).andThen ((guacCommonJsonWrite [0x3A] 1).andThen
      ((guacCommonJsonWriteString value).andThen fun state =>
        ({ state with propertiesWritten := wrap32 (state.propertiesWritten+1) },false))))

/-- guac_common_json_begin_object, for a stream on which no blob was sent,
unless its assertion fails. -/
def guacCommonJsonBeginObject : Option JsonState :=
  let written := guacCommonJsonWrite [0x7B] 1 ⟨[],0,[],Nat.zero_le _,by simp⟩
  if written.2 then none else some written.1

/-- guac_common_json_end_object. -/
def guacCommonJsonEndObject : JsonStep := guacCommonJsonWrite [0x7D] 1

/-- The properties are written one after the other. -/
def writeProperties : List Member→JsonStep
  | [] => fun state => (state,false)
  | p::ps => (guacCommonJsonWriteProperty p.1 p.2).andThen (writeProperties ps)

/-- An object is begun, its properties are written, and it is ended and flushed. -/
def streamObject (pairs : List Member) : Option JsonState :=
  guacCommonJsonBeginObject.map fun state =>
    guacCommonJsonFlush (guacCommonJsonEndObject (writeProperties pairs state).1).1

/-! ## What is written -/

/-- All bytes written, those of the blobs and those still in the buffer. -/
def JsonState.contents (state : JsonState) : List UInt8 := state.blobs.flatten++state.buffer

/-- A flush changes no contents. -/
theorem guacCommonJsonFlush_contents (state : JsonState) :
    (guacCommonJsonFlush state).contents=state.contents := by
  unfold guacCommonJsonFlush
  split
  · simp [JsonState.contents]
  · rfl

@[simp] theorem JsonState.append_contents (state : JsonState) (data : List UInt8)
    (h : state.buffer.length+data.length≤jsonBufferSize) :
    (state.append data h).contents=state.contents++data :=
  (List.append_assoc ..).symm

/-- A flush counts no property. -/
theorem guacCommonJsonFlush_propertiesWritten (state : JsonState) :
    (guacCommonJsonFlush state).propertiesWritten=state.propertiesWritten := by
  unfold guacCommonJsonFlush
  split <;> rfl

/-- A function writes the given bytes from every state, and counts no property. -/
def Writes (step : JsonStep) (bytes : List UInt8) : Prop :=
  ∀ state, (step state).1.contents=state.contents++bytes ∧
    (step state).1.propertiesWritten=state.propertiesWritten

/-- One function after the other writes the bytes of both. -/
theorem Writes.andThen {first second : JsonStep} {bytes bytes' : List UInt8}
    (h : Writes first bytes) (h' : Writes second bytes') :
    Writes (first.andThen second) (bytes++bytes') := by
  intro state
  obtain ⟨hcontents,hcount⟩ := h state
  obtain ⟨hcontents',hcount'⟩ := h' (first state).1
  refine ⟨?_,hcount'.trans hcount⟩
  rw [JsonStep.andThen,hcontents',hcontents,List.append_assoc]

/-- As many bytes are written as the length says. -/
theorem writes_guacCommonJsonWrite (buffer : List UInt8) (length : ℤ) :
    Writes (guacCommonJsonWrite buffer length) (buffer.take length.toNat) := by
  intro state
  have htake : ∀ (buffer : List UInt8) (length : ℤ),
      buffer.take length.toNat=buffer.take (min length.toNat jsonBufferSize)++
        (buffer.drop (min length.toNat jsonBufferSize)).take
          (length-(min length.toNat jsonBufferSize : ℕ)).toNat := by
    intro buffer length
    rw [←List.take_add]
    congr 1
    omega
  induction buffer, length, state using guacCommonJsonWrite.induct with
  | case1 buffer length state hlength blobLength hblob hroom flushed ih =>
    rw [guacCommonJsonWrite,dif_pos hlength,dif_pos hroom]
    refine ⟨ih.1.trans ?_,ih.2.trans (guacCommonJsonFlush_propertiesWritten state)⟩
    rw [htake buffer,←List.append_assoc,JsonState.append_contents,guacCommonJsonFlush_contents]
  | case2 buffer length state hlength blobLength hblob hroom ih =>
    rw [guacCommonJsonWrite,dif_pos hlength,dif_neg hroom]
    refine ⟨ih.1.trans ?_,ih.2⟩
    rw [htake buffer,←List.append_assoc,JsonState.append_contents]
  | case3 buffer length state hlength =>
    rw [guacCommonJsonWrite,dif_neg hlength,Int.toNat_of_nonpos (not_lt.mp hlength)]
    exact ⟨(List.append_nil _).symm,rfl⟩

/-- No blob is written while the buffer has room. -/
theorem guacCommonJsonWrite_fits {buffer : List UInt8} {length : ℤ} {state : JsonState}
    (hpos : 0<length) (hfits : state.buffer.length+length.toNat≤jsonBufferSize) :
    (guacCommonJsonWrite buffer length state).2=false := by
  rw [guacCommonJsonWrite,dif_pos hpos,dif_neg (by omega),guacCommonJsonWrite,dif_neg (by omega)]

/-- The bytes of a run whose number an int has. -/
def writtenRun (run : List UInt8) : List UInt8 := run.take (wrap32 run.length).toNat

/-- The bytes of a run and of the string after it, each quote escaped. -/
def writtenFrom (run : List UInt8) : List UInt8→List UInt8
  | [] => writtenRun run
  | current::str =>
    if current=0 then writtenRun run
    else if current=0x22 then writtenRun run++0x5C::writtenFrom [current] str
    else writtenFrom (run++[current]) str

/-- The bytes of a property. -/
def writtenProperty (p : Member) : List UInt8 :=
  0x22::writtenFrom [] p.1++0x22::0x3A::0x22::writtenFrom [] p.2++[0x22]

/-- The bytes of properties before which some were written. -/
def writtenProperties : ℕ→List Member→List UInt8
  | _, [] => []
  | count, p::ps =>
    (if wrap32 count≠0 then [0x2C] else [])++writtenProperty p++writtenProperties (count+1) ps

theorem writes_writeRun (run : List UInt8) : Writes (writeRun run) (writtenRun run) := by
  unfold writeRun
  split
  · exact writes_guacCommonJsonWrite run _
  · next h =>
    rw [not_not.mp h]
    exact fun state => ⟨(List.append_nil _).symm,rfl⟩

theorem writes_writeStringFrom (run str : List UInt8) :
    Writes (writeStringFrom run str) (writtenFrom run str) := by
  induction str generalizing run with
  | nil => exact writes_writeRun run
  | cons current str ih =>
    rw [writeStringFrom,writtenFrom]
    split_ifs
    · exact writes_writeRun run
    · exact (writes_writeRun run).andThen ((writes_guacCommonJsonWrite [0x5C] 1).andThen (ih _))
    · exact ih _

theorem writes_guacCommonJsonWriteString (str : List UInt8) :
    Writes (guacCommonJsonWriteString str) (0x22::writtenFrom [] str++[0x22]) :=
  (writes_guacCommonJsonWrite [0x22] 1).andThen
    ((writes_writeStringFrom [] str).andThen (writes_guacCommonJsonWrite [0x22] 1))

/-- A property is written, after a comma unless the count of properties is zero. -/
theorem guacCommonJsonWriteProperty_contents (p : Member) {state : JsonState} {count : ℕ}
    (hcount : state.propertiesWritten=wrap32 count) :
    (guacCommonJsonWriteProperty p.1 p.2 state).1.contents=
        state.contents++((if wrap32 count≠0 then [0x2C] else [])++writtenProperty p) ∧
      (guacCommonJsonWriteProperty p.1 p.2 state).1.propertiesWritten=wrap32 (count+1 : ℕ) := by
  have hnext : wrap32 (wrap32 count+1)=wrap32 (count+1 : ℕ) := by
    unfold wrap32
    rw [Int.bmod_add_bmod,Nat.cast_add,Nat.cast_one]
  have hstrings := (writes_guacCommonJsonWriteString p.1).andThen
    ((writes_guacCommonJsonWrite [0x3A] 1).andThen (writes_guacCommonJsonWriteString p.2))
  have hcomma : ∃ b after, (if state.propertiesWritten≠0 then guacCommonJsonWrite [0x2C] 1 state
      else (state,false))=(after,b) ∧
      after.contents=state.contents++(if wrap32 count≠0 then [0x2C] else []) ∧
      after.propertiesWritten=wrap32 count := by
    rw [hcount]
    split_ifs
    · exact ⟨_,_,rfl,(writes_guacCommonJsonWrite [0x2C] 1 state).1,
        (writes_guacCommonJsonWrite [0x2C] 1 state).2.trans hcount⟩
    · exact ⟨_,_,rfl,(List.append_nil _).symm,hcount⟩
  obtain ⟨b,after,hafter,hcontents,hcount'⟩ := hcomma
  have hproperty := hstrings after
  rw [guacCommonJsonWriteProperty,JsonStep.andThen,hafter]
  constructor
  · refine hproperty.1.trans ?_
    rw [hcontents,List.append_assoc]
    simp [writtenProperty]
  · refine (congrArg (fun n => wrap32 (n+1)) (hproperty.2.trans hcount')).trans hnext

/-- Properties are written one after the other. -/
theorem writeProperties_contents (ps : List Member) {state : JsonState} {count : ℕ}
    (hcount : state.propertiesWritten=wrap32 count) :
    (writeProperties ps state).1.contents=state.contents++writtenProperties count ps := by
  induction ps generalizing state count with
  | nil => exact (List.append_nil _).symm
  | cons p ps ih =>
    obtain ⟨hcontents,hnext⟩ := guacCommonJsonWriteProperty_contents p hcount
    rw [writeProperties,writtenProperties,JsonStep.andThen,ih hnext,hcontents]
    simp only [List.append_assoc]

/-- The blobs of an object are what its braces and properties are written as. -/
theorem streamObject_blobs (pairs : List Member) : ∃ state, streamObject pairs=some state ∧
      state.blobs.flatten=0x7B::writtenProperties 0 pairs++[0x7D] := by
  have hbegin : ∃ begun, guacCommonJsonBeginObject=some begun ∧ begun.contents=[0x7B] ∧
      begun.propertiesWritten=wrap32 (0 : ℕ) := by
    have hwrites := writes_guacCommonJsonWrite [0x7B] 1 ⟨[],0,[],Nat.zero_le _,by simp⟩
    refine ⟨_,?_,hwrites⟩
    rw [guacCommonJsonBeginObject,guacCommonJsonWrite_fits (by decide) (by decide)]
    rfl
  obtain ⟨begun,hbegin,hcontents,hcount⟩ := hbegin
  refine ⟨_,congrArg (Option.map _) hbegin,?_⟩
  have hflushed : ∀ state : JsonState,
      (guacCommonJsonFlush state).blobs.flatten=state.contents := by
    intro state
    rw [←guacCommonJsonFlush_contents,JsonState.contents,guacCommonJsonFlush_buffer,List.append_nil]
  rw [hflushed,guacCommonJsonEndObject,(writes_guacCommonJsonWrite [0x7D] 1 _).1,
    writeProperties_contents pairs hcount,hcontents]
  rfl

/-! ## Strings that are written as JSON -/

/-- The runs in which a string is written after the bytes of the first. -/
def runsFrom (run : List UInt8) : List UInt8→List (List UInt8)
  | [] => [run]
  | current::str =>
    if current=0 then [run]
    else if current=0x22 then run::runsFrom [current] str
    else runsFrom (run++[current]) str

/-- The bytes need no escape but that of a quote. -/
def NeedsNoEscape (bytes : List UInt8) : Prop := ∀ b∈bytes, 0x20≤b.toNat ∧ b≠0x5C

/-- A run and the string after it have neither backslashes nor control
characters to escape, and the length of each run is that of an int. -/
structure WritesExactly (run str : List UInt8) : Prop where
  /-- The string needs no escape but that of a quote. -/
  noEscape : NeedsNoEscape (cString str)
  /-- The runs are written in full. -/
  runs : ∀ r∈runsFrom run str, r.length<2^31

/-- A text of Unicode without backslashes and control characters, whose runs
have the length of an int. -/
structure Plain (str : List UInt8) : Prop extends WritesExactly [] str where
  /-- The string is UTF-8. -/
  utf8 : ∃ text, cString str=utf8Encode text

/-- A run is written in full exactly if its length is that of an int. -/
theorem length_writtenRun (run : List UInt8) : (writtenRun run).length≤run.length ∧
    (run.length≤(writtenRun run).length ↔ run.length<2^31) := by
  have hlt := wrap32_lt run.length
  rw [writtenRun,List.length_take]
  refine ⟨Nat.min_le_right ..,fun h => ?_,fun h => ?_⟩
  · omega
  · rw [wrap32_of_range (by omega) (by omega)]
    omega

/-- What a run is written as is it, if its length is that of an int. -/
theorem writtenRun_eq {run : List UInt8} (h : run.length<2^31) : writtenRun run=run := by
  rw [writtenRun,wrap32_of_range (by omega) (by omega),Int.toNat_natCast,List.take_length]

theorem cString_zero (s : List UInt8) : cString (0::s)=[] := rfl

theorem cString_cons {b : UInt8} (h : b≠0) (s : List UInt8) : cString (b::s)=b::cString s :=
  List.takeWhile_cons_of_pos (by simpa using h)

theorem stringCost_cons (b : UInt8) (s : List UInt8) :
    stringCost (b::s)=byteCost b+stringCost s := by
  rw [stringCost,List.map_cons,List.sum_cons,stringCost]

/-- A byte takes one byte at least. -/
theorem byteCost_pos (b : UInt8) : 1≤byteCost b := by
  unfold byteCost
  split <;> decide

/-- A byte that takes no more than one is none that has to be escaped. -/
theorem byteCost_le_one {b : UInt8} (h : byteCost b≤1) : 0x20≤b.toNat ∧ b≠0x5C := by
  unfold byteCost at h
  split at h
  · exact absurd h (by decide)
  · next hb =>
    rw [not_or,not_or] at hb
    exact ⟨Nat.not_lt.mp hb.1,hb.2.2⟩

/-- A string is written with no more bytes than it takes, and with as many
exactly if nothing is lost and nothing else has to be escaped. -/
theorem length_writtenFrom (run str : List UInt8) :
    (writtenFrom run str).length≤run.length+stringCost (cString str) ∧
      (run.length+stringCost (cString str)≤(writtenFrom run str).length →
        WritesExactly run str) := by
  have hstop : (writtenRun run).length≤run.length+stringCost [] ∧
      (run.length+stringCost []≤(writtenRun run).length →
        NeedsNoEscape [] ∧ ∀ r∈[run], r.length<2^31) := by
    obtain ⟨hle,hiff⟩ := length_writtenRun run
    exact ⟨hle,fun h => ⟨fun b hb => absurd hb List.not_mem_nil,
      List.forall_mem_singleton.mpr (hiff.mp h)⟩⟩
  cases str with
  | nil => exact ⟨hstop.1,fun h => ⟨(hstop.2 h).1,(hstop.2 h).2⟩⟩
  | cons current str =>
    rw [writtenFrom]
    by_cases hzero : current=0
    · subst hzero
      rw [if_pos rfl,cString_zero]
      exact ⟨hstop.1,fun h => ⟨(hstop.2 h).1,(hstop.2 h).2⟩⟩
    rw [if_neg hzero,cString_cons hzero,stringCost_cons]
    by_cases hquote : current=0x22
    · subst hquote
      obtain ⟨hrun,hrun'⟩ := length_writtenRun run
      obtain ⟨hrest,hrest'⟩ := length_writtenFrom [0x22] str
      rw [List.length_singleton] at hrest hrest'
      have hcost : byteCost 0x22=2 := rfl
      rw [if_pos rfl,List.length_append,List.length_cons,hcost]
      refine ⟨by omega,fun h => ?_⟩
      obtain ⟨hescape,hruns⟩ := hrest' (by omega)
      constructor
      · rw [cString_cons hzero]
        exact List.forall_mem_cons.mpr ⟨by decide,hescape⟩
      · rw [runsFrom,if_neg hzero,if_pos rfl]
        exact List.forall_mem_cons.mpr ⟨hrun'.mp (by omega),hruns⟩
    · obtain ⟨hrest,hrest'⟩ := length_writtenFrom (run++[current]) str
      rw [List.length_append,List.length_singleton] at hrest hrest'
      have hcost := byteCost_pos current
      rw [if_neg hquote]
      refine ⟨by omega,fun h => ?_⟩
      obtain ⟨hescape,hruns⟩ := hrest' (by omega)
      constructor
      · rw [cString_cons hzero]
        exact List.forall_mem_cons.mpr ⟨byteCost_le_one (by omega),hescape⟩
      · rwa [runsFrom,if_neg hzero,if_neg hquote]

/-- Quotes are escaped. -/
def escaped (bytes : List UInt8) : List UInt8 :=
  bytes.flatMap fun b => if b=0x22 then [0x5C,b] else [b]

/-- A string is written in full with its quotes escaped if its runs are. -/
theorem writtenFrom_eq {run str : List UInt8} (h : ∀ r∈runsFrom run str, r.length<2^31) :
    writtenFrom run str=run++escaped (cString str) := by
  have hstop : ∀ {run : List UInt8}, run.length<2^31 → writtenRun run=run++escaped [] :=
    fun h => (writtenRun_eq h).trans (List.append_nil _).symm
  induction str generalizing run with
  | nil => exact hstop (h run (List.mem_singleton_self _))
  | cons current str ih =>
    rw [runsFrom] at h
    rw [writtenFrom]
    by_cases hzero : current=0
    · rw [if_pos hzero] at h
      rw [if_pos hzero,hzero,cString_zero]
      exact hstop (h run (List.mem_singleton_self _))
    rw [if_neg hzero] at h
    rw [if_neg hzero,cString_cons hzero,escaped,List.flatMap_cons]
    by_cases hquote : current=0x22
    · rw [if_pos hquote] at h
      obtain ⟨hrun,hruns⟩ := List.forall_mem_cons.mp h
      rw [if_pos hquote,if_pos hquote,writtenRun_eq hrun,ih hruns]
      rfl
    · rw [if_neg hquote] at h
      rw [if_neg hquote,if_neg hquote,ih h,List.append_assoc]
      rfl

/-- A text without backslashes and control characters is read back from what it
is escaped to. -/
theorem jsonChars_escaped {text : List Char} (h : NeedsNoEscape (utf8Encode text))
    (rest : List UInt8) : JsonChars (escaped (utf8Encode text)++rest) text rest := by
  induction text with
  | nil => exact JsonChars.nil rest
  | cons c text ih =>
    rw [utf8Encode,List.flatMap_cons] at h ⊢
    obtain ⟨hc,htext⟩ := List.forall_mem_append.mp h
    rw [escaped,List.flatMap_append,List.append_assoc]
    refine JsonChars.cons ?_ (ih htext)
    by_cases hquote : c = '"'
    · subst hquote
      exact JsonChar.simple rfl _
    have hascii : c.val.toNat≤0x7F→String.utf8EncodeChar c=[UInt8.ofNat c.val.toNat] :=
      fun h => if_pos h
    have hcontrol : 0x20≤c.val.toNat := by
      by_contra hlow
      have hb := (hc (UInt8.ofNat c.val.toNat) (by rw [hascii (by omega)]; simp)).1
      rw [UInt8.toNat_ofNat'] at hb
      omega
    have hbackslash : c ≠ '\\' := by
      rintro rfl
      exact (hc 0x5C (List.mem_singleton_self _)).2 rfl
    have hplain := utf8EncodeChar_plain hcontrol hquote hbackslash
    have hescaped : escaped (String.utf8EncodeChar c)=String.utf8EncodeChar c := by
      rw [escaped,List.flatMap_congr fun b hb => if_neg (hplain b hb).2.1,List.flatMap_singleton']
    rw [escaped] at hescaped
    rw [hescaped]
    exact JsonChar.unescaped hcontrol hquote hbackslash _

/-- The strings of a pair up to their terminators. -/
def cStrings (p : Member) : Member := (cString p.1,cString p.2)

/-- A string is read back from what it is written as, if it is plain. -/
theorem jsonString_written {str : List UInt8} (h : Plain str) (rest : List UInt8) :
    JsonString (0x22::writtenFrom [] str++0x22::rest) (cString str) rest := by
  obtain ⟨text,htext⟩ := h.utf8
  have hescape := h.noEscape
  rw [writtenFrom_eq h.runs,htext]
  rw [htext] at hescape
  exact JsonString.quoted (jsonChars_escaped hescape _)

/-- A property is read back from what it is written as, if its strings are plain. -/
theorem jsonMember_written {p : Member} (h : Plain p.1) (h' : Plain p.2) (rest : List UInt8) :
    JsonMember (writtenProperty p++rest) (cStrings p) rest := by
  have hname := jsonString_written h (0x3A::0x22::writtenFrom [] p.2++0x22::rest)
  have hvalue := jsonString_written h' rest
  have hpair := JsonMember.pair (Whitespace.nil _) hname (Whitespace.nil _) (Whitespace.nil _)
    hvalue (Whitespace.nil rest)
  simpa [writtenProperty,cStrings] using hpair

/-- Properties after the first are read back, if their strings are plain and the
count of properties does not get zero again. -/
theorem jsonMembers_written {p : Member} {ps : List Member} {count : ℕ}
    (hplain : ∀ q∈p::ps, Plain q.1 ∧ Plain q.2)
    (hcount : ∀ n<ps.length, wrap32 (count+n : ℕ)≠0) (rest : List UInt8) :
    JsonMembers (writtenProperty p++writtenProperties count ps++0x7D::rest)
      ((p::ps).map cStrings) (0x7D::rest) := by
  induction ps generalizing p count with
  | nil =>
    obtain ⟨hname,hvalue⟩ := hplain p (List.mem_cons_self ..)
    rw [writtenProperties,List.append_nil]
    exact JsonMembers.single (jsonMember_written hname hvalue _)
  | cons q ps ih =>
    obtain ⟨⟨hname,hvalue⟩,hplain⟩ := List.forall_mem_cons.mp hplain
    have hlater : ∀ n<ps.length, wrap32 (count+1+n : ℕ)≠0 := fun n hn => by
      rw [Nat.add_right_comm]
      exact hcount (n+1) (Nat.succ_lt_succ hn)
    have hrest := ih hplain hlater
    have hcomma : wrap32 count≠0 := hcount 0 (Nat.zero_lt_succ _)
    have htext : writtenProperty p++writtenProperties count (q::ps)++0x7D::rest=writtenProperty p++
          0x2C::(writtenProperty q++writtenProperties (count+1) ps++0x7D::rest) := by
      rw [writtenProperties,if_pos hcomma]
      simp only [List.append_assoc,List.cons_append,List.nil_append]
    rw [htext]
    exact JsonMembers.cons (jsonMember_written hname hvalue _) hrest

/-- A property is written with no more bytes than it takes, and with as many only
if nothing is lost and nothing else has to be escaped. -/
theorem length_writtenProperty (p : Member) : (writtenProperty p).length ≤ memberCost (cStrings p) ∧
      (memberCost (cStrings p)≤(writtenProperty p).length →
        WritesExactly [] p.1 ∧ WritesExactly [] p.2) := by
  obtain ⟨hname,hname'⟩ := length_writtenFrom [] p.1
  obtain ⟨hvalue,hvalue'⟩ := length_writtenFrom [] p.2
  rw [List.length_nil,Nat.zero_add] at hname hname' hvalue hvalue'
  have hlength : (writtenProperty p).length=
      (writtenFrom [] p.1).length+(writtenFrom [] p.2).length+5 := by
    simp only [writtenProperty,List.length_cons,List.length_append,List.length_nil]
    omega
  rw [hlength,memberCost,cStrings]
  dsimp only
  exact ⟨by omega,fun h => ⟨hname' (by omega),hvalue' (by omega)⟩⟩

/-- Properties are written with no more bytes than they take, and with as many
only if nothing is lost, no comma is missing and nothing else has to be escaped. -/
theorem length_writtenProperties (count : ℕ) (ps : List Member) :
    (writtenProperties count ps).length≤((ps.map cStrings).map memberCost).sum+ps.length ∧
      (((ps.map cStrings).map memberCost).sum+ps.length≤(writtenProperties count ps).length →
        (∀ n<ps.length, wrap32 (count+n : ℕ)≠0) ∧
          ∀ p∈ps, WritesExactly [] p.1 ∧ WritesExactly [] p.2) := by
  induction ps generalizing count with
  | nil => exact ⟨Nat.le_refl _,fun _ => ⟨fun n hn => absurd hn (Nat.not_lt_zero n),
      fun p hp => absurd hp List.not_mem_nil⟩⟩
  | cons p ps ih =>
    obtain ⟨hp,hp'⟩ := length_writtenProperty p
    obtain ⟨hps,hps'⟩ := ih (count+1)
    have hcomma : (if wrap32 count≠0 then [(0x2C : UInt8)] else []).length≤1 ∧
        (1≤(if wrap32 count≠0 then [(0x2C : UInt8)] else []).length → wrap32 count≠0) := by
      split_ifs with h
      · exact ⟨Nat.le_refl _,fun _ => h⟩
      · exact ⟨Nat.zero_le _,fun h => absurd h (by decide)⟩
    rw [writtenProperties,List.length_append,List.length_append,List.map_cons,List.map_cons,
      List.sum_cons,List.length_cons]
    refine ⟨by omega,fun h => ?_⟩
    obtain ⟨hcount,hstrings⟩ := hps' (by omega)
    refine ⟨fun n hn => ?_,List.forall_mem_cons.mpr ⟨hp' (by omega),hstrings⟩⟩
    cases n with
    | zero => exact hcomma.2 (by omega)
    | succ n =>
      have hnext := hcount n (Nat.lt_of_succ_lt_succ hn)
      rwa [Nat.add_right_comm] at hnext

/-- The first property is written without a comma. -/
theorem writtenProperties_first (p : Member) (ps : List Member) :
    writtenProperties 0 (p::ps)=writtenProperty p++writtenProperties 1 ps := by
  rw [writtenProperties,if_neg (by decide)]
  rfl

/-- No count of properties gets zero again before 2^32 of them are written. -/
theorem wrap32_ne_zero_iff (n : ℕ) : (∀ m<n, wrap32 (1+m : ℕ)≠0) ↔ n<2^32 := by
  constructor
  · intro h
    by_contra hn
    exact h (2^32-1) (by omega) (by decide)
  · intro hn m hm hzero
    unfold wrap32 at hzero
    rw [←Int.emod_bmod,Int.emod_eq_of_lt (by omega) (by omega),Int.bmod_def] at hzero
    split_ifs at hzero <;> omega

/-- The pairs are streamed as blobs that fit the buffer, and all of these
together are an object of these pairs and of no others. -/
def Faithful (pairs : List Member) : Prop :=
  ∃ state, streamObject pairs=some state ∧ (∀ blob∈state.blobs, blob.length≤jsonBufferSize) ∧
    ∀ ms, JsonObject state.blobs.flatten ms ↔ ms=pairs.map cStrings

/-- What is streamed is no object of the pairs if a string is not plain or a
comma is missing. -/
theorem plain_of_jsonObject {pairs : List Member}
    (h : JsonObject (0x7B::writtenProperties 0 pairs++[0x7D]) (pairs.map cStrings)) :
    pairs.length≤2^32 ∧ ∀ p∈pairs, Plain p.1 ∧ Plain p.2 := by
  cases pairs with
  | nil => exact ⟨Nat.zero_le _,fun p hp => absurd hp List.not_mem_nil⟩
  | cons p ps =>
    have hcost := h.cost_le
    obtain ⟨hp,hp'⟩ := length_writtenProperty p
    obtain ⟨hps,hps'⟩ := length_writtenProperties 1 ps
    rw [writtenProperties_first,List.map_cons,List.map_cons,List.sum_cons,List.length_cons,
      List.length_map,List.length_append,List.length_cons,List.length_append,
      List.length_singleton] at hcost
    obtain ⟨hcount,hstrings⟩ := hps' (by omega)
    have hexact : ∀ q∈p::ps, WritesExactly [] q.1 ∧ WritesExactly [] q.2 :=
      List.forall_mem_cons.mpr ⟨hp' (by omega),hstrings⟩
    refine ⟨?_,fun q hq => ?_⟩
    · exact (wrap32_ne_zero_iff ps.length).mp hcount
    · obtain ⟨hname,hvalue⟩ := h.utf8 (cStrings q) (List.mem_map_of_mem hq)
      exact ⟨⟨(hexact q hq).1,hname⟩,⟨(hexact q hq).2,hvalue⟩⟩

/-- What is streamed of plain strings is an object of the pairs. -/
theorem jsonObject_of_plain {pairs : List Member} (hlength : pairs.length≤2^32)
    (hplain : ∀ p∈pairs, Plain p.1 ∧ Plain p.2) :
    JsonObject (0x7B::writtenProperties 0 pairs++[0x7D]) (pairs.map cStrings) := by
  cases pairs with
  | nil => exact JsonObject.empty (Whitespace.nil _) (Whitespace.nil _) (Whitespace.nil _)
  | cons p ps =>
    rw [List.length_cons] at hlength
    have hmembers := jsonMembers_written hplain
      ((wrap32_ne_zero_iff ps.length).mpr (Nat.lt_of_succ_le hlength)) []
    rw [writtenProperties_first]
    exact JsonObject.members (Whitespace.nil _) hmembers (Whitespace.nil _)

/-- An object is streamed faithfully exactly if its strings are texts of Unicode
without backslashes and control characters, no run of which is too long for an
int, and no more than 2^32 properties are counted. -/
theorem streamObject_faithful_iff (pairs : List Member) :
    Faithful pairs ↔ pairs.length≤2^32 ∧ ∀ p∈pairs, Plain p.1 ∧ Plain p.2 := by
  obtain ⟨state,hstate,hblobs⟩ := streamObject_blobs pairs
  constructor
  · rintro ⟨state',hstate',-,hobject⟩
    rw [hstate] at hstate'
    cases hstate'
    rw [hblobs] at hobject
    exact plain_of_jsonObject ((hobject _).mpr rfl)
  · rintro ⟨hlength,hplain⟩
    have hobject := jsonObject_of_plain hlength hplain
    refine ⟨state,hstate,state.blobsFit,fun ms => ?_⟩
    rw [hblobs]
    constructor
    · exact fun h => h.unique hobject
    · rintro rfl
      exact hobject

/-- A value that is a backslash is not streamed faithfully. -/
theorem streamObject_backslash : ¬Faithful [(ascii "name", [0x5C])] := by
  rintro ⟨state',hstate',-,hobject⟩
  obtain ⟨state,hstate,hblobs⟩ := streamObject_blobs [(ascii "name", [0x5C])]
  rw [hstate] at hstate'
  cases hstate'
  rw [hblobs] at hobject
  have hplain := (plain_of_jsonObject ((hobject _).mpr rfl)).2 _ (List.mem_singleton_self _)
  exact (hplain.2.noEscape 0x5C (by decide)).2 rfl

end GuacServer.JsonStream
