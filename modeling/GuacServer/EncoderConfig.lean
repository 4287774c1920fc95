import GuacServer.PathResolution
import GuacServer.UserHandlers

/-!
# The configuration of an encoder job

A client of the encoder service sends the configuration of its job as JSON. What is stored of
it is cut off at the ends of the fields, and a connection that is closed or fails before
anything is received leaves the configuration as it was. In the end the configuration becomes
a command line, which is split at spaces again. cJSON is a parameter, and strings are without
their null terminators.
-/

namespace GuacServer.EncoderConfig

open List PathResolution Unicode UserHandlers

/-- cJSON, as far as its items are told apart. -/
inductive CJson
  /-- A string. -/
  | text (valuestring : List UInt8)
  /-- An object, with its items in order. -/
  | object (items : List (List UInt8×CJson))
  /-- Any other value. -/
  | other

/-- tolower() of a byte. -/
def toLower (c : UInt8) : UInt8 := if 65≤c ∧ c≤90 then c+32 else c

/-- cJSON_GetObjectItem. -/
def cJSONGetObjectItem (object : CJson) (string : List UInt8) : Option CJson :=
  match object with
  | .object items =>
    (items.find? fun item => item.1.map toLower == string.map toLower).map Prod.snd
  | _ => none

/-- struct VideoConfig, without the mode, which is not set. -/
structure VideoConfig where
  width : ℤ
  height : ℤ
  bitrate : ℤ
  codec : List UInt8
  sid : List UInt8
  path : List UInt8
  outfile : List UInt8
  tmpfile : List UInt8
  recordingfile : List UInt8

/-- The sizes of the fields of a configuration. -/
def sizeofField : ℕ := 256

/-- The size of the buffer for what is received. -/
def sizeofBuffer : ℕ := 2048

/-- What snprintf stores of a text. -/
def snprintf (size : ℕ) (text : List UInt8) : List UInt8 := text.take (size-1)

/-- The string of an item of an object. -/
def stringItem (root : CJson) (name : String) : Option (List UInt8) :=
  match cJSONGetObjectItem root (ascii name) with
  | some (.text valuestring) => some valuestring
  | _ => none

/-- job_cjson_parse_root, which has no result if it fails. -/
def jobCjsonParseRoot (config : VideoConfig) (root : CJson) : Option VideoConfig := do
  let item ← stringItem root "width"
  let config := { config with width := atoi item }
  let item ← stringItem root "height"
  let config := { config with height := atoi item }
  let item ← stringItem root "bitrate"
  let config := { config with bitrate := atoi item }
  let item ← stringItem root "sid"
  let config := { config with sid := snprintf sizeofField item }
  let item ← stringItem root "path"
  let config := { config with path := snprintf sizeofField item }
  let item ← stringItem root "recordingfile"
  some { config with recordingfile := snprintf sizeofField item }

/-- What select() and read() return. -/
inductive Received
  /-- Nothing was there to be read in time, or select() failed. -/
  | notReady
  /-- read() failed. -/
  | failed
  | endOfStream
  | bytes (bytes : List UInt8) (nonempty : bytes≠[]) (size : bytes.length ≤ sizeofBuffer)

/-- What follows in job_recv_video_config once the configuration was received. -/
def VideoConfig.finished (config : VideoConfig) : VideoConfig :=
  { config with
    codec := ascii "mpeg4"
    tmpfile := snprintf sizeofField (config.path++47::(config.sid++ascii ".m4v"))
    outfile := snprintf sizeofField (config.path++47::(config.sid++ascii ".mp4")) }

/-- What job_recv_video_config returns: 0 with a configuration, or -1, and the configuration is
freed. -/
inductive Answer
  | zero (config : VideoConfig)
  | minusOne

/-- job_recv_video_config, with what the memory of the configuration held. A string that does
not end within the buffer has no result. -/
def jobRecvVideoConfig (cJSONParse : List UInt8→Option CJson) (received : Received)
    (config : VideoConfig) : Option Answer :=
  match received with
  | .notReady => some .minusOne
  | .failed | .endOfStream => some (.zero config.finished)
  | .bytes bytes _ _ =>
    let buffer := bytes++List.replicate (sizeofBuffer-bytes.length) 0
    if 0∈buffer then
      match cJSONParse (cString buffer) with
      | none => some .minusOne
      | some root =>
        match jobCjsonParseRoot config root with
        | none => some .minusOne
        | some config => some (.zero config.finished)
    else none

/-! ## Complete configurations -/

/-- The strings that a configuration is made from. -/
structure Request where
  width : List UInt8
  height : List UInt8
  bitrate : List UInt8
  sid : List UInt8
  path : List UInt8
  recordingfile : List UInt8

/-- An object provides all of these strings. -/
structure Provides (root : CJson) (request : Request) : Prop where
  width : stringItem root "width" = some request.width
  height : stringItem root "height" = some request.height
  bitrate : stringItem root "bitrate" = some request.bitrate
  sid : stringItem root "sid" = some request.sid
  path : stringItem root "path" = some request.path
  recordingfile : stringItem root "recordingfile" = some request.recordingfile

/-- What was received ends within the buffer, and is JSON that provides all strings. -/
def Asks (cJSONParse : List UInt8→Option CJson) (received : Received) (request : Request) : Prop :=
  ∃ bytes nonempty size, received=.bytes bytes nonempty size ∧
    (0∈bytes ∨ bytes.length<sizeofBuffer) ∧
    ∃ root, cJSONParse (cString bytes)=some root ∧ Provides root request

/-- The file of a job with some extension. -/
def Request.file (request : Request) (extension : String) : List UInt8 :=
  request.path++47::(request.sid++ascii extension)

/-- The numbers of a request are positive. -/
structure Request.Positive (request : Request) : Prop where
  width : 0<atoi request.width
  height : 0<atoi request.height
  bitrate : 0<atoi request.bitrate

/-- A configuration stores all of a request. -/
structure Stores (request : Request) (config : VideoConfig) : Prop where
  width : config.width=atoi request.width
  height : config.height=atoi request.height
  bitrate : config.bitrate=atoi request.bitrate
  sid : config.sid=request.sid
  path : config.path=request.path
  recordingfile : config.recordingfile=request.recordingfile
  tmpfile : config.tmpfile=request.file ".m4v"
  outfile : config.outfile=request.file ".mp4"

/-- A configuration is complete: it stores all of a request that was received, with positive
numbers. -/
def Complete (cJSONParse : List UInt8→Option CJson) (received : Received)
    (config : VideoConfig) : Prop :=
  ∃ request, Asks cJSONParse received request ∧ request.Positive ∧ Stores request config

/-- The configuration is complete and zero is returned, or what was received makes no complete
one and minus one is returned. -/
def CompleteOrRejected (cJSONParse : List UInt8→Option CJson) (received : Received)
    (config : VideoConfig) : Prop :=
  match jobRecvVideoConfig cJSONParse received config with
  | some (.zero stored) => Complete cJSONParse received stored
  | some .minusOne => ∀ stored, ¬Complete cJSONParse received stored
  | none => False

/-- The strings of a request find room in the fields of a configuration. -/
structure Request.Fits (request : Request) : Prop where
  sid : request.sid.length<sizeofField
  path : request.path.length<sizeofField
  recordingfile : request.recordingfile.length<sizeofField
  files : request.path.length+request.sid.length+5<sizeofField

/-- Either there was nothing to read, or bytes that end within the buffer were read, and if they
provide all strings, the numbers are positive and the strings fit. -/
def WellAsked (cJSONParse : List UInt8→Option CJson) : Received→Prop
  | .notReady => True
  | .failed | .endOfStream => False
  | .bytes bytes _ _ => (0∈bytes ∨ bytes.length<sizeofBuffer) ∧
    ∀ root, cJSONParse (cString bytes)=some root→∀ request, Provides root request →
      request.Positive ∧ request.Fits

/-- What is stored of a request. -/
def Request.stored (request : Request) (config : VideoConfig) : VideoConfig :=
  { config with
    width := atoi request.width
    height := atoi request.height
    bitrate := atoi request.bitrate
    sid := snprintf sizeofField request.sid
    path := snprintf sizeofField request.path
    recordingfile := snprintf sizeofField request.recordingfile }

variable {cJSONParse : List UInt8→Option CJson} {config : VideoConfig} {root : CJson}
variable {request : Request}

/-- The root is accepted if it provides all strings, which are stored then. -/
theorem jobCjsonParseRoot_eq_some_iff {stored : VideoConfig} :
    jobCjsonParseRoot config root=some stored ↔
      ∃ request, Provides root request ∧ stored=request.stored config := by
  constructor
  · intro h
    obtain ⟨width,hwidth,h⟩ := Option.bind_eq_some_iff.mp h
    obtain ⟨height,hheight,h⟩ := Option.bind_eq_some_iff.mp h
    obtain ⟨bitrate,hbitrate,h⟩ := Option.bind_eq_some_iff.mp h
    obtain ⟨sid,hsid,h⟩ := Option.bind_eq_some_iff.mp h
    obtain ⟨path,hpath,h⟩ := Option.bind_eq_some_iff.mp h
    obtain ⟨recordingfile,hrecordingfile,h⟩ := Option.bind_eq_some_iff.mp h
    exact ⟨⟨width,height,bitrate,sid,path,recordingfile⟩,
      ⟨hwidth,hheight,hbitrate,hsid,hpath,hrecordingfile⟩,(Option.some.inj h).symm⟩
  · rintro ⟨request,hprovides,rfl⟩
    unfold jobCjsonParseRoot
    rw [hprovides.width,hprovides.height,hprovides.bitrate,hprovides.sid,hprovides.path,
      hprovides.recordingfile]
    rfl

theorem Provides.unique {other : Request} (h : Provides root request)
    (hother : Provides root other) : request=other := by
  obtain ⟨width,height,bitrate,sid,path,recordingfile⟩ := request
  obtain ⟨width',height',bitrate',sid',path',recordingfile'⟩ := other
  cases h.width.symm.trans hother.width
  cases h.height.symm.trans hother.height
  cases h.bitrate.symm.trans hother.bitrate
  cases h.sid.symm.trans hother.sid
  cases h.path.symm.trans hother.path
  cases h.recordingfile.symm.trans hother.recordingfile
  rfl

theorem snprintf_eq_iff {size : ℕ} (hsize : 0<size) {text : List UInt8} :
    snprintf size text=text ↔ text.length<size := by
  rw [snprintf,take_eq_self_iff]
  omega

/-- All of a request is stored exactly if it fits. -/
theorem stores_iff_fits : Stores request (request.stored config).finished ↔ request.Fits := by
  have hsize : 0<sizeofField := by decide
  have hlength : ∀ extension : String, (ascii extension).length=4 →
      (request.file extension).length=request.path.length+request.sid.length+5 := by
    intro extension hextension
    rw [Request.file,length_append,length_cons,length_append,hextension]
    omega
  constructor
  · intro h
    have hsid := h.sid
    have hpath := h.path
    have htmpfile := h.tmpfile
    dsimp only [VideoConfig.finished,Request.stored] at hsid hpath htmpfile
    rw [hsid,hpath] at htmpfile
    refine ⟨(snprintf_eq_iff hsize).mp hsid,(snprintf_eq_iff hsize).mp hpath,
      (snprintf_eq_iff hsize).mp h.recordingfile,?_⟩
    have hfile := (snprintf_eq_iff hsize).mp htmpfile
    rwa [←Request.file,hlength ".m4v" rfl] at hfile
  · intro h
    have hsid := (snprintf_eq_iff hsize).mpr h.sid
    have hpath := (snprintf_eq_iff hsize).mpr h.path
    refine ⟨rfl,rfl,rfl,hsid,hpath,(snprintf_eq_iff hsize).mpr h.recordingfile,?_,?_⟩
    · dsimp only [VideoConfig.finished,Request.stored]
      rw [hsid,hpath,←Request.file,snprintf_eq_iff hsize,hlength ".m4v" rfl]
      exact h.files
    · dsimp only [VideoConfig.finished,Request.stored]
      rw [hsid,hpath,←Request.file,snprintf_eq_iff hsize,hlength ".mp4" rfl]
      exact h.files

variable {bytes : List UInt8}

/-- The buffer holds the string that was received, and it ends there if that does or leaves
room. -/
theorem buffer_string (h : bytes.length ≤ sizeofBuffer) :
    cString (bytes++List.replicate (sizeofBuffer-bytes.length) 0)=cString bytes ∧
      (0∈bytes++List.replicate (sizeofBuffer-bytes.length) 0 ↔
        0∈bytes ∨ bytes.length<sizeofBuffer) := by
  rcases Nat.lt_or_eq_of_le h with hless | hfull
  · obtain ⟨rest,hrest⟩ := Nat.exists_eq_add_of_lt hless
    have hroom : sizeofBuffer-bytes.length=rest+1 := by omega
    rw [hroom,replicate_succ]
    refine ⟨cString_terminated ..,iff_of_true ?_ (Or.inr hless)⟩
    exact mem_append_right _ (mem_cons_self ..)
  · rw [hfull,Nat.sub_self,replicate_zero,append_nil]
    exact ⟨rfl,(or_iff_left (lt_irrefl _)).symm⟩

/-- What a request of bytes asks for. -/
theorem asks_bytes_iff {nonempty : bytes≠[]}
    {size : bytes.length ≤ sizeofBuffer} :
    Asks cJSONParse (.bytes bytes nonempty size) request ↔ (0∈bytes ∨ bytes.length<sizeofBuffer) ∧
        ∃ root, cJSONParse (cString bytes)=some root ∧ Provides root request := by
  constructor
  · rintro ⟨_,_,_,hsame,h⟩
    cases hsame
    exact h
  · exact fun h => ⟨bytes,nonempty,size,rfl,h⟩

/-- Nothing is complete without a request. -/
theorem not_complete_of_not_asks {received : Received}
    (h : ∀ request, ¬Asks cJSONParse received request) (config : VideoConfig) :
    ¬Complete cJSONParse received config :=
  fun ⟨request,hasks,_⟩ => h request hasks

/-- What is stored of a request is complete exactly if its numbers are positive and it fits. -/
theorem complete_stored_iff {received : Received}
    (hasks : ∀ other, Asks cJSONParse received other ↔ Provides root other)
    (h : Provides root request) :
    Complete cJSONParse received (request.stored config).finished ↔
      ∀ other, Provides root other → other.Positive ∧ other.Fits := by
  constructor
  · rintro ⟨asked,hasked,hpositive,hstores⟩ other hother
    obtain rfl := h.unique ((hasks asked).mp hasked)
    obtain rfl := h.unique hother
    exact ⟨hpositive,stores_iff_fits.mp hstores⟩
  · intro hall
    obtain ⟨hpositive,hfits⟩ := hall request h
    exact ⟨request,(hasks request).mpr h,hpositive,stores_iff_fits.mpr hfits⟩

/-- A message that ends within the buffer makes a complete configuration or is rejected exactly
if what it provides is positive and fits. -/
theorem completeOrRejected_bytes_iff {nonempty : bytes≠[]}
    {size : bytes.length ≤ sizeofBuffer} (hended : 0∈bytes ∨ bytes.length<sizeofBuffer) :
    CompleteOrRejected cJSONParse (.bytes bytes nonempty size) config ↔
      ∀ root, cJSONParse (cString bytes)=some root→∀ request, Provides root request →
        request.Positive ∧ request.Fits := by
  obtain ⟨hstring,hends⟩ := buffer_string size
  unfold CompleteOrRejected jobRecvVideoConfig
  dsimp only
  rw [hstring,if_pos (hends.mpr hended)]
  cases hparse : cJSONParse (cString bytes) with
  | none =>
    refine iff_of_true (not_complete_of_not_asks fun request hasks => ?_) (by simp)
    obtain ⟨-,root,hroot,-⟩ := asks_bytes_iff.mp hasks
    cases hparse.symm.trans hroot
  | some root =>
    have hasks : ∀ other, Asks cJSONParse (.bytes bytes nonempty size) other ↔
        Provides root other := by
      intro other
      rw [asks_bytes_iff,and_iff_right hended,hparse]
      simp
    simp only [Option.some.injEq,forall_eq']
    cases hstored : jobCjsonParseRoot config root with
    | none =>
      have hnone : ∀ request, ¬Provides root request := by
        intro request hprovides
        cases hstored.symm.trans (jobCjsonParseRoot_eq_some_iff.mpr ⟨request,hprovides,rfl⟩)
      refine iff_of_true ?_ fun request hprovides => absurd hprovides (hnone request)
      exact not_complete_of_not_asks fun request hasked => hnone request ((hasks request).mp hasked)
    | some stored =>
      obtain ⟨request,hprovides,rfl⟩ := jobCjsonParseRoot_eq_some_iff.mp hstored
      exact complete_stored_iff hasks hprovides

/-- Where nothing is received, nothing is asked for. -/
theorem not_asks_notReady (request : Request) : ¬Asks cJSONParse .notReady request := by
  rintro ⟨_,_,_,hsame,-⟩
  cases hsame

theorem not_asks_failed (request : Request) : ¬Asks cJSONParse .failed request := by
  rintro ⟨_,_,_,hsame,-⟩
  cases hsame

theorem not_asks_endOfStream (request : Request) : ¬Asks cJSONParse .endOfStream request := by
  rintro ⟨_,_,_,hsame,-⟩
  cases hsame

end GuacServer.EncoderConfig
