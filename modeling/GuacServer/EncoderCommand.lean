import GuacServer.EncoderConfig

/-!
# The command line of the transcoder

job_call_ffmpeg_for_video prints a command line into a buffer, and job_exec splits it at spaces
into the arguments of ffmpeg. Both take the names of the files from the configuration of the
job.
-/

namespace GuacServer.EncoderConfig

open List PathResolution Unicode

/-- The size of the buffer for the command line. -/
def sizeofCommand : ℕ := 512

/-- The size of argv in job_exec. -/
def sizeofArgv : ℕ := 64

/-- The command line in job_call_ffmpeg_for_video. -/
def command (config : VideoConfig) : List UInt8 :=
  snprintf sizeofCommand (ascii "/usr/local/bin/ffmpeg -i " ++ (config.tmpfile++32::config.outfile))

/-- The tokens that strtok finds between spaces. -/
def tokens (cmd : List UInt8) : List (List UInt8) := (cmd.splitOnP (· == 32)).filter (· ≠ [])

/-- The arguments that job_exec passes to execvp, without the null pointer behind them. A store
outside of argv has no result. -/
def jobExec (command : List UInt8) : Option (List (List UInt8)) :=
  if (tokens command).length+1 ≤ sizeofArgv then some (tokens command) else none

/-- ffmpeg is called with the two files of a configuration. -/
def CallsFfmpeg (config : VideoConfig) : Prop :=
  jobExec (command config)=
    some [ascii "/usr/local/bin/ffmpeg", ascii "-i", config.tmpfile, config.outfile]

/-- Neither name has a space, and the command line with both files is not cut off. -/
structure Plain (config : VideoConfig) : Prop where
  path : 32 ∉ config.path
  sid : 32 ∉ config.sid
  length : config.path.length+config.sid.length≤237

/-! ## Tokens -/

/-- The tokens on both sides of a space. -/
theorem tokens_append (a b : List UInt8) : tokens (a++32::b)=tokens a++tokens b := by
  unfold tokens
  rw [splitOnP_append_cons _ _ rfl,filter_append]

/-- What has no space is a token, unless it is empty. -/
theorem tokens_of_not_mem {a : List UInt8} (h : 32 ∉ a) : tokens a=if a=[] then [] else [a] := by
  unfold tokens
  have hwhole : ∀ c∈a, (c == 32)=false := by
    intro c hc
    refine beq_false_of_ne fun hspace => h ?_
    rwa [←hspace]
  rw [splitOnP_eq_singleton hwhole]
  split_ifs with hempty
  · rw [hempty]
    rfl
  · exact filter_cons_of_pos (by simpa using hempty)

/-- No token has a space. -/
theorem not_mem_of_mem_tokens {cmd token : List UInt8} (h : token∈tokens cmd) : 32 ∉ token := by
  intro hspace
  have hpart := (of_mem_splitOnP (mem_filter.mp h).1 32 hspace).2
  exact absurd hpart (by decide)

/-- The command line has room for the first file, and for a part of the second one. -/
theorem command_eq {config : VideoConfig} (h : config.tmpfile.length<sizeofField) :
    command config=ascii "/usr/local/bin/ffmpeg" ++ 32::(ascii "-i" ++ 32::(config.tmpfile++
      32::config.outfile.take (485-config.tmpfile.length))) := by
  have hsize : sizeofField=256 := rfl
  have hstart : (ascii "/usr/local/bin/ffmpeg -i " ++ (config.tmpfile++[32])).length=
      26+config.tmpfile.length := by
    have hprogram : (ascii "/usr/local/bin/ffmpeg -i ").length=25 := by decide
    rw [length_append,length_append,length_singleton,hprogram]
    omega
  have hcut : sizeofCommand-1-(26+config.tmpfile.length)=485-config.tmpfile.length := by
    rw [sizeofCommand]
    omega
  have hline : ascii "/usr/local/bin/ffmpeg -i " ++ (config.tmpfile++32::config.outfile)=
      ascii "/usr/local/bin/ffmpeg -i " ++ (config.tmpfile++[32])++config.outfile := by
    rw [append_assoc,append_assoc]
    rfl
  rw [command,snprintf,hline,take_append,hstart,hcut,take_of_length_le]
  · rw [append_assoc,append_assoc]
    rfl
  · rw [hstart,sizeofCommand]
    omega

/-- ffmpeg is called with the files exactly if they have no spaces and both have room in the
command line. -/
theorem callsFfmpeg_iff_files {config : VideoConfig} (h : config.tmpfile.length<sizeofField)
    (htmpfile : config.tmpfile≠[]) (houtfile : config.outfile≠[]) :
    CallsFfmpeg config ↔ (32 ∉ config.tmpfile ∧ 32 ∉ config.outfile) ∧
      config.tmpfile.length+config.outfile.length≤485 := by
  have hsize : sizeofField=256 := rfl
  have hprogram : tokens (ascii "/usr/local/bin/ffmpeg")=[ascii "/usr/local/bin/ffmpeg"] := by
    decide
  have hoption : tokens (ascii "-i")=[ascii "-i"] := by decide
  have htokens : tokens (command config)=ascii "/usr/local/bin/ffmpeg" :: ascii "-i" ::
      (tokens config.tmpfile++tokens (config.outfile.take (485-config.tmpfile.length))) := by
    rw [command_eq h,tokens_append,tokens_append,tokens_append,hprogram,hoption]
    rfl
  unfold CallsFfmpeg jobExec
  constructor
  · intro hcall
    have hargs := (Option.ite_none_right_eq_some.mp hcall).2
    rw [htokens] at hargs
    simp only [Option.some.injEq,List.cons.injEq,true_and] at hargs
    have hwhole : ∀ file∈[config.tmpfile,config.outfile], 32 ∉ file := by
      intro file hfile
      rw [←hargs] at hfile
      exact (mem_append.mp hfile).elim not_mem_of_mem_tokens not_mem_of_mem_tokens
    have htmpfile' := hwhole config.tmpfile (by simp)
    have houtfile' := hwhole config.outfile (by simp)
    rw [tokens_of_not_mem htmpfile',if_neg htmpfile] at hargs
    have hcut : tokens (config.outfile.take (485-config.tmpfile.length))=[config.outfile] :=
      cons_inj_right _ |>.mp hargs
    rw [tokens_of_not_mem fun hspace => houtfile' (mem_of_mem_take hspace)] at hcut
    refine ⟨⟨htmpfile',houtfile'⟩,?_⟩
    split_ifs at hcut
    have hroom := (take_eq_self_iff _).mp (List.cons.inj hcut).1
    omega
  · rintro ⟨⟨htmpfile',houtfile'⟩,hlength⟩
    rw [htokens,take_of_length_le (by omega),tokens_of_not_mem htmpfile',
      tokens_of_not_mem houtfile',if_neg htmpfile,if_neg houtfile]
    rfl

variable {cJSONParse : List UInt8→Option CJson}

/-- The files of an accepted configuration. -/
theorem accepted_files {received : Received}
    {config accepted : VideoConfig}
    (h : jobRecvVideoConfig cJSONParse received config=some (.zero accepted)) :
    accepted.tmpfile=snprintf sizeofField (accepted.path++47::(accepted.sid++ascii ".m4v")) ∧
      accepted.outfile=snprintf sizeofField (accepted.path++47::(accepted.sid++ascii ".mp4")) := by
  have hfinished : ∃ config : VideoConfig, accepted=config.finished := by
    cases received with
    | notReady => cases h
    | failed => exact ⟨config,(Answer.zero.inj (Option.some.inj h)).symm⟩
    | endOfStream => exact ⟨config,(Answer.zero.inj (Option.some.inj h)).symm⟩
    | bytes bytes nonempty size =>
      unfold jobRecvVideoConfig at h
      dsimp only at h
      split_ifs at h
      split at h
      · cases h
      · split at h
        · cases h
        · exact ⟨_,(Answer.zero.inj (Option.some.inj h)).symm⟩
  obtain ⟨config,rfl⟩ := hfinished
  exact ⟨rfl,rfl⟩

/-- The name of a file is not empty, and its length is that of all its parts unless it is cut
off. -/
theorem length_file {path sid extension : List UInt8} (h : extension.length=4) :
    (snprintf sizeofField (path++47::(sid++extension))).length=
      min 255 (path.length+sid.length+5) := by
  rw [snprintf,length_take,length_append,length_cons,length_append,h,
    sizeofField]
  omega

/-- The name of a file that is not cut off has a space where its parts have one. -/
theorem not_mem_file_iff {path sid extension : List UInt8} (h : extension.length=4)
    (hspace : 32 ∉ extension) (hroom : path.length+sid.length≤237) :
    32 ∉ snprintf sizeofField (path++47::(sid++extension)) ↔ 32 ∉ path ∧ 32 ∉ sid := by
  have hlength : (path++47::(sid++extension)).length<sizeofField := by
    rw [length_append,length_cons,length_append,h,sizeofField]
    omega
  rw [(snprintf_eq_iff (by decide)).mpr hlength,mem_append,mem_cons,mem_append]
  simp [hspace]

/-- ffmpeg is called with the files of an accepted configuration exactly if neither name has a
space and both files have room in the command line. -/
theorem callsFfmpeg_iff {received : Received}
    {config accepted : VideoConfig}
    (h : jobRecvVideoConfig cJSONParse received config=some (.zero accepted)) :
    CallsFfmpeg accepted ↔ Plain accepted := by
  obtain ⟨htmpfile,houtfile⟩ := accepted_files h
  have htmplength := congrArg List.length htmpfile
  have houtlength := congrArg List.length houtfile
  rw [length_file (by decide)] at htmplength houtlength
  have htmpne : accepted.tmpfile≠[] := ne_nil_of_length_pos (by omega)
  have houtne : accepted.outfile≠[] := ne_nil_of_length_pos (by omega)
  have hshort : accepted.tmpfile.length<sizeofField := by
    rw [htmplength,sizeofField]
    omega
  have hroom : accepted.tmpfile.length+accepted.outfile.length≤485 ↔
      accepted.path.length+accepted.sid.length≤237 := by
    rw [htmplength,houtlength]
    omega
  rw [callsFfmpeg_iff_files hshort htmpne houtne,hroom]
  constructor
  · rintro ⟨⟨hspace,-⟩,hlength⟩
    rw [htmpfile,not_mem_file_iff (by decide) (by decide) hlength] at hspace
    exact ⟨hspace.1,hspace.2,hlength⟩
  · intro hplain
    refine ⟨⟨?_,?_⟩,hplain.length⟩
    · rw [htmpfile,not_mem_file_iff (by decide) (by decide) hplain.length]
      exact ⟨hplain.path,hplain.sid⟩
    · rw [houtfile,not_mem_file_iff (by decide) (by decide) hplain.length]
      exact ⟨hplain.path,hplain.sid⟩

/-- A request that ends within the buffer and provides all strings is accepted. -/
theorem jobRecvVideoConfig_eq {bytes : List UInt8}
    {nonempty : bytes≠[]} {size : bytes.length ≤ sizeofBuffer} {root : CJson} {request : Request}
    (hended : 0∈bytes ∨ bytes.length<sizeofBuffer)
    (hroot : cJSONParse (cString bytes)=some root) (hprovides : Provides root request)
    (config : VideoConfig) :
    jobRecvVideoConfig cJSONParse (.bytes bytes nonempty size) config=
      some (.zero (request.stored config).finished) := by
  obtain ⟨hstring,hends⟩ := buffer_string size
  unfold jobRecvVideoConfig
  dsimp only
  rw [hstring,if_pos (hends.mpr hended),hroot]
  dsimp only
  rw [jobCjsonParseRoot_eq_some_iff.mpr ⟨request,hprovides,rfl⟩]

/-- The JSON of a job for the recording of a session in a directory, before the path and behind
it. -/
def jobStart : List UInt8 :=
  ascii "\x7b\"width\":\"640\",\"height\":\"480\",\"bitrate\":\"2000\"," ++
    ascii "\"sid\":\"s\",\"path\":\""

def jobEnd : List UInt8 := ascii "\",\"recordingfile\":\"r\"\x7d"

/-- The JSON of such a job. -/
def jobText (path : List UInt8) : List UInt8 := jobStart++(path++jobEnd)

/-- The strings of such a job. -/
def jobRequest (path : List UInt8) : Request :=
  ⟨ascii "640", ascii "480", ascii "2000", ascii "s", path, ascii "r"⟩

/-- The object of such a job. -/
def jobObject (path : List UInt8) : CJson :=
  .object [(ascii "width", .text (ascii "640")), (ascii "height", .text (ascii "480")),
    (ascii "bitrate", .text (ascii "2000")), (ascii "sid", .text (ascii "s")),
    (ascii "path", .text path), (ascii "recordingfile", .text (ascii "r"))]

/-- The configuration of such a job, in memory that was zero. -/
def jobConfig (path : List UInt8) : VideoConfig :=
  ((jobRequest path).stored ⟨0,0,0,[],[],[],[],[],[]⟩).finished

/-- Such a job is accepted. -/
theorem jobConfig_accepted {path : List UInt8} (hpath : ∀ b∈path, b≠0) (hlength : path.length≤8) :
    ∃ received, jobRecvVideoConfig
        (fun text => if text=jobText path then some (jobObject path) else none) received
        ⟨0,0,0,[],[],[],[],[],[]⟩=some (.zero (jobConfig path)) := by
  have hstart : jobStart.length≤80 ∧ ∀ b∈jobStart, b≠0 := by decide +kernel
  have hend : jobEnd.length≤80 ∧ ∀ b∈jobEnd, b≠0 := by decide +kernel
  have hsize : (jobText path).length<sizeofBuffer := by
    rw [jobText,length_append,length_append,sizeofBuffer]
    omega
  have hzero : ∀ b∈jobText path, b≠0 := by
    intro b hb
    rcases mem_append.mp hb with hb | hb
    · exact hstart.2 b hb
    · exact (mem_append.mp hb).elim (hpath b) (hend.2 b)
  have hne : jobText path≠[] := append_ne_nil_of_left_ne_nil (by decide) _
  have hprovides : Provides (jobObject path) (jobRequest path) := ⟨rfl,rfl,rfl,rfl,rfl,rfl⟩
  refine ⟨.bytes (jobText path) hne hsize.le,jobRecvVideoConfig_eq (Or.inr hsize) ?_ hprovides _⟩
  rw [cString_of_ne_zero hzero,if_pos rfl]

/-- The call of ffmpeg for a recording in a directory whose name has no space. -/
theorem callsFfmpeg_recordings : CallsFfmpeg (jobConfig (ascii "/rec")) := by
  obtain ⟨received,h⟩ := @jobConfig_accepted (ascii "/rec") (by decide +kernel) (by decide)
  exact (callsFfmpeg_iff h).mpr ⟨by decide,by decide,by decide⟩

/-- The name of a directory with a space. -/
def spacedPath : List UInt8 := ascii "/my rec"

/-- A directory whose name has a space makes six arguments. -/
theorem not_callsFfmpeg_spaced : ¬∀ (cJSONParse : List UInt8→Option CJson) (received : Received)
      (config accepted : VideoConfig),
      jobRecvVideoConfig cJSONParse received config=some (.zero accepted) →
        CallsFfmpeg accepted := by
  intro hall
  obtain ⟨received,h⟩ := @jobConfig_accepted spacedPath (by decide +kernel) (by decide)
  exact absurd (hall _ received _ _ h) (by unfold CallsFfmpeg; decide)

end GuacServer.EncoderConfig
