import GuacServer.ConfLines

/-!
# The configuration file of guacd

guacd_conf_parse_file reads guacd.conf through a buffer of 8192 bytes and
updates the configuration with every parameter. The configuration that results
is that of the lines in the file, in their order, however the reads come.
-/

namespace GuacServer.ConfFile

open ConfParse ConfGrammar ConfLines LineReaders Unicode

/-- The levels of guac_client_log_level that have a name in the file. -/
inductive LogLevel where
  | error
  | warning
  | info
  | debug
  | trace
deriving DecidableEq, Repr

/-- What guacd_config has of the file. The foreground and print_version fields are set by
arguments only. -/
structure GuacdConfig where
  /-- The host to bind on. -/
  bindHost : Option (List UInt8)
  /-- The port to bind on. -/
  bindPort : Option (List UInt8)
  /-- The file to write the PID in, if any. -/
  pidfile : Option (List UInt8)
  /-- SSL certificate file. -/
  certFile : Option (List UInt8)
  /-- SSL private key file. -/
  keyFile : Option (List UInt8)
  /-- The maximum log level to be logged. -/
  maxLogLevel : LogLevel
deriving DecidableEq, Repr

/-- guacd_parse_log_level. -/
def guacdParseLogLevel (name : List UInt8) : Option LogLevel :=
  if name=ascii "info" then some .info
  else if name=ascii "error" then some .error
  else if name=ascii "warning" then some .warning
  else if name=ascii "debug" then some .debug
  else if name=ascii "trace" then some .trace
  else none

/-- The error for any other level. -/
def invalidLogLevel : String :=
  "Invalid log level. Valid levels are: \"trace\", \"debug\", " ++
    "\"info\", \"warning\", and \"error\"."

/-- guacd_conf_callback. The value is a string, which ends at its first zero. -/
def guacdConfCallback (enableSsl : Bool) : ParamCallback GuacdConfig :=
  fun sect param value config =>
    let text := cString value
    if sect=ascii "server" then
      if param=ascii "bind_host" then .ok { config with bindHost := some text }
      else if param=ascii "bind_port" then .ok { config with bindPort := some text }
      else .error "Invalid parameter or section name"
    else if sect=ascii "daemon" then
      if param=ascii "pid_file" then .ok { config with pidfile := some text }
      else if param=ascii "log_level" then
        match guacdParseLogLevel text with
        | none => .error invalidLogLevel
        | some level => .ok { config with maxLogLevel := level }
      else .error "Invalid parameter or section name"
    else if sect=ascii "ssl" then
      if enableSsl then
        if param=ascii "server_certificate" then .ok { config with certFile := some text }
        else if param=ascii "server_key" then .ok { config with keyFile := some text }
        else .error "Invalid parameter or section name"
      else .error "SSL support not compiled in"
    else .error "Invalid parameter or section name"

/-- The size of the buffer. -/
def confBufferSize : ℕ := 8192

/-- What guacd_conf_parse_file reports. -/
inductive ConfReport where
  /-- Nothing. -/
  | none
  /-- Parse error at line %i, column %i. -/
  | parseError (line column : ℕ) (message : String)
  /-- Error reading configuration. -/
  | readError
deriving DecidableEq, Repr

/-- What guacd_conf_parse_file returns. -/
def ConfReport.retval : ConfReport→ℕ
  | .none => 0
  | .parseError _ _ _ => 1
  | .readError => 1

/-- guacd_conf_parse_file, with the current section and the configuration before and after it. -/
def guacdConfParseFile (enableSsl : Bool) (reads : List (Option (List UInt8)))
    (s : ConfState GuacdConfig) : ConfReport×ConfState GuacdConfig :=
  let (reader,failed) :=
    readLines confBufferSize (guacdParseConf (guacdConfCallback enableSsl)) reads ⟨[],1,none,s⟩
  match reader.failure with
  | some e => (.parseError reader.lines (e.location+1) e.message,reader.state)
  | none => (if failed then .readError else .none,reader.state)

/-- A parameter that is given again has its last value. -/
theorem guacdConfCallback_overwrites (enableSsl : Bool) :
    Overwrites (guacdConfCallback enableSsl) where
  again := by
    intro sect name value data data' h value'
    simp only [guacdConfCallback] at h ⊢
    split_ifs at h ⊢
    all_goals try split at h
    all_goals cases h <;> rfl

/-- The file is parsed without an error exactly if all of it is lines that can be read through
the buffer. -/
theorem guacdConfParseFile_lines (enableSsl : Bool) {chunks : List (List UInt8)}
    (hchunks : ∀ chunk∈chunks, chunk≠[]) (s s' : ConfState GuacdConfig) :
    (guacdConfParseFile enableSsl (chunks.map some) s).1.retval=0 ∧
        (guacdConfParseFile enableSsl (chunks.map some) s).2=s' ↔
      Lines (guacdParseConf (guacdConfCallback enableSsl)) confBufferSize chunks.flatten s s' := by
  have hresumable := guacdParseConf_resumable (guacdConfCallback_overwrites enableSsl)
  obtain ⟨hread,hiff⟩ := (Reader.holds_start _ confBufferSize 1 s).readLines hresumable
    (by decide) hchunks
  rw [←List.nil_append chunks.flatten,←hiff s',guacdConfParseFile]
  generalize readLines confBufferSize (guacdParseConf (guacdConfCallback enableSsl))
    (chunks.map some) ⟨[],1,none,s⟩=result at hread ⊢
  obtain ⟨reader,failed⟩ := result
  cases hread
  cases hfailure : reader.failure with
  | none =>
    simp only [hfailure,ConfReport.retval,Bool.false_eq_true,if_false]
  | some e => simp only [hfailure,ConfReport.retval,Nat.one_ne_zero,reduceCtorEq,false_and]

/-- The configuration of a file is that of its lines in their order: guacd_conf_parse_file succeeds
with it exactly if the file consists of lines of the grammar that fit in the buffer, whose
parameters are accepted one after the other. -/
theorem guacdConfParseFile_iff (enableSsl : Bool) {chunks : List (List UInt8)}
    (hchunks : ∀ chunk∈chunks, chunk≠[]) (config config' : GuacdConfig) :
    (guacdConfParseFile enableSsl (chunks.map some) ⟨[],config⟩).1.retval=0 ∧
        (guacdConfParseFile enableSsl (chunks.map some) ⟨[],config⟩).2.data=config' ↔
      ∃ lines : List (Line implementedGrammar), (∀ line∈lines, line.bytes.length≤confBufferSize) ∧
        chunks.flatten=lines.flatMap Line.bytes ∧
        (applyLines (guacdConfCallback enableSsl) lines ⟨[],config⟩).map ConfState.data=
          some config' := by
  constructor
  · rintro ⟨hretval,rfl⟩
    obtain ⟨lines,hfit,hcontent,happly⟩ :=
      lines_iff.mp ((guacdConfParseFile_lines enableSsl hchunks _ _).mp ⟨hretval,rfl⟩)
    exact ⟨lines,hfit,hcontent,by rw [happly,Option.map_some]⟩
  · rintro ⟨lines,hfit,hcontent,hdata⟩
    obtain ⟨s',happly,rfl⟩ := Option.map_eq_some_iff.mp hdata
    obtain ⟨hretval,hstate⟩ := (guacdConfParseFile_lines enableSsl hchunks _ s').mpr
      (lines_iff.mpr ⟨lines,hfit,hcontent,happly⟩)
    exact ⟨hretval,congrArg ConfState.data hstate⟩

/-- The defaults of guacd_conf_load. -/
def defaultConfig : GuacdConfig where
  bindHost := none
  bindPort := some (ascii "4822")
  pidfile := none
  certFile := none
  keyFile := none
  maxLogLevel := .info

/-- No whitespace. -/
def noBlanks : Blanks := ⟨[],List.forall_mem_nil _⟩

/-- A line that ends with a line feed. -/
def plainEnd : LineEnd := ⟨noBlanks,none,0x0A,rfl⟩

/-- The name of the section. -/
def serverName : Name implementedGrammar where
  chars := ascii "server"
  nonempty := by decide
  nameChars := forall_mem_of_all (by decide)
  limit := by decide

/-- The name of the parameter. -/
def bindPortName : Name implementedGrammar where
  chars := ascii "bind_port"
  nonempty := by decide
  nameChars := forall_mem_of_all (by decide)
  limit := by decide

/-- A section with one parameter. -/
def serverLines : List (Line implementedGrammar) :=
  [⟨noBlanks,.sectionName serverName,plainEnd⟩,
    ⟨noBlanks,.parameterValue bindPortName noBlanks noBlanks
      (.plain (ascii "22") (by decide) (by decide)), plainEnd⟩]

/-- The value of the parameter is split between two reads. -/
theorem guacdConfParseFile_iff_server :
    (guacdConfParseFile true ([ascii "[server]\nbind_port=2", ascii "2\n"].map some)
        ⟨[],defaultConfig⟩).1.retval=0 ∧
      (guacdConfParseFile true ([ascii "[server]\nbind_port=2", ascii "2\n"].map some)
        ⟨[],defaultConfig⟩).2.data = { defaultConfig with bindPort := some (ascii "22") } :=
  (guacdConfParseFile_iff true (by decide) defaultConfig _).mpr
    ⟨serverLines,by decide,by decide,by decide⟩

/-- A name with a dash, as the grammar is stated. -/
def dashedName : Name statedGrammar where
  chars := ascii "a-b"
  nonempty := by decide
  nameChars := forall_mem_of_all (by decide)
  limit := by decide

/-- A section name with a dash. -/
def dashedLine : Line statedGrammar := ⟨noBlanks,.sectionName dashedName,plainEnd⟩

/-- The file does not follow the grammar as it is stated: a section name with a dash is
refused. -/
theorem not_guacdConfParseFile_stated :
    ¬ ∀ (enableSsl : Bool) (chunks : List (List UInt8)) (config config' : GuacdConfig),
      (∀ chunk∈chunks, chunk≠[]) →
      ((guacdConfParseFile enableSsl (chunks.map some) ⟨[],config⟩).1.retval=0 ∧
          (guacdConfParseFile enableSsl (chunks.map some) ⟨[],config⟩).2.data=config' ↔
        ∃ lines : List (Line statedGrammar), (∀ line∈lines, line.bytes.length<confBufferSize) ∧
          chunks.flatten=lines.flatMap Line.bytes ∧
          (applyLines (guacdConfCallback enableSsl) lines ⟨[],config⟩).map ConfState.data=
            some config') := by
  intro h
  have hchunks : ∀ chunk∈[ascii "[a-b]\n"], chunk≠[] := by decide
  obtain ⟨hretval,-⟩ := (h true _ defaultConfig defaultConfig hchunks).mpr
    ⟨[dashedLine],by decide,by decide,by decide⟩
  have hlines := (guacdConfParseFile_lines true hchunks _ _).mp ⟨hretval,rfl⟩
  obtain ⟨hnil,-⟩ | ⟨line,rest,s,hcontent,hne,hline,-⟩ := hlines.split
  · revert hnil
    decide
  · have hextend := (guacdParseConf_resumable (guacdConfCallback_overwrites true)).extend hne
      hline rest
    rw [←hcontent] at hextend
    have herror : (guacdParseConf (guacdConfCallback true) [ascii "[a-b]\n"].flatten
      ⟨[],defaultConfig⟩).1=.error ⟨"']' expected",2⟩ := by decide
    rw [hextend] at herror
    cases herror

end GuacServer.ConfFile
