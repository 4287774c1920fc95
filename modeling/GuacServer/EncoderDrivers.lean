import GuacServer.EncoderCalls
import GuacServer.EncoderJobs

/-!
# The drivers of the parser of the encoder service

Each driver hands the stream to the parser piece by piece, where a piece ends with its
only semicolon. What they handle is compared with what guacenc reads from the same
stream. The three differ in how bytes reach them and in what they do where a call
fails, which does not happen as long as no instruction is lost.
-/

namespace GuacServer.EncoderJobs

open DecimalNumerals EncoderParser GuacServer.Parser List Unicode

/-- The bytes one after the other, until the driver stops. -/
def runBytes (step : UInt8→Accumulation→Bool×Accumulation) : List UInt8→Accumulation→Accumulation
  | [], buffer => buffer
  | b::bytes, buffer =>
    match step b buffer with
    | (true,buffer) => runBytes step bytes buffer
    | (false,buffer) => buffer

/-- A byte of a call of ins_convert_video, and whether the call goes on. -/
def convertStep (b : UInt8) (buffer : Accumulation) : Bool×Accumulation :=
  if sizeofData<buffer.ins.data.length then (false,buffer.clear)
  else (true,if b=59 then (buffer.put b).parse.2.clear else buffer.put b)

/-- A call of ins_convert_video is its bytes one after the other. -/
theorem convertBytes_eq (bytes : List UInt8) (buffer : Accumulation) :
    (convertBytes bytes buffer).2=runBytes convertStep bytes buffer := by
  induction bytes generalizing buffer with
  | nil => rfl
  | cons b bytes ih =>
    rw [convertBytes,runBytes,convertStep]
    by_cases hfull : sizeofData<buffer.ins.data.length
    · simp only [if_pos hfull]
    · simp only [if_neg hfull,ih]

/-- The functions that hand bytes to the parser of the service. -/
inductive Driver
  /-- job_loop_read_recodingfile, which reads a recording. -/
  | recording
  /-- job_read_stream, which reads a socket. -/
  | stream
  /-- ins_convert_video, which is called with the bytes. -/
  | video

/-- What a driver does with bytes that reach it in parts. A recording and a socket are
read byte by byte, so that only calls of ins_convert_video have parts. -/
def Driver.run (driver : Driver) (parts : List (List UInt8)) : Accumulation :=
  match driver with
  | .recording => runBytes recordingByte parts.flatten emptyAccumulation
  | .stream => parts.flatten.foldl (fun buffer b => (streamByte b buffer).2) emptyAccumulation
  | .video => parts.foldl (fun buffer buf => (convertBytes buf buffer).2) emptyAccumulation

/-- Bytes that reach a driver in parts, each of which may be left early. -/
def runParts (step : UInt8→Accumulation→Bool×Accumulation) (parts : List (List UInt8))
    (buffer : Accumulation) : Accumulation :=
  parts.foldl (fun buffer part => runBytes step part buffer) buffer

/-- The instruction is lost for good. -/
def Accumulation.Lost (n : ℕ) (buffer : Accumulation) : Prop :=
  EncoderParser.Lost n buffer.ins.handled buffer.ins.dangling

/-- How a driver collects a piece and hands it to the parser. Nothing is said about what
it does where a call fails. -/
structure Collects (step : UInt8→Accumulation→Bool×Accumulation) : Prop where
  /-- A byte within the piece. -/
  put : ∀ {b : UInt8} {buffer : Accumulation}, b≠59 → buffer.ins.data.length ≤ sizeofData →
    ∃ buffer', step b buffer=(true,buffer') ∧
      buffer'.ins=(buffer.ins.withData (buffer.ins.data++[b]))
  /-- The semicolon, where the call succeeds. -/
  parse : ∀ {buffer : Accumulation}, buffer.ins.data.length ≤ sizeofData →
    (insParserRead (buffer.ins.withData (buffer.ins.data++[59]))).ok=true →
    ∃ buffer', step 59 buffer=(true,buffer') ∧ buffer'.ins=
        (insParserRead (buffer.ins.withData (buffer.ins.data++[59]))).ins.withData []
  /-- The semicolon, where the call loses the instruction. -/
  lose : ∀ {n : ℕ} {buffer : Accumulation}, buffer.ins.data.length ≤ sizeofData →
    EncoderParser.Lost n
      (insParserRead (buffer.ins.withData (buffer.ins.data++[59]))).ins.handled
      (insParserRead (buffer.ins.withData (buffer.ins.data++[59]))).ins.dangling →
    (step 59 buffer).2.Lost n
  /-- Nothing brings an instruction back. -/
  lost : ∀ {n : ℕ} {b : UInt8} {buffer : Accumulation}, buffer.Lost n→(step b buffer).2.Lost n

variable {buffer : Accumulation} {parts : List (List UInt8)} {instructions : List (List Element)}

/-- No call of the parser brings an instruction back. -/
theorem Accumulation.Lost.parse {n : ℕ} (h : buffer.Lost n) : buffer.parse.2.Lost n :=
  EncoderParser.Lost.insLoop h

/-- What is in the accumulation buffer does not matter to it. -/
theorem Accumulation.Lost.put {n : ℕ} (h : buffer.Lost n) (b : UInt8) : (buffer.put b).Lost n := h

theorem Accumulation.Lost.clear {n : ℕ} (h : buffer.Lost n) : buffer.clear.Lost n := h

theorem Accumulation.Lost.check {n : ℕ} (h : buffer.Lost n) : buffer.check.Lost n := by
  unfold Accumulation.check
  split_ifs
  · exact h
  · exact h

/-- A semicolon ends a piece of a recording. -/
theorem recordingByte_semicolon (buffer : Accumulation) :
    recordingByte 59 buffer=if (buffer.put 59).parse.1 then (true,(buffer.put 59).parse.2.clear)
      else (false,(buffer.put 59).parse.2) := by
  rw [recordingByte,if_pos rfl]

/-- The job that follows a recording. -/
theorem collects_recording : Collects recordingByte where
  put := by
    intro b buffer hb _
    exact ⟨buffer.put b,by rw [recordingByte,if_neg hb],rfl⟩
  parse := by
    intro buffer _ hok
    exact ⟨(buffer.put 59).parse.2.clear,by rw [recordingByte_semicolon]; exact if_pos hok,rfl⟩
  lose := by
    intro n buffer _ hlost
    have hparsed : (buffer.put 59).parse.2.Lost n := hlost
    rw [recordingByte_semicolon]
    split_ifs
    · exact hparsed.clear
    · exact hparsed
  lost := by
    intro n b buffer hlost
    by_cases hb : b=59
    · rw [hb,recordingByte_semicolon]
      split_ifs
      · exact (hlost.put 59).parse.clear
      · exact (hlost.put 59).parse
    · rw [recordingByte,if_neg hb]
      exact hlost.put b

/-- The job that reads a socket, which goes on whatever a call returns. -/
theorem collects_stream : Collects fun b buffer => (true,(streamByte b buffer).2) where
  put := by
    intro b buffer hb hlen
    have hcheck : buffer.check=buffer := if_neg hlen.not_gt
    exact ⟨buffer.put b,by rw [streamByte,hcheck,if_neg hb],rfl⟩
  parse := by
    intro buffer hlen _
    have hcheck : buffer.check=buffer := if_neg hlen.not_gt
    exact ⟨(buffer.put 59).terminate.parse.2.clear,by rw [streamByte,hcheck,if_pos rfl],rfl⟩
  lose := by
    intro n buffer hlen hlost
    have hcheck : buffer.check=buffer := if_neg hlen.not_gt
    have hparsed : (buffer.put 59).terminate.parse.2.Lost n := hlost
    rw [streamByte,hcheck,if_pos rfl]
    exact hparsed.clear
  lost := by
    intro n b buffer hlost
    have hput : (buffer.check.put b).Lost n := hlost.check.put b
    rw [streamByte]
    split_ifs
    · have hterminated : (buffer.check.put b).terminate.Lost n := hput
      exact hterminated.parse.clear
    · exact hput

/-- ins_convert_video. -/
theorem collects_video : Collects convertStep where
  put := by
    intro b buffer hb hlen
    exact ⟨buffer.put b,by rw [convertStep,if_neg hlen.not_gt,if_neg hb],rfl⟩
  parse := by
    intro buffer hlen _
    exact ⟨(buffer.put 59).parse.2.clear,by rw [convertStep,if_neg hlen.not_gt,if_pos rfl],rfl⟩
  lose := by
    intro n buffer hlen hlost
    have hparsed : (buffer.put 59).parse.2.Lost n := hlost
    rw [convertStep,if_neg hlen.not_gt,if_pos rfl]
    exact hparsed.clear
  lost := by
    intro n b buffer hlost
    rw [convertStep]
    split_ifs
    · exact hlost.clear
    · exact (hlost.put b).parse.clear
    · exact hlost.put b

/-- Every driver is such a function, to which the bytes come in parts. -/
theorem Driver.run_eq (driver : Driver) (parts : List (List UInt8)) :
    ∃ step parts', Collects step ∧ parts'.flatten=parts.flatten ∧
      driver.run parts=runParts step parts' emptyAccumulation := by
  cases driver with
  | recording =>
    exact ⟨_,[parts.flatten],collects_recording,by simp,rfl⟩
  | stream =>
    refine ⟨_,[parts.flatten],collects_stream,by simp,?_⟩
    have hrun : ∀ (bytes : List UInt8) (buffer : Accumulation),
        bytes.foldl (fun buffer b => (streamByte b buffer).2) buffer=
          runBytes (fun b buffer => (true,(streamByte b buffer).2)) bytes buffer := by
      intro bytes
      induction bytes with
      | nil => exact fun _ => rfl
      | cons b bytes ih => exact fun _ => ih _
    exact hrun ..
  | video =>
    refine ⟨_,parts,collects_video,rfl,?_⟩
    simp only [Driver.run,runParts,convertBytes_eq]

/-- The driver goes on behind all of the bytes. -/
inductive Goes (step : UInt8→Accumulation→Bool×Accumulation) :
    List UInt8→Accumulation→Accumulation→Prop
  | nil (buffer : Accumulation) : Goes step [] buffer buffer
  | cons {b : UInt8} {bytes : List UInt8} {buffer buffer' buffer'' : Accumulation}
      (hb : step b buffer=(true,buffer')) (hbytes : Goes step bytes buffer' buffer'') :
      Goes step (b::bytes) buffer buffer''

section Parts

variable {step : UInt8→Accumulation→Bool×Accumulation}

variable {rest : List UInt8}

/-- Where the first byte is in the parts does not matter if the driver goes on. -/
theorem runParts_cons {b : UInt8} {buffer' : Accumulation} (hparts : parts.flatten=b::rest)
    (hb : step b buffer=(true,buffer')) :
    ∃ parts', parts'.flatten=rest ∧ runParts step parts buffer=runParts step parts' buffer' := by
  induction parts with
  | nil => simp at hparts
  | cons part parts ih =>
    cases part with
    | nil => exact ih hparts
    | cons c part =>
      rw [flatten_cons,cons_append,List.cons.injEq] at hparts
      obtain ⟨rfl,hrest⟩ := hparts
      refine ⟨part::parts,hrest,?_⟩
      simp only [runParts,foldl_cons,runBytes,hb]

/-- Nor does it for any number of bytes. -/
theorem Goes.runParts_append {bytes : List UInt8} {buffer' : Accumulation}
    (h : Goes step bytes buffer buffer') (hparts : parts.flatten=bytes++rest) :
    ∃ parts', parts'.flatten=rest ∧ runParts step parts buffer=runParts step parts' buffer' := by
  induction h generalizing parts with
  | nil buffer => exact ⟨parts,hparts,rfl⟩
  | cons hb _ ih =>
    obtain ⟨parts',hparts',hrun⟩ := runParts_cons hparts hb
    obtain ⟨parts'',hparts'',hrun'⟩ := ih hparts'
    exact ⟨parts'',hparts'',hrun.trans hrun'⟩

/-- A lost instruction stays lost. -/
theorem Collects.runBytes_lost (hstep : Collects step) {n : ℕ} (bytes : List UInt8)
    (h : buffer.Lost n) : (runBytes step bytes buffer).Lost n := by
  induction bytes generalizing buffer with
  | nil => exact h
  | cons b bytes ih =>
    have hb := hstep.lost (b := b) h
    rw [runBytes]
    split
    · next heq =>
      rw [heq] at hb
      exact ih hb
    · next heq =>
      rw [heq] at hb
      exact hb

theorem Collects.runParts_lost (hstep : Collects step) {n : ℕ} (parts : List (List UInt8))
    (h : buffer.Lost n) : (runParts step parts buffer).Lost n := by
  induction parts generalizing buffer with
  | nil => exact h
  | cons part parts ih => exact ih (hstep.runBytes_lost part h)

/-- A byte that loses the instruction, wherever it is in the parts. -/
theorem Collects.runParts_lose (hstep : Collects step) {n : ℕ} {b : UInt8}
    (hparts : parts.flatten=b::rest) (h : (step b buffer).2.Lost n) :
    (runParts step parts buffer).Lost n := by
  induction parts with
  | nil => simp at hparts
  | cons part parts ih =>
    cases part with
    | nil => exact ih hparts
    | cons c part =>
      rw [flatten_cons,cons_append,List.cons.injEq] at hparts
      obtain ⟨rfl,-⟩ := hparts
      refine hstep.runParts_lost parts ?_
      change (runBytes step (c::part) buffer).Lost n
      rw [runBytes]
      split
      · next heq =>
        rw [heq] at h
        exact hstep.runBytes_lost part h
      · next heq =>
        rw [heq] at h
        exact h

/-- Bytes without a semicolon are collected. -/
theorem Collects.goes (hstep : Collects step) {bytes : List UInt8} (hbytes : 59 ∉ bytes)
    (hlen : buffer.ins.data.length+bytes.length ≤ sizeofData) :
    ∃ buffer', Goes step bytes buffer buffer' ∧
      buffer'.ins=(buffer.ins.withData (buffer.ins.data++bytes)) := by
  induction bytes generalizing buffer with
  | nil => exact ⟨buffer,.nil buffer,by rw [append_nil,InsTransVideo.withData_self rfl]⟩
  | cons b bytes ih =>
    rw [mem_cons,not_or] at hbytes
    rw [length_cons] at hlen
    have hle : buffer.ins.data.length ≤ sizeofData := by omega
    obtain ⟨buffer',hb,hins⟩ := hstep.put (Ne.symm hbytes.1) hle
    have hdata : buffer'.ins.data=buffer.ins.data++[b] := by rw [hins]; rfl
    obtain ⟨buffer'',hgoes,hins'⟩ := ih hbytes.2 (by
      rw [hdata,length_append,length_singleton]
      omega)
    refine ⟨buffer'',.cons hb hgoes,?_⟩
    rw [hins',hdata,hins,append_assoc,singleton_append,InsTransVideo.withData_withData]

/-- The driver goes on behind some bytes with the rest of them: what it has handled, what
is received of the next instruction and how far the buffer is filled. -/
def Continues (step : UInt8→Accumulation→Bool×Accumulation) (parts : List (List UInt8))
    (buffer : Accumulation) (rest : List UInt8) (handled : List (Option Instruction))
    (received : List UInt8) (filled : ℕ) : Prop :=
  ∃ parts' buffer', parts'.flatten=rest ∧
    runParts step parts buffer=runParts step parts' buffer' ∧ Following buffer'.ins received ∧
    buffer'.ins.handled=handled ∧ buffer'.ins.parser.unparsedEnd=filled

section

variable (hstep : Collects step) {a : List UInt8} (ha : 59 ∉ a) (hdata : buffer.ins.data=[])
  (hlen : (a++[59]).length ≤ sizeofData) (hparts : parts.flatten=(a++[59])++rest)

include hstep ha hdata hlen hparts

/-- The bytes up to the semicolon of a piece are collected. -/
theorem Collects.run_to :
    ∃ parts' buffer', parts'.flatten=[59]++rest ∧
      runParts step parts buffer=runParts step parts' buffer' ∧
      buffer'.ins.data.length ≤ sizeofData ∧
      buffer'.ins.withData (buffer'.ins.data++[59])=buffer.ins.withData (a++[59]) := by
  rw [length_append,length_singleton] at hlen
  obtain ⟨buffer',hgoes,hins⟩ := hstep.goes ha (by
    rw [hdata,length_nil]
    omega)
  rw [hdata,nil_append] at hins
  rw [append_assoc] at hparts
  obtain ⟨parts',hparts',hrun⟩ := hgoes.runParts_append hparts
  refine ⟨parts',buffer',hparts',hrun,?_,by rw [hins]; rfl⟩
  rw [hins,InsTransVideo.withData_data]
  omega

/-- A piece that the parser parses. -/
theorem Collects.run_piece {handled : List (Option Instruction)} {received : List UInt8}
    {filled : ℕ}
    (h : Parsed (insParserRead (buffer.ins.withData (a++[59]))) handled received filled) :
    Continues step parts buffer rest handled received filled := by
  obtain ⟨parts',buffer',hparts',hrun,hle,hsame⟩ := hstep.run_to ha hdata hlen hparts
  obtain ⟨buffer'',hb,hins'⟩ := hstep.parse hle (by rw [hsame]; exact h.ok)
  obtain ⟨parts'',hparts'',hrun'⟩ := runParts_cons hparts' hb
  rw [hsame,InsTransVideo.withData_self h.following.data] at hins'
  exact ⟨parts'',buffer'',hparts'',hrun.trans hrun',by rw [hins']; exact h.following,
    by rw [hins']; exact h.handled,by rw [hins']; exact h.filled⟩

/-- A piece in which the instruction is lost. -/
theorem Collects.run_lost {n : ℕ}
    (hlost : EncoderParser.Lost n (insParserRead (buffer.ins.withData (a++[59]))).ins.handled
      (insParserRead (buffer.ins.withData (a++[59]))).ins.dangling) :
    (runParts step parts buffer).Lost n := by
  obtain ⟨parts',buffer',hparts',hrun,hle,hsame⟩ := hstep.run_to ha hdata hlen hparts
  rw [hrun]
  exact hstep.runParts_lose hparts' (hstep.lose hle (by rw [hsame]; exact hlost))

end

end Parts

/-- The bytes up to and with each semicolon. -/
def pieces : List UInt8→List (List UInt8)
  | [] => []
  | b::bytes =>
    if b=59 then [59]::pieces bytes
    else
      match pieces bytes with
      | [] => [[b]]
      | piece::rest => (b::piece)::rest

/-- The first piece ends with the first semicolon. -/
theorem pieces_semicolon {a : List UInt8} (ha : 59 ∉ a) (m : List UInt8) :
    pieces (a++59::m)=(a++[59])::pieces m := by
  induction a with
  | nil => rw [nil_append,pieces,if_pos rfl]; rfl
  | cons b a ih =>
    rw [mem_cons,not_or] at ha
    rw [cons_append,pieces,if_neg (Ne.symm ha.1),ih ha.2]
    rfl

/-- Bytes that end with a semicolon begin with a piece. -/
theorem exists_piece {m : List UInt8} (hne : m≠[]) (hend : m.getLast? = some 59) :
    ∃ a m', 59 ∉ a ∧ m=(a++[59])++m' ∧ pieces m=(a++[59])::pieces m' ∧
      (m' ≠ [] → m'.getLast? = some 59) := by
  have hmem : 59∈m := mem_of_getLast? hend
  obtain ⟨a,m',rfl,ha⟩ := eq_append_cons_of_mem hmem
  refine ⟨a,m',ha,by simp,pieces_semicolon ha m',fun hm => ?_⟩
  obtain ⟨b,m',rfl⟩ := exists_cons_of_ne_nil hm
  simpa [List.getLast?_append,List.getLast?_cons_cons] using hend

/-- An instruction ends with a semicolon. -/
theorem getLast?_wireInstruction {es : List Element} (hne : es≠[]) :
    (wireInstruction es).getLast? = some 59 := by
  obtain ⟨es,e,rfl⟩ := eq_nil_or_concat es |>.resolve_left hne
  rw [concat_eq_append,wireInstruction_concat]
  simp

/-- The end of the buffer is reached in no instruction behind its first piece, unless it
is reached where the instruction ends. -/
def KeptFrom : ℕ→List (List Element)→Prop
  | _, [] => True
  | filled, es::instructions =>
    (filled+(wireInstruction es).length ≤ instructionbufSize ∨
      instructionbufSize≤filled+((pieces (wireInstruction es)).headD []).length) ∧
    KeptFrom ((pieces (wireInstruction es)).foldl filledAfter filled) instructions

section Instructions

variable {step : UInt8→Accumulation→Bool×Accumulation}

/-- What a driver does with the rest of an instruction, some of which is parsed. -/
theorem Collects.run_rest (hstep : Collects step) {es : List Element} (hes : WithinLimits es)
    (hlen : (wireInstruction es).length<sizeofData) {received m tail : List UInt8}
    (hreceived : received≠[]) (hm : m≠[]) (hsplit : wireInstruction es=received++m)
    (h : Following buffer.ins received) (hparts : parts.flatten=m++tail) :
    (buffer.ins.parser.unparsedEnd+m.length ≤ instructionbufSize →
      Continues step parts buffer tail (buffer.ins.handled++[some (instructionOf es)]) []
        ((pieces m).foldl filledAfter buffer.ins.parser.unparsedEnd)) ∧
    (instructionbufSize<buffer.ins.parser.unparsedEnd+m.length →
      ∀ n, buffer.ins.handled.length<n→(runParts step parts buffer).Lost n) := by
  induction hn : m.length using Nat.strong_induction_on generalizing received m buffer parts with
  | _ n ih =>
    subst hn
    have hend : m.getLast? = some 59 := by
      have hlast := getLast?_wireInstruction hes.ne_nil
      rw [hsplit,List.getLast?_append_of_ne_nil _ hm] at hlast
      exact hlast
    obtain ⟨a,m',ha,rfl,hpieces,-⟩ := exists_piece hm hend
    have hshort : (a++[59]).length ≤ sizeofData := by
      rw [hsplit,length_append,length_append] at hlen
      omega
    have hpos : m' ≠ []→0 < m'.length := length_pos_of_ne_nil
    have hnil : m' = [] → m'.length=0 := length_eq_zero_iff.mpr
    rw [append_assoc] at hparts
    have hlens : (a++[59]++m').length=(a++[59]).length+m'.length := length_append ..
    rw [hpieces,foldl_cons,hlens]
    by_cases hkept : buffer.ins.parser.unparsedEnd+(a++[59]).length < instructionbufSize ∨
        buffer.ins.parser.unparsedEnd+(a++[59]).length=instructionbufSize ∧ m' = []
    · have hpiece := insParserRead_piece hes hlen h hsplit (Or.inr hkept)
      by_cases hlast : m' = []
      · have hcontinues := hstep.run_piece ha h.data hshort hparts (hpiece.complete hlast)
        rw [hlast] at hcontinues ⊢
        exact ⟨fun _ => hcontinues,fun hlong => by rw [length_nil] at hlong; omega⟩
      · have hlt := hkept.resolve_right fun heq => hlast heq.2
        obtain ⟨parts',buffer',hparts',hrun,hfollowing,hhandled,hfilled⟩ :=
          hstep.run_piece ha h.data hshort hparts (hpiece.within hlast)
        obtain ⟨hfits,hlost⟩ := ih m'.length
          (by simp only [length_append,length_singleton]; omega) (by simp) hlast
          (hsplit.trans (append_assoc ..).symm) hfollowing hparts' rfl
        rw [hfilled,hhandled] at hfits hlost
        rw [filledAfter,if_pos hlt] at hfits hlost ⊢
        refine ⟨fun hle => ?_,fun hlong n hn => ?_⟩
        · obtain ⟨parts'',buffer'',hparts'',hrun',hrest⟩ := hfits (by omega)
          exact ⟨parts'',buffer'',hparts'',hrun.trans hrun',hrest⟩
        · rw [hrun]
          exact hlost (by omega) n hn
    · rw [not_or,not_and] at hkept
      refine ⟨fun hle => ?_,fun _ n hn => ?_⟩
      · by_cases hlast : m' = []
        · have hzero := hnil hlast
          exact absurd hlast (hkept.2 (by omega))
        · have hlt := hpos hlast
          omega
      · refine hstep.run_lost ha h.data hshort hparts (insParserRead_lost hes h (by simp) hsplit
          hreceived (by omega) (fun hlast => ?_) hn)
        have hne := hkept.2.mt (not_not.mpr hlast)
        omega

/-- What a driver does with an instruction. -/
theorem Collects.run_instruction (hstep : Collects step) {es : List Element} (hes : WithinLimits es)
    (hlen : (wireInstruction es).length<sizeofData) {tail : List UInt8}
    (h : Following buffer.ins []) (hparts : parts.flatten=wireInstruction es++tail) :
    (buffer.ins.parser.unparsedEnd+(wireInstruction es).length ≤ instructionbufSize ∨
        instructionbufSize≤buffer.ins.parser.unparsedEnd+
          ((pieces (wireInstruction es)).headD []).length →
      Continues step parts buffer tail (buffer.ins.handled++[some (instructionOf es)]) []
        ((pieces (wireInstruction es)).foldl filledAfter buffer.ins.parser.unparsedEnd)) ∧
    (¬(buffer.ins.parser.unparsedEnd+(wireInstruction es).length ≤ instructionbufSize ∨
        instructionbufSize≤buffer.ins.parser.unparsedEnd+
          ((pieces (wireInstruction es)).headD []).length) →
      ∀ n, buffer.ins.handled.length<n→(runParts step parts buffer).Lost n) := by
  have hend := getLast?_wireInstruction hes.ne_nil
  have hne : wireInstruction es≠[] := by
    intro hnil
    rw [hnil] at hend
    cases hend
  obtain ⟨a,m,ha,hsplit,hpieces,-⟩ := exists_piece hne hend
  have hlens := congrArg List.length hsplit
  rw [length_append] at hlens
  rw [hsplit,append_assoc] at hparts
  rw [hpieces,headD_cons,foldl_cons]
  have hsize : sizeofData=instructionbufSize := rfl
  have hpiece := insParserRead_piece hes hlen h hsplit (Or.inl rfl)
  by_cases hlast : m=[]
  · have hcontinues := hstep.run_piece ha h.data (by omega) hparts (hpiece.complete hlast)
    rw [hlast] at hcontinues hlens ⊢
    rw [length_nil] at hlens
    exact ⟨fun _ => hcontinues,fun hlong => by omega⟩
  · obtain ⟨parts',buffer',hparts',hrun,hfollowing,hhandled,hfilled⟩ :=
      hstep.run_piece ha h.data (by omega) hparts (hpiece.within hlast)
    obtain ⟨hfits,hlost⟩ := hstep.run_rest hes hlen (by simp) hlast hsplit hfollowing hparts'
    rw [hfilled,hhandled] at hfits hlost
    have hbehind :
        filledAfter buffer.ins.parser.unparsedEnd (a++[59])+m.length ≤ instructionbufSize ↔
        buffer.ins.parser.unparsedEnd+(wireInstruction es).length ≤ instructionbufSize ∨
          instructionbufSize≤buffer.ins.parser.unparsedEnd+(a++[59]).length := by
      rw [filledAfter]
      split_ifs <;> omega
    rw [←hbehind,not_le]
    refine ⟨fun hle => ?_,fun hlong n hn => ?_⟩
    · obtain ⟨parts'',buffer'',hparts'',hrun',hrest⟩ := hfits hle
      exact ⟨parts'',buffer'',hparts'',hrun.trans hrun',hrest⟩
    · rw [hrun]
      exact hlost hlong n hn

/-- No bytes are left in the parts. -/
theorem runParts_nil (h : parts.flatten=[]) (buffer : Accumulation) :
    runParts step parts buffer=buffer := by
  induction parts with
  | nil => rfl
  | cons part parts ih =>
    rw [flatten_cons,append_eq_nil_iff] at h
    obtain ⟨rfl,hrest⟩ := h
    exact ih hrest

/-- What a driver does with a stream of instructions. -/
theorem Collects.run_instructions (hstep : Collects step)
    (h : ∀ es∈instructions, WithinLimits es ∧ (wireInstruction es).length<sizeofData)
    (hfollowing : Following buffer.ins [])
    (hparts : parts.flatten=instructions.flatMap wireInstruction) :
    (KeptFrom buffer.ins.parser.unparsedEnd instructions → (runParts step parts buffer).ins.handled=
        buffer.ins.handled++instructions.map fun es => some (instructionOf es)) ∧
    (¬KeptFrom buffer.ins.parser.unparsedEnd instructions →
      (runParts step parts buffer).Lost (buffer.ins.handled.length+instructions.length)) := by
  induction instructions generalizing buffer parts with
  | nil =>
    rw [runParts_nil hparts]
    exact ⟨fun _ => (append_nil _).symm,fun hlost => absurd trivial hlost⟩
  | cons es instructions ih =>
    obtain ⟨⟨hes,hlen⟩,hall⟩ := forall_mem_cons.mp h
    rw [flatMap_cons] at hparts
    obtain ⟨hkept,hlost⟩ := hstep.run_instruction hes hlen hfollowing hparts
    rw [KeptFrom,not_and_or]
    by_cases hhere :
        buffer.ins.parser.unparsedEnd+(wireInstruction es).length ≤ instructionbufSize ∨
        instructionbufSize≤buffer.ins.parser.unparsedEnd+
          ((pieces (wireInstruction es)).headD []).length
    · obtain ⟨parts',buffer',hparts',hrun,hfollowing',hhandled,hfilled⟩ := hkept hhere
      obtain ⟨hkept',hlost'⟩ := ih hall hfollowing' hparts'
      rw [hfilled,hhandled] at hkept' hlost'
      rw [hrun]
      refine ⟨fun hrest => ?_,fun hrest => ?_⟩
      · rw [hkept' hrest.2,map_cons,append_assoc,singleton_append]
      · have hlost := hlost' (hrest.resolve_left (not_not.mpr hhere))
        rw [length_append,length_singleton,Nat.add_assoc,Nat.add_comm 1] at hlost
        exact hlost
    · refine ⟨fun hrest => absurd hrest.1 hhere,fun _ => hlost hhere _ ?_⟩
      rw [length_cons]
      omega

end Instructions

/-- A lost instruction is not handled as it is. -/
theorem Accumulation.Lost.ne {n : ℕ} (h : buffer.Lost n) {instructions : List Instruction}
    (hlen : instructions.length=n) : buffer.ins.handled≠instructions.map some := by
  intro heq
  rcases h with hnone | ⟨-,hlt⟩
  · rw [heq] at hnone
    simp at hnone
  · rw [heq,length_map] at hlt
    omega

/-- Before the first byte nothing is received. -/
theorem following_empty : Following emptyAccumulation.ins [] where
  progress := ⟨[],[],[],@progress_reset ⟨guacBufferedParserAlloc,0,0,0⟩ rfl rfl
    (Nat.zero_le _) (Nat.zero_le _)⟩
  active := guacParserAlloc_start.active
  begun := fun h => absurd rfl h
  known := rfl
  data := rfl
  room := by decide

/-- A driver handles the instructions of its stream exactly if none of them is lost. -/
theorem Driver.run_handled_iff (driver : Driver)
    (h : ∀ es∈instructions, WithinLimits es ∧ (wireInstruction es).length<sizeofData)
    (hparts : parts.flatten=instructions.flatMap wireInstruction) :
    (driver.run parts).ins.handled=(instructions.map instructionOf).map some ↔
      KeptFrom 0 instructions := by
  obtain ⟨step,parts',hstep,hflatten,hrun⟩ := driver.run_eq parts
  obtain ⟨hkept,hlost⟩ := hstep.run_instructions h following_empty (hflatten.trans hparts)
  rw [hrun]
  constructor
  · intro heq
    by_contra hnot
    refine (hlost hnot).ne ?_ heq
    rw [length_map]
    exact (Nat.zero_add _).symm
  · intro hall
    rw [hkept hall,map_map]
    rfl

/-- guacenc_read_instructions: the instructions it handles, and whether it succeeds. -/
def guacencReadInstructions (socket : List SocketEvent) : List Instruction×Bool :=
  let read := session guacBufferedParserAlloc socket
  (read.1,decide (read.2.status=.closed))

/-- From a stream of instructions it handles these. -/
theorem guacencReadInstructions_instructions
    (h : ∀ es∈instructions, WithinLimits es ∧ (wireInstruction es).length<sizeofData)
    {socket : List SocketEvent} (hd : Delivers socket)
    (hsocket : socketBytes socket=instructions.flatMap wireInstruction) :
    (guacencReadInstructions socket).1=instructions.map instructionOf :=
  session_instructions (fun es hes => ⟨(h es hes).1,(h es hes).2.le⟩)
    guacBufferedParserAlloc_boundary hd hsocket

/-- Each driver handles the same instructions as guacenc_read_instructions does with
the same stream exactly if the end of the buffer is reached in no instruction behind its
first piece. -/
theorem drivers_agree_iff (driver : Driver) {instructions : List (List Element)}
    (h : ∀ es∈instructions, WithinLimits es ∧ (wireInstruction es).length<sizeofData)
    {parts : List (List UInt8)} {socket : List SocketEvent} (hd : Delivers socket)
    (hparts : parts.flatten=instructions.flatMap wireInstruction)
    (hsocket : socketBytes socket=instructions.flatMap wireInstruction) :
    (driver.run parts).ins.handled=(guacencReadInstructions socket).1.map some ↔
      KeptFrom 0 instructions := by
  rw [guacencReadInstructions_instructions h hd hsocket]
  exact driver.run_handled_iff h hparts

theorem digits_one : ∀ d∈ascii "1", IsDigit d := forall_mem_of_all (by decide)

theorem digits_bulk : ∀ d∈ascii "8192", IsDigit d := forall_mem_of_all (by decide)

/-- An element whose text is a semicolon. -/
def semicolonElement : Element := ⟨ascii "1", digits_one, [';'].map utf8Char⟩

/-- An element with as much text as there may be. -/
def bulkElement : Element := ⟨ascii "8192", digits_bulk, (List.replicate 8192 'a').map utf8Char⟩

/-- Both are well-formed UTF-8. -/
theorem semicolonElement_ok : semicolonElement.WellFormed ∧ semicolonElement.Utf8 :=
  ⟨⟨by decide,by decide⟩,[';'],rfl⟩

theorem bulkElement_ok : bulkElement.WellFormed ∧ bulkElement.Utf8 := by
  have hlen : bulkElement.content.length=8192 := by
    rw [bulkElement,length_map,length_replicate]
  refine ⟨⟨?_,?_⟩,List.replicate 8192 'a',rfl⟩
  · rw [hlen]
    decide
  · rw [hlen]
    decide

theorem wire_semicolonElement : semicolonElement.wire=ascii "1.;" := by decide

theorem wire_bulkElement : bulkElement.wire=ascii "8192." ++ List.replicate 8192 97 := by
  have hchar : (utf8Char 'a').bytes=[97] := by decide
  have htext : textBytes ((List.replicate 8192 'a').map utf8Char)=List.replicate 8192 97 := by
    rw [textBytes,map_replicate,flatMap_replicate,hchar,flatten_replicate_singleton]
  have hdigits : ascii "8192" ++ [46]=ascii "8192." := by decide
  rw [←hdigits,Element.wire,bulkElement,htext,append_assoc,singleton_append]

theorem length_wire_bulkElement : bulkElement.wire.length=8197 := by
  have hdigits : (ascii "8192.").length=5 := rfl
  rw [wire_bulkElement,length_append,length_replicate,hdigits]

/-- An instruction in two pieces. -/
theorem drivers_agree_pieces : (Driver.run .recording [ascii "1.;;"]).ins.handled=
      (guacencReadInstructions (reads [ascii "1.", ascii ";;"])).1.map some := by
  have hwire : wireInstruction [semicolonElement]=ascii "1.;;" := by decide
  have hlimits : ∀ es∈[[semicolonElement]],
      WithinLimits es ∧ (wireInstruction es).length<sizeofData := by
    refine forall_mem_singleton.mpr ⟨⟨by simp,by decide,?_,?_⟩,?_⟩
    · exact forall_mem_singleton.mpr semicolonElement_ok.1
    · exact forall_mem_singleton.mpr semicolonElement_ok.2
    · rw [hwire]
      decide
  have hne : ∀ chunk∈[ascii "1.",ascii ";;"], chunk≠[] := by decide
  obtain ⟨hd,hsocket⟩ := reads_delivers hne
  refine (drivers_agree_iff .recording hlimits hd ?_ ?_).mpr ⟨Or.inl ?_,trivial⟩
  · rw [flatMap_singleton,hwire]
    decide
  · rw [hsocket,flatMap_singleton,hwire]
    decide
  · rw [hwire]
    decide

/-- Two instructions, of which the second has a semicolon in its first element and ends
behind the end of the buffer. -/
def brokenInstructions : List (List Element) :=
  [[bulkElement,bulkElement,bulkElement],[semicolonElement,bulkElement]]

/-- Of the large element only the size counts. -/
theorem length_firstInstruction {e : Element} (hlen : e.wire.length=8197) :
    (wireInstruction [e,e,e]).length=24594 := by
  simp [hlen]

theorem length_secondInstruction {e : Element} (hlen : e.wire.length=8197) :
    (wireInstruction [semicolonElement,e]).length=8202 := by
  simp [hlen,wire_semicolonElement,ascii]

/-- They are within the limits. -/
theorem brokenInstructions_ok :
    ∀ es∈brokenInstructions, WithinLimits es ∧ (wireInstruction es).length<sizeofData := by
  have hall : ∀ e : Element, e=semicolonElement ∨ e=bulkElement → e.WellFormed ∧ e.Utf8 := by
    rintro e (rfl | rfl)
    · exact semicolonElement_ok
    · exact bulkElement_ok
  refine forall_mem_cons.mpr ⟨⟨⟨by simp,by decide,fun e he => (hall e ?_).1,
    fun e he => (hall e ?_).2⟩,?_⟩,forall_mem_singleton.mpr ⟨⟨by simp,by decide,
    fun e he => (hall e ?_).1,fun e he => (hall e ?_).2⟩,?_⟩⟩
  · exact Or.inr (by simpa using he)
  · exact Or.inr (by simpa using he)
  · rw [length_firstInstruction length_wire_bulkElement]
    decide
  · simpa using he
  · simpa using he
  · rw [length_secondInstruction length_wire_bulkElement]
    decide

/-- The end of the buffer is in the second one. -/
theorem not_kept_broken : ¬KeptFrom 0 brokenInstructions := by
  have hbulk : 59 ∉ bulkElement.wire := by
    rw [wire_bulkElement,mem_append,mem_replicate]
    decide
  have hfirst : wireInstruction [bulkElement,bulkElement,bulkElement]=
      (bulkElement.wire++44::(bulkElement.wire++44::bulkElement.wire))++59::[] := by
    simp
  have hsecond : wireInstruction [semicolonElement,bulkElement]=
      ascii "1." ++ 59::(44::(bulkElement.wire++[59])) := by
    rw [wireInstruction_cons,wireInstruction_single,wire_semicolonElement]
    rfl
  have hpieces : pieces (wireInstruction [bulkElement,bulkElement,bulkElement])=
      [wireInstruction [bulkElement,bulkElement,bulkElement]] := by
    rw [hfirst,pieces_semicolon (by simp [hbulk])]
    rfl
  have hlong := length_firstInstruction length_wire_bulkElement
  have hlast := length_secondInstruction length_wire_bulkElement
  have hshort : (ascii "1." ++ [59]).length=3 := rfl
  have hsize : instructionbufSize=32768 := rfl
  rintro ⟨-,hkept,-⟩
  rw [hpieces,foldl_cons,foldl_nil,filledAfter,hlong,if_pos (by decide),hlast,
    hsecond,pieces_semicolon (by decide),headD_cons,hshort,hsize] at hkept
  omega

/-- The second instruction is lost. -/
theorem not_drivers_agree :
    (Driver.run .recording [brokenInstructions.flatMap wireInstruction]).ins.handled≠
      (guacencReadInstructions
        (reads [brokenInstructions.flatMap wireInstruction])).1.map some := by
  have hne : brokenInstructions.flatMap wireInstruction≠[] := by
    simp [brokenInstructions,Element.wire]
  obtain ⟨hd,hsocket⟩ := reads_delivers (forall_mem_singleton.mpr hne)
  rw [guacencReadInstructions_instructions brokenInstructions_ok hd
    (hsocket.trans (flatten_singleton ..))]
  intro heq
  exact not_kept_broken ((Driver.run_handled_iff .recording brokenInstructions_ok
    (flatten_singleton ..)).mp heq)

end GuacServer.EncoderJobs
