import Mathlib.Data.Vector.Defs
import GuacServer.ByteStreams
import GuacServer.DecimalNumerals
import GuacServer.StateRuns

/-!
# The RDPSND channel

The server announces formats, of which those of PCM data are accepted and remembered.
A wave is split over two messages: the first has its format, as an index, its size and its
first bytes, and the second the rest behind space for the first bytes. Nothing that the
messages say is checked.
-/

namespace GuacServer.RdpSound

open ByteStreams DecimalNumerals StateRuns

/-- guac_rdpsnd_pcm_format. -/
structure PcmFormat where
  /-- Samples per second. -/
  rate : ℤ
  channels : ℤ
  /-- Bits per sample. -/
  bps : ℤ
  deriving DecidableEq

/-- GUAC_RDP_MAX_FORMATS. -/
def guacRdpMaxFormats : ℕ := 16

/-- What is done with the audio stream. -/
inductive AudioCall
  /-- guac_audio_stream_reset. -/
  | reset (format : PcmFormat)
  /-- guac_audio_stream_write_pcm, with the length given. -/
  | writePcm (data : List UInt8) (length : ℤ)
  /-- guac_audio_stream_flush. -/
  | flush
  deriving DecidableEq

/-- Accesses that are to be within bounds. -/
inductive Access
  /-- The format with an index is accessed when there are so many formats. -/
  | format (index formatCount : ℕ)
  /-- So many bytes of a wave message of some length are passed on. -/
  | wave (size : ℤ) (length : ℕ)
  deriving DecidableEq

/-- An access is within bounds. -/
def Access.Within : Access→Prop
  | .format index formatCount => index<formatCount
  | .wave size length => 0 ≤ size ∧ size≤length

instance : DecidablePred Access.Within
  | .format _ _ => inferInstanceAs (Decidable (_ < _))
  | .wave _ _ => inferInstanceAs (Decidable (_ ∧ _))

/-- guac_rdpsnd, and what was sent, done and accessed. -/
structure Rdpsnd where
  /-- The block number of the last wave. -/
  waveinfoBlockNumber : ℕ
  /-- The next message is the rest of a wave. -/
  nextPduIsWave : Bool
  /-- The first bytes of a wave. -/
  initialWaveData : List UInt8
  /-- The size of the rest of a wave. -/
  incomingWaveSize : ℤ
  /-- The last timestamp. -/
  serverTimestamp : ℕ
  /-- The formats accepted. -/
  formats : Vector PcmFormat guacRdpMaxFormats
  /-- How many they are. -/
  formatCount : ℕ
  /-- The messages sent. -/
  sent : List (List UInt8)
  /-- What was done with the audio stream. -/
  audioCalls : List AudioCall
  /-- The accesses so far. -/
  accesses : List Access
  deriving DecidableEq

/-- guac_rdpsnd_process_connect. -/
def guacRdpsndProcessConnect : Rdpsnd :=
  ⟨0,false,[0,0,0,0],0,0,Vector.replicate _ ⟨0,0,0⟩,0,[],[],[]⟩

/-- guac_rdp_common_svc_write. -/
def Rdpsnd.write (message : List UInt8) (rdpsnd : Rdpsnd) : Rdpsnd :=
  { rdpsnd with sent := rdpsnd.sent++[message] }

/-- Something is accessed. -/
def Rdpsnd.access (access : Access) (rdpsnd : Rdpsnd) : Rdpsnd :=
  { rdpsnd with accesses := rdpsnd.accesses++[access] }

/-- Something is done with the audio stream. -/
def Rdpsnd.call (call : AudioCall) (rdpsnd : Rdpsnd) : Rdpsnd :=
  { rdpsnd with audioCalls := rdpsnd.audioCalls++[call] }

/-- SNDC_CLOSE. -/
def sndcClose : ℕ := 1

/-- SNDC_WAVE. -/
def sndcWave : ℕ := 2

/-- SNDC_WAVECONFIRM. -/
def sndcWaveconfirm : ℕ := 5

/-- SNDC_TRAINING. -/
def sndcTraining : ℕ := 6

/-- SNDC_FORMATS. -/
def sndcFormats : ℕ := 7

/-- SNDC_QUALITYMODE. -/
def sndcQualitymode : ℕ := 12

/-- WAVE_FORMAT_PCM. -/
def waveFormatPcm : ℕ := 1

/-- TSSNDCAPS_ALIVE. -/
def tssndcapsAlive : ℕ := 1

/-- HIGH_QUALITY. -/
def highQuality : ℕ := 2

/-! ## Handlers -/

/-- A format is accepted. -/
def Rdpsnd.accept (format : PcmFormat) (rdpsnd : Rdpsnd) : Rdpsnd :=
  let current := rdpsnd.formatCount
  let rdpsnd := { rdpsnd with
    formatCount := current+1
    formats := rdpsnd.formats.setIfInBounds current format }
  (rdpsnd.access (.format current rdpsnd.formatCount)).call (.reset format)

/-- The loop over the formats of the server, with the bytes of those that are accepted. -/
def checkFormats : ℕ→ByteStream→Rdpsnd→List UInt8→Option (Rdpsnd×List UInt8)
  | 0, _, rdpsnd, accepted => some (rdpsnd,accepted)
  | count+1, formatStart, rdpsnd, accepted => do
    let (formatTag,input) ← formatStart.readUInt 2
    let (channels,input) ← input.readUInt 2
    let (rate,input) ← input.readUInt 4
    let input := (input.seek 4).seek 2
    let (bps,input) ← input.readUInt 2
    let (bodySize,input) ← input.readUInt 2
    let input := input.seek bodySize
    if formatTag=waveFormatPcm ∧ rdpsnd.formatCount<guacRdpMaxFormats then
      let rdpsnd := rdpsnd.accept ⟨wrap32 rate,channels,bps⟩
      let (format,_) ← formatStart.read (18+bodySize)
      checkFormats count input rdpsnd (accepted++format)
    else checkFormats count input rdpsnd accepted

/-- The Client Audio Formats and Version PDU, with its body size. -/
def clientFormats (formatCount : ℕ) (accepted : List UInt8) : List UInt8 :=
  let rest := littleEndianBytes 4 tssndcapsAlive++littleEndianBytes 4 0++
    littleEndianBytes 4 0++littleEndianBytes 2 0++littleEndianBytes 2 formatCount++[0]++
    littleEndianBytes 2 6++[0]++accepted
  littleEndianBytes 1 sndcFormats++[0]++littleEndianBytes 2 rest.length++rest

/-- The Quality Mode PDU. -/
def qualityMode : List UInt8 :=
  littleEndianBytes 1 sndcQualitymode++[0]++littleEndianBytes 2 4++
    littleEndianBytes 2 highQuality++littleEndianBytes 2 0

/-- guac_rdpsnd_formats_handler. -/
def guacRdpsndFormatsHandler (audio : Bool) (input : ByteStream) (rdpsnd : Rdpsnd) :
    Option Rdpsnd := do
  let rdpsnd := { rdpsnd with formatCount := 0 }
  let input := input.seek 14
  let (serverFormatCount,input) ← input.readUInt 2
  let input := input.seek 1
  let (serverVersion,input) ← input.readUInt 2
  let input := input.seek 1
  let (rdpsnd,accepted) ←
    if audio then checkFormats serverFormatCount input rdpsnd [] else some (rdpsnd,[])
  let rdpsnd := rdpsnd.write (clientFormats rdpsnd.formatCount accepted)
  some (if 6 ≤ serverVersion then rdpsnd.write qualityMode else rdpsnd)

/-- guac_rdpsnd_training_handler. -/
def guacRdpsndTrainingHandler (input : ByteStream) (rdpsnd : Rdpsnd) : Option Rdpsnd := do
  let (serverTimestamp,input) ← input.readUInt 2
  let (dataSize,_) ← input.readUInt 2
  some ({ rdpsnd with serverTimestamp := serverTimestamp }.write
    (littleEndianBytes 1 sndcTraining++[0]++littleEndianBytes 2 4++
      littleEndianBytes 2 serverTimestamp++littleEndianBytes 2 dataSize))

/-- guac_rdpsnd_wave_info_handler. -/
def guacRdpsndWaveInfoHandler (audio : Bool) (bodySize : ℕ) (input : ByteStream)
    (rdpsnd : Rdpsnd) : Option Rdpsnd := do
  let (serverTimestamp,input) ← input.readUInt 2
  let (format,input) ← input.readUInt 2
  let (blockNumber,input) ← input.readUInt 1
  let input := input.seek 3
  let (initialWaveData,_) ← input.read 4
  let rdpsnd := { rdpsnd with
    serverTimestamp := serverTimestamp
    waveinfoBlockNumber := blockNumber
    initialWaveData := initialWaveData
    incomingWaveSize := bodySize-12
    nextPduIsWave := true }
  if audio then
    -- an entry that was not accepted is stale, and there are no more than the maximum
    let entry ← rdpsnd.formats[format]?
    some ((rdpsnd.access (.format format rdpsnd.formatCount)).call (.reset entry))
  else some rdpsnd

/-- guac_rdpsnd_wave_handler: the first bytes of the message are overwritten, and as many as
the size says are passed on, if there are so many. -/
def guacRdpsndWaveHandler (audio : Bool) (input : ByteStream) (rdpsnd : Rdpsnd) :
    Option Rdpsnd := do
  let buffer := rdpsnd.initialWaveData++input.data.drop 4
  let size := rdpsnd.incomingWaveSize+4
  let rdpsnd ←
    if audio then
      if input.data.length<size then none
      else some (((rdpsnd.access (.wave size input.data.length)).call
        (.writePcm (buffer.take size.toNat) size)).call .flush)
    else some rdpsnd
  let rdpsnd := rdpsnd.write (littleEndianBytes 1 sndcWaveconfirm++[0]++
    littleEndianBytes 2 4++littleEndianBytes 2 rdpsnd.serverTimestamp++
    littleEndianBytes 1 rdpsnd.waveinfoBlockNumber++[0])
  some { rdpsnd with nextPduIsWave := false }

/-- guac_rdpsnd_close_handler. -/
def guacRdpsndCloseHandler (rdpsnd : Rdpsnd) : Option Rdpsnd := some rdpsnd

/-- guac_rdpsnd_process_receive, as long as only bytes that were received and entries that
exist are read. -/
def guacRdpsndProcessReceive (audio : Bool) (pdu : List UInt8) (rdpsnd : Rdpsnd) :
    Option Rdpsnd := do
  let (messageType,input) ← (ByteStream.mk pdu 0).readUInt 1
  let input := input.seek 1
  let (bodySize,input) ← input.readUInt 2
  if rdpsnd.nextPduIsWave then guacRdpsndWaveHandler audio input rdpsnd
  else if messageType=sndcFormats then guacRdpsndFormatsHandler audio input rdpsnd
  else if messageType=sndcTraining then guacRdpsndTrainingHandler input rdpsnd
  else if messageType=sndcWave then guacRdpsndWaveInfoHandler audio bodySize input rdpsnd
  else if messageType=sndcClose then guacRdpsndCloseHandler rdpsnd
  else some rdpsnd

/-! ## Messages that fit -/

/-- So many formats are complete from a position on, when some were accepted before: each
has 18 bytes, and its extra data if another follows or it is accepted. -/
def FormatsFit : ℕ→ByteStream→ℕ→Prop
  | 0, _, _ => True
  | count+1, input, formatCount =>
    input.Has 18 ∧ let bodySize := (input.seek 16).uint 2
      let next := input.seek (18+bodySize)
      if input.uint 2=waveFormatPcm ∧ formatCount<guacRdpMaxFormats then
        input.Has (18+bodySize) ∧ FormatsFit count next (formatCount+1)
      else FormatsFit count next formatCount

/-- The header of a message was received, and all that its handler reads; the size of a
wave is within the message and the index of a format is one of those accepted. -/
def Fits (audio : Bool) (pdu : List UInt8) (rdpsnd : Rdpsnd) : Prop :=
  let input : ByteStream := ⟨pdu,4⟩
  let messageType := (ByteStream.mk pdu 0).uint 1
  4≤pdu.length ∧ if rdpsnd.nextPduIsWave then
      audio=true→0≤rdpsnd.incomingWaveSize+4 ∧ rdpsnd.incomingWaveSize+4≤pdu.length
    else if messageType=sndcFormats then
      input.Has 19 ∧ (audio=true→FormatsFit ((input.seek 14).uint 2) (input.seek 20) 0)
    else if messageType=sndcTraining then input.Has 4
    else if messageType=sndcWave then
      input.Has 12 ∧ (audio=true→(input.seek 2).uint 2<rdpsnd.formatCount)
    else True

/-! ## One message -/

/-- All accesses so far were within bounds. -/
def AccessesWithin (rdpsnd : Rdpsnd) : Prop := ∀ access∈rdpsnd.accesses, access.Within

variable {audio : Bool} {rdpsnd next : Rdpsnd} {input : ByteStream}

theorem accessesWithin_access {access : Access} :
    AccessesWithin (rdpsnd.access access) ↔ AccessesWithin rdpsnd ∧ access.Within := by
  simp [AccessesWithin,Rdpsnd.access,or_imp,forall_and]

/-- A format is read completely, and remembered if it is accepted. -/
theorem checkFormats_succ (count : ℕ) (accepted : List UInt8) (h : input.Has 18) :
    checkFormats (count+1) input rdpsnd accepted=let format : PcmFormat :=
        ⟨wrap32 ((input.seek 4).uint 4),(input.seek 2).uint 2,(input.seek 14).uint 2⟩
      let bodySize := (input.seek 16).uint 2
      let rest := input.seek (18+bodySize)
      if input.uint 2=waveFormatPcm ∧ rdpsnd.formatCount<guacRdpMaxFormats then
        (input.read (18+bodySize)).bind fun (bytes,_) =>
          checkFormats count rest (rdpsnd.accept format) (accepted++bytes)
      else checkFormats count rest rdpsnd accepted := by
  have h2 : input.Has 2 := h.mono (by decide)
  have h4 : input.Has 4 := h.mono (by decide)
  have h8 : input.Has 8 := h.mono (by decide)
  have h16 : input.Has 16 := h.mono (by decide)
  simp [checkFormats,ByteStream.readUInt_of_has,h,h2,h4,h8,h16]

theorem has_of_checkFormats {count : ℕ} {accepted : List UInt8} {result : Rdpsnd×List UInt8}
    (h : checkFormats (count+1) input rdpsnd accepted=some result) : input.Has 18 := by
  have hsome := Option.isSome_of_mem h
  simp only [checkFormats,Option.bind_eq_bind,ByteStream.isSome_readUInt_bind,
    ByteStream.has_seek,ByteStream.seek_seek,Nat.reduceAdd,ByteStream.has_and_has_and,
    Nat.reduceLeDiff] at hsome
  exact hsome.1

/-- The accesses were within bounds, and there are no more formats than entries. -/
structure Good (rdpsnd : Rdpsnd) : Prop where
  within : AccessesWithin rdpsnd
  count : rdpsnd.formatCount≤guacRdpMaxFormats

/-- An accepted format has an index below the new number of formats. -/
theorem Good.accept {format : PcmFormat} (h : Good rdpsnd)
    (hspace : rdpsnd.formatCount<guacRdpMaxFormats) : Good (rdpsnd.accept format) :=
  ⟨accessesWithin_access.mpr ⟨h.within,Nat.lt_succ_self _⟩,hspace⟩

theorem Good.write {message : List UInt8} (h : Good rdpsnd) : Good (rdpsnd.write message) :=
  ⟨h.within,h.count⟩

theorem Good.checkFormats {count : ℕ} (hgood : Good rdpsnd) (accepted : List UInt8)
    (h : FormatsFit count input rdpsnd.formatCount) :
    ∃ result, checkFormats count input rdpsnd accepted=some result ∧ Good result.1 := by
  induction count generalizing input rdpsnd accepted with
  | zero => exact ⟨_,rfl,hgood⟩
  | succ count ih =>
    obtain ⟨hformat,hrest⟩ := h
    rw [checkFormats_succ count accepted hformat]
    dsimp only at hrest ⊢
    split_ifs at hrest ⊢ with haccepted
    · obtain ⟨hbody,hrest⟩ := hrest
      rw [ByteStream.read_of_has hbody]
      exact ih (hgood.accept haccepted.2) _ hrest
    · exact ih hgood _ hrest

theorem fit_of_checkFormats {count : ℕ} {accepted : List UInt8} {result : Rdpsnd×List UInt8}
    (h : checkFormats count input rdpsnd accepted=some result) :
    FormatsFit count input rdpsnd.formatCount := by
  induction count generalizing input rdpsnd accepted with
  | zero => trivial
  | succ count ih =>
    have hformat := has_of_checkFormats h
    rw [checkFormats_succ count accepted hformat] at h
    refine ⟨hformat,?_⟩
    dsimp only at h ⊢
    split_ifs at h ⊢
    · obtain ⟨⟨bytes,next⟩,hread,h⟩ := Option.bind_eq_some_iff.mp h
      exact ⟨(ByteStream.read_eq_some_iff.mp hread).1,ih h⟩
    · exact ih h

/-- The formats of a server keep the channel in order. -/
theorem Good.formatsHandler (h : Good rdpsnd) (hhas : input.Has 19)
    (hfit : audio=true→FormatsFit ((input.seek 14).uint 2) (input.seek 20) 0) :
    ∃ next, guacRdpsndFormatsHandler audio input rdpsnd=some next ∧ Good next := by
  have hcleared : Good { rdpsnd with formatCount := 0 } := ⟨h.within,Nat.zero_le _⟩
  have hwritten : ∀ {r : Rdpsnd} {message : List UInt8} {version : ℕ}, Good r →
      Good (if 6≤version then (r.write message).write qualityMode else r.write message) := by
    intro r message version hr
    split_ifs
    · exact hr.write.write
    · exact hr.write
  have h16 : input.Has 16 := hhas.mono (by decide)
  simp only [guacRdpsndFormatsHandler,Option.bind_eq_bind,Option.bind_some,
    ByteStream.readUInt_of_has,ByteStream.has_seek,ByteStream.seek_seek,Nat.reduceAdd,h16,hhas]
  cases audio with
  | false => exact ⟨_,rfl,hwritten hcleared⟩
  | true =>
    obtain ⟨result,hresult,hgood⟩ := hcleared.checkFormats [] (hfit rfl)
    simp only [if_true,hresult,Option.bind_some]
    exact ⟨_,rfl,hwritten hgood⟩

theorem fit_of_formatsHandler (h : guacRdpsndFormatsHandler audio input rdpsnd=some next) :
    input.Has 19 ∧ (audio=true→FormatsFit ((input.seek 14).uint 2) (input.seek 20) 0) := by
  simp only [guacRdpsndFormatsHandler,Option.bind_eq_bind,Option.bind_eq_some_iff,
    Prod.exists,ByteStream.readUInt_eq_some_iff,Prod.mk.injEq] at h
  obtain ⟨_,_,⟨-,rfl,rfl⟩,_,_,⟨hhas,-,rfl⟩,hformats⟩ := h
  refine ⟨by simpa using hhas,fun haudio => ?_⟩
  rw [if_pos haudio] at hformats
  obtain ⟨result,hresult,-⟩ := Option.bind_eq_some_iff.mp hformats
  simpa using fit_of_checkFormats hresult

theorem Good.trainingHandler (h : Good rdpsnd) (hhas : input.Has 4) :
    ∃ next, guacRdpsndTrainingHandler input rdpsnd=some next ∧ Good next := by
  have h2 : input.Has 2 := hhas.mono (by decide)
  simp only [guacRdpsndTrainingHandler,Option.bind_eq_bind,Option.bind_some,
    ByteStream.readUInt_of_has,ByteStream.has_seek,Nat.reduceAdd,h2,hhas]
  exact ⟨_,rfl,h.within,h.count⟩

theorem has_of_trainingHandler (h : guacRdpsndTrainingHandler input rdpsnd=some next) :
    input.Has 4 := by
  have hsome := Option.isSome_of_mem h
  simpa [guacRdpsndTrainingHandler] using hsome

/-- The begin of a wave keeps the channel in order. -/
theorem Good.waveInfoHandler (h : Good rdpsnd) (bodySize : ℕ) (hhas : input.Has 12)
    (hindex : audio=true→(input.seek 2).uint 2<rdpsnd.formatCount) :
    ∃ next, guacRdpsndWaveInfoHandler audio bodySize input rdpsnd=some next ∧ Good next := by
  have h2 : input.Has 2 := hhas.mono (by decide)
  have h4 : input.Has 4 := hhas.mono (by decide)
  have h5 : input.Has 5 := hhas.mono (by decide)
  simp only [guacRdpsndWaveInfoHandler,Option.bind_eq_bind,Option.bind_some,
    ByteStream.readUInt_of_has,ByteStream.read_of_has,ByteStream.has_seek,ByteStream.seek_seek,
    Nat.reduceAdd,h2,h4,h5,hhas]
  cases audio with
  | false => exact ⟨_,rfl,h.within,h.count⟩
  | true =>
    have hlt := (hindex rfl).trans_le h.count
    simp only [if_true,Vector.getElem?_eq_getElem hlt,Option.bind_some]
    exact ⟨_,rfl,accessesWithin_access.mpr ⟨h.within,hindex rfl⟩,h.count⟩

/-- The begin of a wave is within the message. -/
theorem fit_of_waveInfoHandler {bodySize : ℕ}
    (h : guacRdpsndWaveInfoHandler audio bodySize input rdpsnd=some next)
    (hwithin : AccessesWithin next) :
    input.Has 12 ∧ (audio=true→(input.seek 2).uint 2<rdpsnd.formatCount) := by
  simp only [guacRdpsndWaveInfoHandler,Option.bind_eq_bind,Option.bind_eq_some_iff,
    Prod.exists,ByteStream.readUInt_eq_some_iff,ByteStream.read_eq_some_iff,Prod.mk.injEq] at h
  obtain ⟨_,_,⟨-,rfl,rfl⟩,_,_,⟨-,rfl,rfl⟩,_,_,⟨-,rfl,rfl⟩,_,_,⟨hhas,rfl,-⟩,hreset⟩ := h
  refine ⟨by simpa using hhas,fun haudio => ?_⟩
  rw [if_pos haudio] at hreset
  obtain ⟨entry,-,hnext⟩ := Option.bind_eq_some_iff.mp hreset
  cases hnext
  exact (accessesWithin_access.mp hwithin).2

theorem Good.waveHandler (h : Good rdpsnd)
    (hsize : audio=true→0≤rdpsnd.incomingWaveSize+4 ∧
      rdpsnd.incomingWaveSize+4 ≤ input.data.length) :
    ∃ next, guacRdpsndWaveHandler audio input rdpsnd=some next ∧ Good next := by
  cases audio with
  | false => exact ⟨_,rfl,h.within,h.count⟩
  | true =>
    have hwithin := hsize rfl
    simp only [guacRdpsndWaveHandler,if_true,Int.not_lt.mpr hwithin.2,if_false]
    exact ⟨_,rfl,accessesWithin_access.mpr ⟨h.within,hwithin⟩,h.count⟩

theorem fit_of_waveHandler (h : guacRdpsndWaveHandler audio input rdpsnd=some next)
    (hwithin : AccessesWithin next) :
    audio=true→0≤rdpsnd.incomingWaveSize+4 ∧ rdpsnd.incomingWaveSize+4 ≤ input.data.length := by
  rintro rfl
  simp only [guacRdpsndWaveHandler,if_true] at h
  by_cases hlong : (input.data.length : ℤ)<rdpsnd.incomingWaveSize+4
  · rw [if_pos hlong] at h
    cases h
  · rw [if_neg hlong] at h
    cases h
    exact (accessesWithin_access.mp hwithin).2

/-! ## Runs -/

variable {pdu : List UInt8}

/-- The header is read, and the message passed on to its handler. -/
theorem processReceive_of_has (h : 4≤pdu.length) :
    guacRdpsndProcessReceive audio pdu rdpsnd=
      if rdpsnd.nextPduIsWave then guacRdpsndWaveHandler audio ⟨pdu,4⟩ rdpsnd
      else if (ByteStream.mk pdu 0).uint 1=sndcFormats then
        guacRdpsndFormatsHandler audio ⟨pdu,4⟩ rdpsnd
      else if (ByteStream.mk pdu 0).uint 1=sndcTraining then
        guacRdpsndTrainingHandler ⟨pdu,4⟩ rdpsnd
      else if (ByteStream.mk pdu 0).uint 1=sndcWave then
        guacRdpsndWaveInfoHandler audio ((ByteStream.mk pdu 2).uint 2) ⟨pdu,4⟩ rdpsnd
      else if (ByteStream.mk pdu 0).uint 1=sndcClose then guacRdpsndCloseHandler rdpsnd
      else some rdpsnd := by
  have h4 : (ByteStream.mk pdu 0).Has 4 := (Nat.zero_add 4).trans_le h
  have h1 : (ByteStream.mk pdu 0).Has 1 := h4.mono (by decide)
  simp only [guacRdpsndProcessReceive,Option.bind_eq_bind,Option.bind_some,
    ByteStream.readUInt_of_has,ByteStream.has_seek,ByteStream.seek_seek,Nat.reduceAdd,h1,h4]
  rfl

theorem has_of_processReceive (h : guacRdpsndProcessReceive audio pdu rdpsnd=some next) :
    4≤pdu.length := by
  have hsome := Option.isSome_of_mem h
  simp only [guacRdpsndProcessReceive,Option.bind_eq_bind,ByteStream.isSome_readUInt_bind,
    ByteStream.has_seek,ByteStream.seek_seek,Nat.reduceAdd,ByteStream.has_and_has_and,
    Nat.reduceLeDiff] at hsome
  simpa [ByteStream.Has] using hsome.1

theorem Good.processReceive (h : Good rdpsnd) (hfits : Fits audio pdu rdpsnd) :
    ∃ next, guacRdpsndProcessReceive audio pdu rdpsnd=some next ∧ Good next := by
  obtain ⟨hheader,hbody⟩ := hfits
  rw [processReceive_of_has hheader]
  split_ifs at hbody ⊢
  · exact h.waveHandler hbody
  · exact h.formatsHandler hbody.1 hbody.2
  · exact h.trainingHandler hbody
  · exact h.waveInfoHandler _ hbody.1 hbody.2
  · exact ⟨rdpsnd,rfl,h⟩
  · exact ⟨rdpsnd,rfl,h⟩

theorem fits_of_processReceive (h : guacRdpsndProcessReceive audio pdu rdpsnd=some next)
    (hwithin : AccessesWithin next) :
    Fits audio pdu rdpsnd := by
  have hheader := has_of_processReceive h
  refine ⟨hheader,?_⟩
  rw [processReceive_of_has hheader] at h
  split_ifs at h ⊢
  · exact fit_of_waveHandler h hwithin
  · exact fit_of_formatsHandler h
  · exact has_of_trainingHandler h
  · exact fit_of_waveInfoHandler h hwithin

theorem good_processConnect : Good guacRdpsndProcessConnect :=
  ⟨fun _ h => absurd h List.not_mem_nil,Nat.zero_le _⟩

/-- A sequence of messages is handled without a read or an access out of bounds exactly if
each of them fits. -/
theorem sound_within_iff (audio : Bool) (pdus : List (List UInt8)) :
    (∀ received, received <+: pdus→∃ rdpsnd,
        run (guacRdpsndProcessReceive audio) received guacRdpsndProcessConnect=some rdpsnd ∧
          AccessesWithin rdpsnd) ↔
      Along (guacRdpsndProcessReceive audio) (Fits audio) pdus guacRdpsndProcessConnect :=
  run_iff_along Good.within Good.processReceive (fun _ => fits_of_processReceive) pdus
    good_processConnect

/-- A wave with the first format, although none was accepted. -/
def waveWithoutFormat : List UInt8 := [2,0,16,0,0,0,0,0,0,0,0,0,1,2,3,4]

theorem not_sound_within : ¬∀ (audio : Bool) (pdus : List (List UInt8)), ∃ rdpsnd,
      run (guacRdpsndProcessReceive audio) pdus guacRdpsndProcessConnect=some rdpsnd ∧
        AccessesWithin rdpsnd := by
  intro h
  obtain ⟨rdpsnd,hrun,hwithin⟩ := h true [waveWithoutFormat]
  have haccesses : (run (guacRdpsndProcessReceive true) [waveWithoutFormat]
      guacRdpsndProcessConnect).map Rdpsnd.accesses=some [.format 0 0] := by
    decide +kernel
  rw [hrun,Option.map_some,Option.some.injEq] at haccesses
  exact absurd (hwithin (.format 0 0) (by simp [haccesses])) (Nat.not_lt_zero 0)

end GuacServer.RdpSound
