import GuacServer.BlobTransport
import GuacServer.StateRuns

/-!
# Raw audio streams

The raw encoder collects PCM data in a buffer and sends it in blobs when the
buffer is full or flushed. The stream is announced with the format of the data.
A reset to another format ends the stream, frees the buffer with what is in it
and announces the stream anew. A buffer without room keeps the encoder flushing
forever.
-/

namespace GuacServer.AudioStream

open BlobTransport DecimalNumerals List StateRuns Unicode

/-- The encoders of raw_encoder.c, which have the same handlers. -/
inductive AudioEncoder
  /-- raw8_encoder. -/
  | raw8
  /-- raw16_encoder. -/
  | raw16
  deriving DecidableEq

/-- The format of PCM data. -/
structure PcmFormat where
  /-- Samples per second. -/
  rate : ℤ
  channels : ℤ
  /-- Bits per sample and channel. -/
  bps : ℤ
  deriving DecidableEq

/-- Instructions sent about the stream. -/
inductive AudioInstruction
  /-- The stream has data of this type from now on. -/
  | audio (mimetype : List UInt8)
  | blob (data : List UInt8)
  /-- The stream ends. -/
  | ended
  deriving DecidableEq

/-- guac_audio_stream with a raw encoder and its state. -/
structure GuacAudioStream where
  encoder : AudioEncoder
  format : PcmFormat
  /-- The size of the buffer. -/
  length : ℤ
  /-- The bytes written to the buffer. -/
  buffer : List UInt8
  /-- All instructions sent so far. -/
  sent : List AudioInstruction
  deriving DecidableEq

/-- GUAC_RAW_ENCODER_BUFFER_SIZE. -/
def guacRawEncoderBufferSize : ℤ := 250

/-- The mimetype of raw audio. -/
def PcmFormat.mimetype (format : PcmFormat) : List UInt8 :=
  ascii "audio/L" ++ decimalInt format.bps++ascii ";rate=" ++ decimalInt format.rate++
    ascii ",channels=" ++ decimalInt format.channels

/-- The size of the buffer for a format, with int products. -/
def PcmFormat.bufferLength (format : PcmFormat) : ℤ :=
  ((wrap32 (wrap32 (wrap32 (guacRawEncoderBufferSize*format.rate)*format.channels) *
    format.bps)).tdiv 8).tdiv 1000

/-- raw_encoder_send_audio to all users. -/
def rawEncoderSendAudio (audio : GuacAudioStream) : GuacAudioStream :=
  { audio with sent := audio.sent++[.audio audio.format.mimetype] }

/-- raw_encoder_begin_handler. -/
def rawEncoderBeginHandler (audio : GuacAudioStream) : GuacAudioStream :=
  { rawEncoderSendAudio audio with
    length := audio.format.bufferLength
    buffer := [] }

/-- raw_encoder_end_handler. -/
def rawEncoderEndHandler (audio : GuacAudioStream) : GuacAudioStream :=
  { audio with
    sent := audio.sent++[.ended]
    buffer := [] }

/-- The instructions of guac_protocol_send_blobs. -/
def sentBlobs (data : List UInt8) : List AudioInstruction :=
  if 0<data.length then
    .blob (data.take guacProtocolBlobMaxLength)::sentBlobs (data.drop guacProtocolBlobMaxLength)
  else []
termination_by data.length
decreasing_by
  rw [length_drop]
  unfold guacProtocolBlobMaxLength
  omega

/-- raw_encoder_flush_handler. -/
def rawEncoderFlushHandler (audio : GuacAudioStream) : GuacAudioStream :=
  { audio with
    sent := audio.sent++sentBlobs audio.buffer
    buffer := [] }

/-- guac_audio_stream_flush. -/
def guacAudioStreamFlush (audio : GuacAudioStream) : GuacAudioStream := rawEncoderFlushHandler audio

/-- The loop of raw_encoder_write_handler, for a number of rounds. A copy of
negative size has no result. -/
def writeRounds : ℕ→List UInt8→GuacAudioStream→Option GuacAudioStream
  | 0, _, _ => none
  | rounds+1, pcmData, audio =>
    if pcmData=[] then some audio
    else
      let chunkSize := audio.length-audio.buffer.length
      if chunkSize=0 then writeRounds rounds pcmData (guacAudioStreamFlush audio)
      else if chunkSize<0 then none
      else
        let size := min chunkSize.toNat pcmData.length
        writeRounds rounds (pcmData.drop size)
          { audio with buffer := audio.buffer++pcmData.take size }

/-- raw_encoder_write_handler, if it returns. The rounds suffice for any buffer
that has room. -/
def rawEncoderWriteHandler (pcmData : List UInt8) (audio : GuacAudioStream) :
    Option GuacAudioStream :=
  writeRounds (2*pcmData.length+2) pcmData audio

/-- guac_audio_stream_write_pcm. -/
def guacAudioStreamWritePcm (data : List UInt8) (audio : GuacAudioStream) :
    Option GuacAudioStream :=
  rawEncoderWriteHandler data audio

/-- guac_audio_stream_alloc with the given encoder. -/
def guacAudioStreamAlloc (encoder : AudioEncoder) (format : PcmFormat) : GuacAudioStream :=
  rawEncoderBeginHandler ⟨encoder,format,0,[],[]⟩

/-- A reset changes nothing. -/
def Unchanging (encoder : Option AudioEncoder) (format : PcmFormat) (audio : GuacAudioStream) :
    Prop :=
  encoder.getD audio.encoder=audio.encoder ∧ format=audio.format

instance (encoder : Option AudioEncoder) (format : PcmFormat) (audio : GuacAudioStream) :
    Decidable (Unchanging encoder format audio) :=
  inferInstanceAs (Decidable (_ ∧ _))

/-- guac_audio_stream_reset. -/
def guacAudioStreamReset (encoder : Option AudioEncoder) (format : PcmFormat)
    (audio : GuacAudioStream) : GuacAudioStream :=
  if Unchanging encoder format audio then audio
  else
    rawEncoderBeginHandler { rawEncoderEndHandler audio with
      encoder := encoder.getD audio.encoder
      format := format }

/-- A stream with all the data written to it, each byte with the mimetype of the
format in which it was written. -/
structure AudioSession where
  audio : GuacAudioStream
  /-- The data. -/
  written : List (List UInt8×UInt8)
  deriving DecidableEq

/-- Calls on a stream. -/
inductive AudioCall
  /-- guac_audio_stream_write_pcm. -/
  | writePcm (data : List UInt8)
  /-- guac_audio_stream_flush. -/
  | flush
  /-- guac_audio_stream_reset. -/
  | reset (encoder : Option AudioEncoder) (format : PcmFormat)

/-- Data of a mimetype. -/
def tagged (mimetype data : List UInt8) : List (List UInt8×UInt8) := data.map fun b => (mimetype,b)

/-- One call, if it returns. -/
def audioStep : AudioCall→AudioSession→Option AudioSession
  | .writePcm data, session =>
    (guacAudioStreamWritePcm data session.audio).map fun audio =>
      ⟨audio,session.written++tagged session.audio.format.mimetype data⟩
  | .flush, session => some { session with audio := guacAudioStreamFlush session.audio }
  | .reset encoder format, session =>
    some { session with audio := guacAudioStreamReset encoder format session.audio }

/-- The mimetype that was announced last. -/
def announced : List UInt8→List AudioInstruction→List UInt8
  | mimetype, [] => mimetype
  | _, .audio mimetype::sent => announced mimetype sent
  | mimetype, .blob _ :: sent => announced mimetype sent
  | mimetype, .ended::sent => announced mimetype sent

/-- The payload of all blobs, each byte with the mimetype announced for it. -/
def payload : List UInt8→List AudioInstruction→List (List UInt8×UInt8)
  | _, [] => []
  | _, .audio mimetype::sent => payload mimetype sent
  | mimetype, .blob data::sent => tagged mimetype data++payload mimetype sent
  | mimetype, .ended::sent => payload mimetype sent

/-- What was sent and what is in the buffer. -/
def GuacAudioStream.carried (audio : GuacAudioStream) : List (List UInt8×UInt8) :=
  payload [] audio.sent++tagged audio.format.mimetype audio.buffer

/-- All data was sent or is in the buffer, in order and under its mimetype. -/
def Lossless (session : AudioSession) : Prop := session.audio.carried=session.written

/-- A call keeps the data: a reset that changes something finds nothing in the
buffer, and data is written to a buffer of positive size. -/
def AudioCall.Safe : AudioCall→AudioSession→Prop
  | .writePcm data, session => data=[] ∨ 0<session.audio.length
  | .flush, _ => True
  | .reset encoder format, session =>
    Unchanging encoder format session.audio ∨ session.audio.buffer=[]

instance (call : AudioCall) (session : AudioSession) : Decidable (call.Safe session) :=
  match call with
  | .writePcm _ => inferInstanceAs (Decidable (_ ∨ _))
  | .flush => inferInstanceAs (Decidable True)
  | .reset _ _ => inferInstanceAs (Decidable (_ ∨ _))

/-- Instructions are announced one after the other. -/
theorem announced_append (mimetype : List UInt8) (sent sent' : List AudioInstruction) :
    announced mimetype (sent++sent')=announced (announced mimetype sent) sent' := by
  induction sent generalizing mimetype with
  | nil => rfl
  | cons instruction sent ih => cases instruction <;> exact ih _

/-- Payloads follow one another. -/
theorem payload_append (mimetype : List UInt8) (sent sent' : List AudioInstruction) :
    payload mimetype (sent++sent')=
      payload mimetype sent++payload (announced mimetype sent) sent' := by
  induction sent generalizing mimetype with
  | nil => rfl
  | cons instruction sent ih =>
    cases instruction with
    | audio _ => exact ih _
    | blob data => simp only [cons_append,payload,announced,ih,append_assoc]
    | ended => exact ih _

/-- Data sent in blobs is their payload, and nothing is announced. -/
theorem sentBlobs_payload (mimetype data : List UInt8) :
    payload mimetype (sentBlobs data)=tagged mimetype data ∧
      announced mimetype (sentBlobs data)=mimetype := by
  induction hn : data.length using Nat.strong_induction_on generalizing data with
  | _ n ih =>
    subst hn
    rw [sentBlobs]
    by_cases hpos : 0<data.length
    · have hlt : (data.drop guacProtocolBlobMaxLength).length<data.length := by
        rw [length_drop]
        unfold guacProtocolBlobMaxLength
        omega
      obtain ⟨hpayload,hannounced⟩ := ih _ hlt _ rfl
      rw [if_pos hpos,payload,announced,hpayload]
      refine ⟨?_,hannounced⟩
      unfold tagged
      rw [←map_append,take_append_drop]
    · have hnil : data=[] := eq_nil_of_length_eq_zero (by omega)
      rw [if_neg hpos,hnil]
      exact ⟨rfl,rfl⟩

/-- The format of a stream is announced, and its buffer holds no more than it
can. -/
structure GuacAudioStream.Ready (audio : GuacAudioStream) : Prop where
  announced : announced [] audio.sent=audio.format.mimetype
  /-- The bytes in the buffer fit. -/
  fits : (audio.buffer.length : ℤ) ≤ max 0 audio.length

/-- An encoder that begins with nothing in its buffer. -/
theorem rawEncoderBeginHandler_ready (audio : GuacAudioStream) :
    (rawEncoderBeginHandler audio).Ready ∧
      (rawEncoderBeginHandler audio).carried=payload [] audio.sent := by
  refine ⟨⟨?_,le_max_left _ _⟩,?_⟩
  · show announced [] (audio.sent++[.audio audio.format.mimetype])=_
    rw [announced_append]
    rfl
  · show payload [] (audio.sent++[.audio audio.format.mimetype])++[]=_
    rw [payload_append,append_nil]
    exact append_nil _

variable {audio : GuacAudioStream}

/-- A flush sends what is in the buffer. -/
theorem guacAudioStreamFlush_ready (h : audio.Ready) :
    (guacAudioStreamFlush audio).Ready ∧ (guacAudioStreamFlush audio).carried=audio.carried := by
  obtain ⟨hpayload,hannounced⟩ := sentBlobs_payload audio.format.mimetype audio.buffer
  refine ⟨⟨?_,le_max_left _ _⟩,?_⟩
  · show announced [] (audio.sent++sentBlobs audio.buffer)=audio.format.mimetype
    rw [announced_append,h.announced,hannounced]
  · show payload [] (audio.sent++sentBlobs audio.buffer)++[]=_
    rw [payload_append,h.announced,hpayload,append_nil]
    rfl

/-- A chunk is copied into the buffer. -/
theorem ready_copied (h : audio.Ready) {chunk : List UInt8}
    (hfits : (audio.buffer.length+chunk.length : ℤ)≤audio.length) :
    { audio with buffer := audio.buffer++chunk }.Ready ∧
      { audio with buffer := audio.buffer++chunk }.carried=
        audio.carried++tagged audio.format.mimetype chunk := by
  refine ⟨⟨h.announced,?_⟩,?_⟩
  · dsimp only
    rw [length_append]
    push_cast
    exact le_max_of_le_right hfits
  · unfold GuacAudioStream.carried tagged
    dsimp only
    rw [map_append,append_assoc]

/-- The number of flushes before more can be written. -/
def GuacAudioStream.flushes (audio : GuacAudioStream) : ℕ :=
  if audio.length-audio.buffer.length=0 then 1 else 0

/-- Enough rounds copy all data into a buffer that has room at times: one for
each chunk, and one to flush before it. -/
theorem writeRounds_ready {rounds : ℕ} {pcmData : List UInt8} (h : audio.Ready)
    (hlength : 0<audio.length)
    (hrounds : 2*pcmData.length+audio.flushes<rounds) :
    ∃ audio', writeRounds rounds pcmData audio=some audio' ∧ audio'.Ready ∧
      audio'.carried=audio.carried++tagged audio.format.mimetype pcmData := by
  induction rounds generalizing pcmData audio with
  | zero => omega
  | succ rounds ih =>
    have hfits := h.fits
    rw [writeRounds]
    by_cases hnil : pcmData=[]
    · rw [if_pos hnil,hnil]
      exact ⟨audio,rfl,h,(append_nil _).symm⟩
    · rw [if_neg hnil]
      dsimp only
      by_cases hfull : audio.length-audio.buffer.length=0
      · rw [if_pos hfull]
        rw [GuacAudioStream.flushes,if_pos hfull] at hrounds
        obtain ⟨hready,hcarried⟩ := guacAudioStreamFlush_ready h
        have hempty : (guacAudioStreamFlush audio).flushes=0 := if_neg (by
          show audio.length-0≠0
          omega)
        obtain ⟨audio',hrun,hready',hcarried'⟩ := ih hready hlength (by
          rw [hempty]
          exact Nat.lt_of_succ_lt_succ hrounds)
        exact ⟨audio',hrun,hready',by rw [hcarried',hcarried]; rfl⟩
      · have hpos := length_pos_iff.mpr hnil
        rw [if_neg hfull,if_neg (by omega)]
        generalize hsize : min (audio.length-audio.buffer.length).toNat pcmData.length=size
        have htake : (pcmData.take size).length=size := by
          rw [length_take]
          omega
        obtain ⟨hready,hcarried⟩ := ready_copied h (by omega :
          (audio.buffer.length+(pcmData.take size).length : ℤ)≤audio.length)
        have hrest : 2*(pcmData.drop size).length+
            { audio with buffer := audio.buffer++pcmData.take size }.flushes<rounds := by
          rw [length_drop]
          unfold GuacAudioStream.flushes
          split <;> omega
        obtain ⟨audio',hrun,hready',hcarried'⟩ := ih hready hlength hrest
        refine ⟨audio',hrun,hready',?_⟩
        rw [hcarried',hcarried,append_assoc]
        unfold tagged
        rw [←map_append,take_append_drop]

/-- Nothing is copied into a buffer without room, in any number of rounds. -/
theorem writeRounds_none {rounds : ℕ} {pcmData : List UInt8} (hdata : pcmData≠[])
    (hlength : audio.length≤0) (hbuffer : audio.buffer=[]) :
    writeRounds rounds pcmData audio=none := by
  induction rounds generalizing audio with
  | zero => rfl
  | succ rounds ih =>
    rw [writeRounds,if_neg hdata,hbuffer]
    dsimp only
    by_cases hfull : audio.length-([] : List UInt8).length=0
    · rw [if_pos hfull]
      exact ih hlength rfl
    · rw [if_neg hfull,if_pos]
      rw [length_nil] at hfull ⊢
      omega

/-- A reset that changes something leaves out what is in the buffer. -/
theorem guacAudioStreamReset_ready {encoder : Option AudioEncoder} {format : PcmFormat}
    (h : ¬Unchanging encoder format audio) :
    (guacAudioStreamReset encoder format audio).Ready ∧
      (guacAudioStreamReset encoder format audio).carried=payload [] audio.sent := by
  rw [guacAudioStreamReset,if_neg h]
  obtain ⟨hready,hcarried⟩ := rawEncoderBeginHandler_ready { rawEncoderEndHandler audio with
    encoder := encoder.getD audio.encoder
    format := format }
  refine ⟨hready,hcarried.trans ?_⟩
  show payload [] (audio.sent++[.ended])=_
  rw [payload_append]
  exact append_nil _

/-- A session whose stream is ready and has lost nothing. -/
structure AudioGood (session : AudioSession) : Prop where
  /-- The stream is ready. -/
  ready : session.audio.Ready
  /-- Nothing is lost. -/
  lossless : Lossless session

/-- A safe call returns and loses nothing. -/
theorem audioStep_good {call : AudioCall} {session : AudioSession} (h : AudioGood session)
    (hsafe : call.Safe session) :
    ∃ session', audioStep call session=some session' ∧ AudioGood session' := by
  obtain ⟨hready,hlossless⟩ := h
  cases call with
  | writePcm data =>
    have hwritten : ∃ audio', guacAudioStreamWritePcm data session.audio=some audio' ∧
        audio'.Ready ∧ audio'.carried=
          session.audio.carried++tagged session.audio.format.mimetype data := by
      rcases hsafe with rfl | hlength
      · exact ⟨session.audio,rfl,hready,(append_nil _).symm⟩
      · refine writeRounds_ready hready hlength ?_
        unfold GuacAudioStream.flushes
        split <;> omega
    obtain ⟨audio',hrun,hready',hcarried⟩ := hwritten
    refine ⟨⟨audio',_⟩,?_,hready',hcarried.trans (by rw [hlossless])⟩
    rw [audioStep,hrun]
    rfl
  | flush =>
    obtain ⟨hready',hcarried⟩ := guacAudioStreamFlush_ready hready
    exact ⟨_,rfl,hready',hcarried.trans hlossless⟩
  | reset encoder format =>
    refine ⟨_,rfl,?_⟩
    by_cases hsame : Unchanging encoder format session.audio
    · rw [guacAudioStreamReset,if_pos hsame]
      exact ⟨hready,hlossless⟩
    · obtain ⟨hready',hcarried⟩ := guacAudioStreamReset_ready hsame
      refine ⟨hready',hcarried.trans ?_⟩
      rw [←hlossless,GuacAudioStream.carried,hsafe.resolve_left hsame]
      exact (append_nil _).symm

/-- Only safe calls return and lose nothing. -/
theorem safe_of_audioStep {call : AudioCall} {session session' : AudioSession}
    (h : AudioGood session) (hstep : audioStep call session=some session')
    (hlossless : Lossless session') : call.Safe session := by
  cases call with
  | writePcm data =>
    by_contra hunsafe
    obtain ⟨hdata,hlength⟩ := not_or.mp hunsafe
    have hfits := h.ready.fits
    have hbuffer : session.audio.buffer=[] := eq_nil_of_length_eq_zero (by omega)
    rw [audioStep,guacAudioStreamWritePcm,rawEncoderWriteHandler,
      writeRounds_none hdata (not_lt.mp hlength) hbuffer] at hstep
    cases hstep
  | flush => trivial
  | reset encoder format =>
    cases hstep
    by_cases hsame : Unchanging encoder format session.audio
    · exact Or.inl hsame
    · refine Or.inr ?_
      have hcarried := (guacAudioStreamReset_ready hsame).2.symm.trans
        (hlossless.trans h.lossless.symm)
      have hsize := congrArg List.length hcarried
      rw [GuacAudioStream.carried,length_append,tagged,length_map] at hsize
      exact eq_nil_of_length_eq_zero (by omega)

/-- A run on a new stream returns from every call with nothing lost exactly if
all its calls are safe. -/
theorem audioStream_lossless_iff (encoder : AudioEncoder) (format : PcmFormat)
    (calls : List AudioCall) :
    (∀ made, made <+: calls→∃ session,
      run audioStep made ⟨guacAudioStreamAlloc encoder format,[]⟩=some session ∧ Lossless session) ↔
      Along audioStep AudioCall.Safe calls ⟨guacAudioStreamAlloc encoder format,[]⟩ := by
  obtain ⟨hready,hcarried⟩ := rawEncoderBeginHandler_ready ⟨encoder,format,0,[],[]⟩
  exact run_iff_along AudioGood.lossless audioStep_good safe_of_audioStep calls ⟨hready,hcarried⟩

/-- What is in the buffer when the format changes is lost. -/
theorem not_lossless_reset : ∃ session, run audioStep [.writePcm [1,2],.reset none ⟨22050,2,16⟩]
        ⟨guacAudioStreamAlloc .raw16 ⟨44100,2,16⟩,[]⟩=some session ∧ ¬Lossless session := by
  refine ⟨_,rfl,fun h => ?_⟩
  have hlength := congrArg List.length h
  revert hlength
  decide

end GuacServer.AudioStream
