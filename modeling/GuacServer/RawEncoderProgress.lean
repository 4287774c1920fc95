import GuacServer.AudioStream

/-!
# Progress of the raw encoder

The loop of the raw encoder fills its buffer, which it flushes when there is no
room left. How much room there is depends on the format of the stream, for which
nothing but the size of the fields is known. The encoder goes on writing within
its buffer exactly if the size of the buffer is positive for every format.
-/

namespace GuacServer.AudioStream

open DecimalNumerals List StateRuns

/-- A format for which the buffer has room, by the product of its fields as an
int, in bits for 250 s. -/
def PcmFormat.Buffered (format : PcmFormat) : Prop :=
  8000≤wrap32 (guacRawEncoderBufferSize*format.rate*format.channels*format.bps)

instance (format : PcmFormat) : Decidable format.Buffered := inferInstanceAs (Decidable (_ ≤ _))

/-- Data copied into the buffer. -/
structure PcmCopy where
  /-- Its place in the buffer. -/
  offset : ℤ
  /-- Its length. -/
  size : ℤ
  deriving DecidableEq

/-- All bytes copied are inside the buffer. -/
def PcmCopy.Inside (copy : PcmCopy) (length : ℤ) : Prop :=
  0≤copy.offset ∧ 0≤copy.size ∧ copy.offset+copy.size≤length

/-- What the loop of raw_encoder_write_handler copies in a number of rounds. -/
def writeCopies : ℕ→List UInt8→GuacAudioStream→List PcmCopy
  | 0, _, _ => []
  | rounds+1, pcmData, audio =>
    if pcmData=[] then []
    else
      let chunkSize := audio.length-audio.buffer.length
      if chunkSize=0 then writeCopies rounds pcmData (guacAudioStreamFlush audio)
      else if chunkSize<0 then [⟨audio.buffer.length,chunkSize⟩]
      else
        let size := min chunkSize.toNat pcmData.length
        ⟨audio.buffer.length,size⟩::writeCopies rounds (pcmData.drop size)
          { audio with buffer := audio.buffer++pcmData.take size }

/-- A stream with a buffer that has room, is not overfull and is not left by any
write. -/
structure GuacAudioStream.Progressing (audio : GuacAudioStream) : Prop where
  /-- The buffer has room. -/
  room : 0<audio.length
  /-- No more is written than there is room for. -/
  fits : (audio.buffer.length : ℤ)≤audio.length
  /-- Whatever is written, and however far, all copies are inside. -/
  inside : ∀ rounds pcmData, ∀ copy∈writeCopies rounds pcmData audio, copy.Inside audio.length

/-- The formats that a call sets. -/
def AudioCall.formats : AudioCall→List PcmFormat
  | .writePcm _ => []
  | .flush => []
  | .reset _ format => [format]

/-- A call sets only formats with room. -/
def AudioCall.Buffered (call : AudioCall) : Prop := ∀ format∈call.formats, format.Buffered

/-- The size of the buffer, reduced to an int once. -/
theorem PcmFormat.bufferLength_eq (format : PcmFormat) : format.bufferLength=
      ((wrap32 (guacRawEncoderBufferSize*format.rate*format.channels*format.bps)).tdiv
        8).tdiv 1000 := by
  unfold PcmFormat.bufferLength wrap32
  rw [Int.bmod_mul_bmod,Int.mul_assoc,Int.bmod_mul_bmod,←Int.mul_assoc]

/-- The size of the buffer is positive exactly if it has room. -/
theorem PcmFormat.bufferLength_pos_iff (format : PcmFormat) :
    0<format.bufferLength ↔ format.Buffered := by
  rw [format.bufferLength_eq,PcmFormat.Buffered]
  generalize wrap32 _ = bits
  rcases Int.le_total 0 bits with hpos | hneg
  · rw [Int.tdiv_eq_ediv_of_nonneg hpos,Int.tdiv_eq_ediv_of_nonneg (by omega)]
    omega
  · have hbytes := Int.tdiv_eq_ediv_of_nonneg (b := 8) (neg_nonneg.mpr hneg)
    have hlength := Int.tdiv_eq_ediv_of_nonneg (b := 1000) (by omega : 0 ≤ -bits/8)
    rw [Int.neg_tdiv] at hbytes
    rw [←hbytes,Int.neg_tdiv] at hlength
    omega

/-- A stream with room makes progress. -/
theorem progressing_of_fits (audio : GuacAudioStream) (hroom : 0<audio.length)
    (hfits : (audio.buffer.length : ℤ)≤audio.length) : audio.Progressing := by
  refine ⟨hroom,hfits,fun rounds => ?_⟩
  induction rounds generalizing audio with
  | zero => exact fun _ _ hcopy => absurd hcopy not_mem_nil
  | succ rounds ih =>
    intro pcmData copy hcopy
    rw [writeCopies] at hcopy
    dsimp only at hcopy
    split at hcopy
    · exact absurd hcopy not_mem_nil
    · split at hcopy
      · exact ih (guacAudioStreamFlush audio) hroom hroom.le pcmData copy hcopy
      · rw [if_neg (by omega)] at hcopy
        rcases mem_cons.mp hcopy with rfl | hcopy
        · dsimp only [PcmCopy.Inside]
          omega
        · refine ih { audio with buffer := audio.buffer++pcmData.take _ } hroom ?_ _ copy hcopy
          dsimp only
          rw [length_append,length_take]
          omega

/-- Writing keeps the format and the size of the buffer. -/
theorem writeRounds_format {rounds : ℕ} {pcmData : List UInt8} {audio audio' : GuacAudioStream}
    (h : writeRounds rounds pcmData audio=some audio') :
    audio'.format=audio.format ∧ audio'.length=audio.length := by
  induction rounds generalizing pcmData audio with
  | zero => cases h
  | succ rounds ih =>
    rw [writeRounds] at h
    dsimp only at h
    split at h
    · cases h
      exact ⟨rfl,rfl⟩
    · split at h
      · have hkept := ih h
        exact hkept
      · split at h
        · cases h
        · have hkept := ih h
          exact hkept

/-- A stream whose buffer has the size for its format, with room. -/
structure AudioBuffered (session : AudioSession) : Prop where
  /-- The stream is ready. -/
  ready : session.audio.Ready
  length : session.audio.length=session.audio.format.bufferLength
  /-- The format is one with room. -/
  buffered : session.audio.format.Buffered

variable {session : AudioSession}

/-- Such a stream has room. -/
theorem AudioBuffered.room (h : AudioBuffered session) :
    0<session.audio.length := by
  rw [h.length]
  exact session.audio.format.bufferLength_pos_iff.mpr h.buffered

/-- Such a stream makes progress. -/
theorem AudioBuffered.progressing (h : AudioBuffered session) :
    session.audio.Progressing := by
  refine progressing_of_fits session.audio h.room ?_
  have hfits := h.ready.fits
  rwa [max_eq_right h.room.le] at hfits

/-- A new encoder has the buffer for its format. -/
theorem rawEncoderBeginHandler_buffered (audio : GuacAudioStream) (h : audio.format.Buffered)
    (written : List (List UInt8×UInt8)) :
    AudioBuffered ⟨rawEncoderBeginHandler audio,written⟩ :=
  ⟨(rawEncoderBeginHandler_ready audio).1,rfl,h⟩

/-- Calls that set formats with room return and leave such a stream behind. -/
theorem audioStep_buffered {call : AudioCall} (h : AudioBuffered session)
    (hcall : call.Buffered) :
    ∃ session', audioStep call session=some session' ∧ AudioBuffered session' := by
  cases call with
  | writePcm data =>
    have hrounds : 2*data.length+session.audio.flushes<2*data.length+2 := by
      unfold GuacAudioStream.flushes
      split <;> omega
    obtain ⟨audio',hrun,hready,-⟩ := writeRounds_ready h.ready h.room hrounds
    obtain ⟨hformat,hlength⟩ := writeRounds_format hrun
    refine ⟨⟨audio',session.written++tagged session.audio.format.mimetype data⟩,?_,hready,?_,?_⟩
    · rw [audioStep,guacAudioStreamWritePcm,rawEncoderWriteHandler,hrun]
      rfl
    · dsimp only
      rw [hformat,hlength,h.length]
    · dsimp only
      rw [hformat]
      exact h.buffered
  | flush =>
    exact ⟨{ session with audio := guacAudioStreamFlush session.audio },rfl,
      (guacAudioStreamFlush_ready h.ready).1,h.length,h.buffered⟩
  | reset encoder format =>
    refine ⟨_,rfl,?_⟩
    by_cases hsame : Unchanging encoder format session.audio
    · rw [guacAudioStreamReset,if_pos hsame]
      exact h
    · have hbuffered : format.Buffered := hcall format (mem_singleton_self format)
      rw [guacAudioStreamReset,if_neg hsame]
      exact rawEncoderBeginHandler_buffered { rawEncoderEndHandler session.audio with
        encoder := encoder.getD session.audio.encoder
        format := format } hbuffered session.written

/-- A call after which the stream makes progress sets only formats with room. -/
theorem buffered_of_audioStep {call : AudioCall} {session session' : AudioSession}
    (h : AudioBuffered session) (hstep : audioStep call session=some session')
    (hprogress : session'.audio.Progressing) : call.Buffered := by
  cases call with
  | writePcm data => exact fun _ hformat => absurd hformat not_mem_nil
  | flush => exact fun _ hformat => absurd hformat not_mem_nil
  | reset encoder format =>
    intro format' hformat
    rw [mem_singleton.mp hformat]
    by_cases hsame : Unchanging encoder format session.audio
    · rw [hsame.2]
      exact h.buffered
    · cases hstep
      have hroom := hprogress.room
      rw [guacAudioStreamReset,if_neg hsame] at hroom
      exact format.bufferLength_pos_iff.mp hroom

/-- A run on a new stream returns from every call, with a stream that makes
progress, exactly if there is room for every format of the run. -/
theorem rawEncoder_progressing_iff (encoder : AudioEncoder) (format : PcmFormat)
    (calls : List AudioCall) :
    (∀ made, made <+: calls→∃ session,
      run audioStep made ⟨guacAudioStreamAlloc encoder format,[]⟩=some session ∧
        session.audio.Progressing) ↔
      ∀ format' ∈ format::calls.flatMap AudioCall.formats, format'.Buffered := by
  by_cases hformat : format.Buffered
  · have hstart := rawEncoderBeginHandler_buffered ⟨encoder,format,0,[],[]⟩ hformat []
    have hruns := run_iff_along (P := fun call _ => call.Buffered)
      (I := fun session => session.audio.Progressing) AudioBuffered.progressing
      audioStep_buffered buffered_of_audioStep calls hstart
    rw [guacAudioStreamAlloc,hruns,along_iff_forall audioStep_buffered calls hstart,
      forall_mem_cons]
    simp only [mem_flatMap,AudioCall.Buffered]
    exact ⟨fun h => ⟨hformat,fun f ⟨call,hcall,hf⟩ => h call hcall f hf⟩,
      fun h call hcall f hf => h.2 f ⟨call,hcall,hf⟩⟩
  · refine iff_of_false (fun h => ?_) fun h => hformat (h format mem_cons_self)
    obtain ⟨session,hrun,hprogress⟩ := h [] List.nil_prefix
    cases hrun
    exact hformat (format.bufferLength_pos_iff.mp hprogress.room)

/-- 8-bit samples once a second leave no room, so that writing a byte takes any
number of rounds. With 8 channels of 16-bit samples at 96 kHz the size of the
buffer is negative, and the first copy leaves it. -/
theorem rawEncoder_not_progressing : (guacAudioStreamAlloc .raw8 ⟨1,1,8⟩).length=0 ∧
      (∀ rounds, writeRounds rounds [0] (guacAudioStreamAlloc .raw8 ⟨1,1,8⟩)=none) ∧
      (guacAudioStreamAlloc .raw16 ⟨96000,8,16⟩).length = -152870 ∧
      writeCopies 1 [0] (guacAudioStreamAlloc .raw16 ⟨96000,8,16⟩)=[⟨0,-152870⟩] :=
  ⟨by decide,fun _ => writeRounds_none (cons_ne_nil _ _) (by decide) rfl,by decide,by decide⟩

end GuacServer.AudioStream
