import GuacServer.UserHandlers

/-!
# Audio input

Audio data from the user is sent to the RDP server in packets, in the format that the
server expects. Each sample is read at a position which follows from the bytes sent so
far, relative to the bytes received before the blob that is being read. All counters
are ints. The lock is held while a blob is written, sample by sample.
-/

namespace GuacServer.AudioInput

open Unicode DecimalNumerals UserHandlers

/-- guac_rdp_audio_format. -/
structure AudioFormat where
  /-- Frames per second. -/
  rate : ℤ
  /-- Samples per frame. -/
  channels : ℤ
  /-- Bytes per sample. -/
  bps : ℤ
  deriving DecidableEq

/-! ## Mimetypes -/

/-- strchr. -/
def strchr (c : UInt8) (str : List UInt8) : Option (List UInt8) :=
  match str.dropWhile (· ≠ c) with
  | [] => none
  | found => some found

/-- A string without the digits at its head, or the whole string if there are none. -/
def afterDigits (str digits : List UInt8) : List UInt8 :=
  if digits.takeWhile (fun c => decide (IsDigit c))=[] then str
  else digits.dropWhile fun c => decide (IsDigit c)

/-- The end of the number that strtol reads. -/
def strtolEnd (str : List UInt8) : List UInt8 :=
  match str.dropWhile fun c => decide (IsSpace c) with
  | 45::digits => afterDigits str digits
  | 43::digits => afterDigits str digits
  | digits => afterDigits str digits

/-- strtol with the base 10, as an int, unless it fails with ERANGE, or errno is still EINVAL
or ERANGE since some earlier call. -/
def strtol (errno : Bool) (str : List UInt8) : Option (ℤ×List UInt8) :=
  let value := leadingInteger str
  if errno ∨ value < -(2^63) ∨ 2^63≤value then none else some (wrap32 value,strtolEnd str)

/-- One parameter of a mimetype, with the rate and the channels known so far and after it,
and the string that is left. -/
def parseParameter (errno : Bool) (mimetype : List UInt8) (rate channels : ℤ) :
    Option (List UInt8×ℤ×ℤ) :=
  if ascii "channels=" <+: mimetype then
    (strtol errno (mimetype.drop 9)).map fun (channels,mimetype) => (mimetype,rate,channels)
  else if ascii "rate=" <+: mimetype then
    (strtol errno (mimetype.drop 5)).map fun (rate,mimetype) => (mimetype,rate,channels)
  else some (mimetype,rate,channels)

theorem length_dropWhile_le (p : UInt8→Bool) (str : List UInt8) :
    (str.dropWhile p).length ≤ str.length :=
  (List.dropWhile_suffix p).length_le

theorem length_strtolEnd_le (str : List UInt8) : (strtolEnd str).length ≤ str.length := by
  have hspace := length_dropWhile_le (fun c => decide (IsSpace c)) str
  have hafter : ∀ digits : List UInt8, digits.length ≤ str.length →
      (afterDigits str digits).length ≤ str.length := by
    intro digits hdigits
    unfold afterDigits
    split
    · exact Nat.le_refl _
    · exact (length_dropWhile_le _ _).trans hdigits
  unfold strtolEnd
  split
  case h_1 digits h =>
    rw [h,List.length_cons] at hspace
    exact hafter digits (Nat.le_of_succ_le hspace)
  case h_2 digits h =>
    rw [h,List.length_cons] at hspace
    exact hafter digits (Nat.le_of_succ_le hspace)
  case h_3 => exact hafter _ hspace

theorem length_strtol_le {errno : Bool} {str rest : List UInt8} {value : ℤ}
    (h : strtol errno str=some (value,rest)) : rest.length ≤ str.length := by
  simp only [strtol,Option.ite_none_left_eq_some,Option.some.injEq,Prod.mk.injEq] at h
  rw [←h.2.2]
  exact length_strtolEnd_le str

/-- A parameter is read off the mimetype. -/
theorem length_parseParameter_le {errno : Bool} {mimetype rest : List UInt8}
    {rate channels rate' channels' : ℤ}
    (h : parseParameter errno mimetype rate channels=some (rest,rate',channels')) :
    rest.length ≤ mimetype.length := by
  have hdrop : ∀ n, (mimetype.drop n).length ≤ mimetype.length := fun n =>
    (List.drop_suffix n mimetype).length_le
  unfold parseParameter at h
  split_ifs at h
  · obtain ⟨⟨value,_⟩,hnumber,hsame⟩ := Option.map_eq_some_iff.mp h
    cases hsame
    exact (length_strtol_le hnumber).trans (hdrop 9)
  · obtain ⟨⟨value,_⟩,hnumber,hsame⟩ := Option.map_eq_some_iff.mp h
    cases hsame
    exact (length_strtol_le hnumber).trans (hdrop 5)
  · cases h
    exact Nat.le_refl _

theorem length_strchr_lt {c first : UInt8} {str rest : List UInt8}
    (h : strchr c str=some (first::rest)) : rest.length<str.length := by
  have hlength := length_dropWhile_le (· ≠ c) str
  unfold strchr at h
  split at h
  · cases h
  · rw [Option.some.inj h,List.length_cons] at hlength
    exact hlength

/-- The loop over the parameters of a mimetype, which are separated by commas. -/
def parseParameters (errno : Bool) (mimetype : List UInt8) (rate channels : ℤ) : Option (ℤ×ℤ) :=
  match _hparameter : parseParameter errno mimetype rate channels with
  | none => none
  | some (rest,rate,channels) =>
    match _hnext : strchr 44 rest with
    | some (_ :: next) => parseParameters errno next rate channels
    | _ => some (rate,channels)
termination_by mimetype.length
decreasing_by exact (length_strchr_lt _hnext).trans_le (length_parseParameter_le _hparameter)

/-- The bytes per sample of a mimetype, and its parameters. -/
def parseType (mimetype : List UInt8) : Option (ℤ×List UInt8) :=
  if ascii "audio/L8;" <+: mimetype then some (1,mimetype.drop 9)
  else if ascii "audio/L16;" <+: mimetype then some (2,mimetype.drop 10)
  else none

/-- guac_rdp_audio_parse_mimetype. -/
def guacRdpAudioParseMimetype (errno : Bool) (mimetype : List UInt8) : Option AudioFormat :=
  (parseType mimetype).bind fun (bps,parameters) =>
    (parseParameters errno parameters (-1) 1).bind fun (rate,channels) =>
      if rate = -1 then none else some ⟨rate,channels,bps⟩

/-! ## The audio buffer -/

/-- guac_rdp_audio_buffer, and what its flush handler was given. -/
structure AudioBuffer where
  /-- The format of data from the user. -/
  inFormat : AudioFormat
  /-- The format of data for the RDP server. -/
  outFormat : AudioFormat
  packetSize : ℤ
  /-- The bytes stored in the packet. -/
  bytesWritten : ℤ
  /-- The bytes received, without the current blob. -/
  totalBytesReceived : ℤ
  totalBytesSent : ℤ
  /-- What is stored in the packet, if it is not NULL. -/
  packet : Option (List UInt8)
  /-- The flush handler is not NULL. -/
  flushHandler : Bool
  /-- The packets flushed. -/
  flushed : List (List UInt8)
  /-- The blob that is being written. -/
  blob : Option (List UInt8)
  deriving DecidableEq

/-- guac_rdp_audio_buffer_alloc. -/
def guacRdpAudioBufferAlloc : AudioBuffer := ⟨⟨0,0,0⟩,⟨0,0,0⟩,0,0,0,0,none,false,[],none⟩

/-- guac_rdp_audio_buffer_set_stream. -/
def guacRdpAudioBufferSetStream (format : AudioFormat) (buffer : AudioBuffer) : AudioBuffer :=
  { buffer with inFormat := format }

/-- guac_rdp_audio_buffer_set_output. -/
def guacRdpAudioBufferSetOutput (format : AudioFormat) (buffer : AudioBuffer) : AudioBuffer :=
  { buffer with outFormat := format }

/-- The size of a packet of so many frames. -/
def AudioFormat.packetSize (format : AudioFormat) (packetFrames : ℤ) : ℤ :=
  wrap32 (wrap32 (packetFrames*format.channels)*format.bps)

/-- guac_rdp_audio_buffer_begin. A negative size is too large for malloc, which may fail
anyway. -/
def guacRdpAudioBufferBegin (packetFrames : ℤ) (flushHandler allocated : Bool)
    (buffer : AudioBuffer) : AudioBuffer :=
  let packetSize := buffer.outFormat.packetSize packetFrames
  { buffer with
    bytesWritten := 0
    flushHandler := flushHandler
    packetSize := packetSize
    packet := if allocated ∧ 0≤packetSize then some [] else none }

/-- guac_rdp_audio_buffer_end. -/
def guacRdpAudioBufferEnd (buffer : AudioBuffer) : AudioBuffer :=
  { buffer with
    bytesWritten := 0
    packetSize := 0
    flushHandler := false
    totalBytesSent := 0
    totalBytesReceived := 0
    packet := none }

/-- A number that is not an int becomes the least int. -/
def toInt (x : ℤ) : ℤ := if -(2^31)≤x ∧ x<2^31 then x else -(2^31)

/-- The offset of the next sample in the current blob. The ratio of the rates is exact. -/
def sampleOffset (buffer : AudioBuffer) : ℤ :=
  let currentSample := buffer.totalBytesSent.tdiv buffer.outFormat.bps
  let currentFrame := currentSample.tdiv buffer.outFormat.channels
  let currentChannel := currentSample.tmod buffer.outFormat.channels
  let currentChannel :=
    if currentChannel≥buffer.inFormat.channels then wrap32 (buffer.inFormat.channels-1)
    else currentChannel
  let currentFrame := toInt ((currentFrame*buffer.inFormat.rate).tdiv buffer.outFormat.rate)
  let currentSample := wrap32 (wrap32 (currentFrame*buffer.inFormat.channels)+currentChannel)
  wrap32 (wrap32 (currentSample*buffer.inFormat.bps)-buffer.totalBytesReceived)

/-- The low and the high byte of a 16-bit sample that is read at an offset. -/
def sampleAt (bps : ℤ) (blob : List UInt8) (offset : ℕ) : Option (UInt8×UInt8) :=
  if bps=2 then
    blob[offset]?.bind fun low => blob[offset+1]?.map fun high => (low,high)
  else blob[offset]?.map fun high => (0,high)

/-- guac_rdp_audio_buffer_read_sample, unless the assertion fails or a byte outside the blob
is read. -/
def guacRdpAudioBufferReadSample (blob : List UInt8) (buffer : AudioBuffer) :
    Option (Option (UInt8×UInt8)) :=
  let offset := sampleOffset buffer
  if offset<0 then none
  else if blob.length-offset<buffer.inFormat.bps then some none
  else if buffer.inFormat.bps=2 ∨ buffer.inFormat.bps=1 then
    (sampleAt buffer.inFormat.bps blob offset.toNat).map some
  else some none

/-- The bytes stored for a sample, unless the assertion fails. -/
def storedBytes (bps : ℤ) (sample : UInt8×UInt8) : Option (List UInt8) :=
  if bps=2 then some [sample.1,sample.2] else if bps=1 then some [sample.2] else none

/-- The packet is flushed if it is full. -/
def flushFull (buffer : AudioBuffer) : AudioBuffer :=
  if buffer.bytesWritten=buffer.packetSize then
    { buffer with
      flushed :=
        if buffer.flushHandler then buffer.flushed++[buffer.packet.getD []] else buffer.flushed
      bytesWritten := 0
      packet := buffer.packet.map fun _ => [] }
  else buffer

/-- A sample is stored in the packet. -/
def storeSample (sample : UInt8×UInt8) (buffer : AudioBuffer) : Option AudioBuffer :=
  (storedBytes buffer.outFormat.bps sample).map fun bytes => flushFull
    { buffer with
      packet := buffer.packet.map (· ++ bytes)
      bytesWritten := wrap32 (buffer.bytesWritten+buffer.outFormat.bps)
      totalBytesSent := wrap32 (buffer.totalBytesSent+buffer.outFormat.bps) }

/-- Data is ignored if there is no packet. -/
def ignoresData (buffer : AudioBuffer) : Bool := buffer.packetSize=0 || buffer.packet.isNone

/-- guac_rdp_audio_buffer_write up to its loop. -/
def guacRdpAudioBufferWrite (data : List UInt8) (buffer : AudioBuffer) : AudioBuffer :=
  if ignoresData buffer then buffer else { buffer with blob := some data }

/-- The loop of guac_rdp_audio_buffer_write: a sample is read and stored, or the blob is
finished. -/
def guacRdpAudioBufferWriteLoop (blob : List UInt8) (buffer : AudioBuffer) : Option AudioBuffer :=
  match guacRdpAudioBufferReadSample blob buffer with
  | none => none
  | some none => some
    { buffer with
      totalBytesReceived := wrap32 (buffer.totalBytesReceived+blob.length)
      blob := none }
  | some (some sample) => storeSample sample buffer

/-- What is done with the audio buffer. -/
inductive AudioCall where
  /-- guac_rdp_audio_buffer_begin. -/
  | begin (packetFrames : ℤ) (flushHandler allocated : Bool)
  /-- guac_rdp_audio_buffer_write is called. -/
  | write (data : List UInt8)
  /-- The loop of guac_rdp_audio_buffer_write goes on. -/
  | sample
  /-- guac_rdp_audio_buffer_end. -/
  | finish

/-- A call, which waits for the lock as long as a blob is being written. -/
def audioStep (call : AudioCall) (buffer : AudioBuffer) : Option AudioBuffer :=
  match call, buffer.blob with
  | .begin packetFrames flushHandler allocated, none =>
    some (guacRdpAudioBufferBegin packetFrames flushHandler allocated buffer)
  | .write data, none => some (guacRdpAudioBufferWrite data buffer)
  | .finish, none => some (guacRdpAudioBufferEnd buffer)
  | .sample, some blob => guacRdpAudioBufferWriteLoop blob buffer
  | _, _ => none

end GuacServer.AudioInput
