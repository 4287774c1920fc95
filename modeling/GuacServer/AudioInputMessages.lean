import Mathlib.Data.List.Induction
import GuacServer.AudioInput
import GuacServer.ByteStreams
import GuacServer.StateRuns

/-!
# Messages of the AUDIO_INPUT channel

The RDP server offers formats, of which the first one of PCM data is accepted: the audio
buffer is set to it and it is sent back. Nothing that a message says is checked, neither
against its length nor for values that can be divided by.
-/

namespace GuacServer.AudioInputMessages

open AudioInput ByteStreams DecimalNumerals List StateRuns

/-- guac_rdp_ai_format. -/
structure GuacRdpAiFormat where
  /-- The format tag. -/
  tag : ℕ
  channels : ℕ
  /-- Samples per second. -/
  rate : ℕ
  /-- Bytes per second. -/
  bytesPerSec : ℕ
  /-- Bytes processed at once. -/
  blockAlign : ℕ
  /-- Bits per sample. -/
  bps : ℕ
  /-- Further data, as long as its size says. -/
  data : List UInt8
  deriving DecidableEq

/-- The size of the further data. -/
def GuacRdpAiFormat.dataSize (format : GuacRdpAiFormat) : ℕ := format.data.length

/-- A message sent, with the size of the stream allocated for it. -/
structure Response where
  /-- The size. -/
  allocated : ℤ
  /-- The bytes written. -/
  bytes : List UInt8
  deriving DecidableEq

/-- The channel with its audio buffer, and what was done so far. -/
structure AiChannel where
  buffer : AudioBuffer
  /-- The formats that guac_rdp_audio_buffer_set_output was called with. -/
  outputs : List AudioFormat
  /-- The messages sent. -/
  sent : List Response
  deriving DecidableEq

/-- GUAC_RDP_WAVE_FORMAT_PCM. -/
def guacRdpWaveFormatPcm : ℕ := 1

/-- GUAC_RDP_MSG_SNDIN_VERSION. -/
def guacRdpMsgSndinVersion : ℕ := 1

/-- GUAC_RDP_MSG_SNDIN_FORMATS. -/
def guacRdpMsgSndinFormats : ℕ := 2

/-- GUAC_RDP_MSG_SNDIN_OPEN. -/
def guacRdpMsgSndinOpen : ℕ := 3

/-- GUAC_RDP_MSG_SNDIN_OPEN_REPLY. -/
def guacRdpMsgSndinOpenReply : ℕ := 4

/-- GUAC_RDP_MSG_SNDIN_DATA_INCOMING. -/
def guacRdpMsgSndinDataIncoming : ℕ := 5

/-- GUAC_RDP_MSG_SNDIN_FORMATCHANGE. -/
def guacRdpMsgSndinFormatchange : ℕ := 7

/-- The Write function of the channel. -/
def AiChannel.write (allocated : ℤ) (bytes : List UInt8) (channel : AiChannel) : AiChannel :=
  { channel with sent := channel.sent++[⟨allocated,bytes⟩] }

/-- guac_rdp_audio_buffer_set_output on the audio buffer of the channel. -/
def AiChannel.setOutput (format : AudioFormat) (channel : AiChannel) : AiChannel :=
  { channel with
    buffer := guacRdpAudioBufferSetOutput format channel.buffer
    outputs := channel.outputs++[format] }

/-! ## Formats -/

/-- The further data of a format is read, if there is any. -/
def readData (dataSize : ℕ) (stream : ByteStream) : Option (List UInt8×ByteStream) :=
  if dataSize≠0 then stream.read dataSize else some ([],stream)

/-- guac_rdp_ai_read_format, which has no result if a read or seek goes beyond the bytes
received. -/
def guacRdpAiReadFormat (stream : ByteStream) : Option (GuacRdpAiFormat×ByteStream) := do
  let (tag,stream) ← stream.readUInt 2
  let (channels,stream) ← stream.readUInt 2
  let (rate,stream) ← stream.readUInt 4
  let (bytesPerSec,stream) ← stream.readUInt 4
  let (blockAlign,stream) ← stream.readUInt 2
  let (bps,stream) ← stream.readUInt 2
  let (dataSize,stream) ← stream.readUInt 2
  let (data,stream) ← readData dataSize stream
  some (⟨tag,channels,rate,bytesPerSec,blockAlign,bps,data⟩,stream)

/-- guac_rdp_ai_write_format. -/
def guacRdpAiWriteFormat (format : GuacRdpAiFormat) : List UInt8 :=
  littleEndianBytes 2 format.tag++littleEndianBytes 2 format.channels++
    littleEndianBytes 4 format.rate++littleEndianBytes 4 format.bytesPerSec++
    littleEndianBytes 2 format.blockAlign++littleEndianBytes 2 format.bps++
    littleEndianBytes 2 format.dataSize++format.data

/-- guac_rdp_ai_send_incoming_data. -/
def guacRdpAiSendIncomingData (channel : AiChannel) : AiChannel :=
  channel.write 1 (littleEndianBytes 1 guacRdpMsgSndinDataIncoming)

/-- The size of a packet with formats. -/
def packetSize (formats : List GuacRdpAiFormat) : ℤ :=
  formats.foldl (fun size format => wrap32 (size+(18+format.dataSize))) 9

/-- guac_rdp_ai_send_formats. -/
def guacRdpAiSendFormats (formats : List GuacRdpAiFormat) (channel : AiChannel) : AiChannel :=
  let packetSize := packetSize formats
  channel.write packetSize
    (littleEndianBytes 1 guacRdpMsgSndinFormats++littleEndianBytes 4 formats.length++
      littleEndianBytes 4 (packetSize%2^32).toNat++formats.flatMap guacRdpAiWriteFormat)

/-- guac_rdp_ai_send_open_reply. -/
def guacRdpAiSendOpenReply (result : ℕ) (channel : AiChannel) : AiChannel :=
  channel.write 5 (littleEndianBytes 1 guacRdpMsgSndinOpenReply++littleEndianBytes 4 result)

/-- guac_rdp_ai_send_formatchange. -/
def guacRdpAiSendFormatchange (format : ℕ) (channel : AiChannel) : AiChannel :=
  channel.write 5 (littleEndianBytes 1 guacRdpMsgSndinFormatchange++littleEndianBytes 4 format)

/-! ## Handlers -/

/-- guac_rdp_ai_process_version. -/
def guacRdpAiProcessVersion (stream : ByteStream) (channel : AiChannel) : Option AiChannel := do
  let (_,_) ← stream.readUInt 4
  some (channel.write 5 (littleEndianBytes 1 guacRdpMsgSndinVersion++littleEndianBytes 4 1))

/-- The loop over the formats of the server, up to the first one that is accepted, with what
follows it if there is none. -/
def processFormats : ℕ→ByteStream→AiChannel→Option AiChannel
  | 0, _, channel => some (guacRdpAiSendFormats [] (guacRdpAiSendIncomingData channel))
  | count+1, stream, channel => do
    let (format,stream) ← guacRdpAiReadFormat stream
    if format.tag≠guacRdpWaveFormatPcm then processFormats count stream channel
    else
      let channel := channel.setOutput ⟨wrap32 format.rate,format.channels,(format.bps/8 : ℕ)⟩
      some (guacRdpAiSendFormats [format] (guacRdpAiSendIncomingData channel))

/-- guac_rdp_ai_process_formats. -/
def guacRdpAiProcessFormats (stream : ByteStream) (channel : AiChannel) : Option AiChannel := do
  let (numFormats,stream) ← stream.readUInt 4
  let (_,stream) ← stream.read 4
  processFormats numFormats stream channel

/-- guac_rdp_ai_process_open, with malloc for the packet possibly failing. -/
def guacRdpAiProcessOpen (allocated : Bool) (stream : ByteStream) (channel : AiChannel) :
    Option AiChannel := do
  let (packetFrames,stream) ← stream.readUInt 4
  let (initialFormat,_) ← stream.readUInt 4
  let channel := guacRdpAiSendOpenReply 0 (guacRdpAiSendFormatchange initialFormat channel)
  some { channel with
    buffer := guacRdpAudioBufferBegin (wrap32 packetFrames) true allocated channel.buffer }

/-- guac_rdp_ai_process_formatchange. -/
def guacRdpAiProcessFormatchange (channel : AiChannel) : Option AiChannel := some channel

/-- guac_rdp_ai_handle_data, as long as reads and seeks stay within the bytes received. -/
def guacRdpAiHandleData (allocated : Bool) (pdu : List UInt8) (channel : AiChannel) :
    Option AiChannel := do
  let (messageId,stream) ← (ByteStream.mk pdu 0).readUInt 1
  if messageId=guacRdpMsgSndinVersion then guacRdpAiProcessVersion stream channel
  else if messageId=guacRdpMsgSndinFormats then guacRdpAiProcessFormats stream channel
  else if messageId=guacRdpMsgSndinOpen then guacRdpAiProcessOpen allocated stream channel
  else if messageId=guacRdpMsgSndinFormatchange then guacRdpAiProcessFormatchange channel
  else some channel

/-! ## What a message has to contain -/

/-- What was written fits the stream allocated for it. -/
def Response.Fits (response : Response) : Prop := (response.bytes.length : ℤ)≤response.allocated

/-- A format by which can be divided. -/
def NonZero (format : AudioFormat) : Prop := format.rate≠0 ∧ format.channels≠0 ∧ format.bps≠0

/-- All messages fitted and all formats set can be divided by. -/
structure Good (channel : AiChannel) : Prop where
  /-- Messages fit. -/
  fits : ∀ response∈channel.sent, response.Fits
  /-- Formats can be divided by. -/
  nonZero : ∀ format∈channel.outputs, NonZero format

/-- The size of the further data of a format at the position. -/
def dataSizeAt (stream : ByteStream) : ℕ := (stream.seek 16).uint 2

/-- The format at the position. -/
def formatAt (stream : ByteStream) : GuacRdpAiFormat :=
  ⟨stream.uint 2,(stream.seek 2).uint 2,(stream.seek 4).uint 4,(stream.seek 8).uint 4,
    (stream.seek 12).uint 2,(stream.seek 14).uint 2,
    (stream.seek 18).bytes (dataSizeAt stream)⟩

/-- So many formats are complete with their further data, up to the first one that is accepted,
which has frames of some size. -/
def FormatsFit : ℕ→ByteStream→Prop
  | 0, _ => True
  | count+1, stream =>
    stream.Has (18+dataSizeAt stream) ∧ if stream.uint 2≠guacRdpWaveFormatPcm then
        FormatsFit count (stream.seek (18+dataSizeAt stream))
      else (stream.seek 4).uint 4≠0 ∧ (stream.seek 2).uint 2≠0 ∧ 8≤(stream.seek 14).uint 2

/-- A message is complete. -/
def Fits (pdu : List UInt8) : Prop :=
  let body : ByteStream := ⟨pdu,1⟩
  let messageId := (ByteStream.mk pdu 0).uint 1
  1≤pdu.length ∧ if messageId=guacRdpMsgSndinVersion then body.Has 4
    else if messageId=guacRdpMsgSndinFormats then
      body.Has 8 ∧ FormatsFit (body.uint 4) (body.seek 8)
    else if messageId=guacRdpMsgSndinOpen then body.Has 8
    else True

/-! ## Formats that are read and sent -/

variable {channel next : AiChannel} {stream : ByteStream}

theorem readData_eq_some_iff {dataSize : ℕ} {result : List UInt8×ByteStream} :
    readData dataSize stream=some result ↔
      stream.Covers dataSize ∧ result=(stream.bytes dataSize,stream.seek dataSize) := by
  by_cases hzero : dataSize=0
  · simp [readData,hzero,ByteStream.Covers,ByteStream.bytes,ByteStream.seek_zero,eq_comm]
  · simp [readData,hzero,ByteStream.Covers]

/-- A format is read if all its bytes were received. -/
theorem guacRdpAiReadFormat_eq_some_iff {result : GuacRdpAiFormat×ByteStream} :
    guacRdpAiReadFormat stream=some result ↔ stream.Has (18+dataSizeAt stream) ∧
        result=(formatAt stream,stream.seek (18+dataSizeAt stream)) := by
  have hread : ∀ {count}, count≤18 → stream.Has 18 → stream.Has count :=
    fun hle h => h.mono hle
  rw [←ByteStream.has_and_covers_seek]
  simp only [guacRdpAiReadFormat,Option.bind_eq_bind,Option.bind_eq_some_iff,Prod.exists,
    ByteStream.readUInt_eq_some_iff,readData_eq_some_iff,Prod.mk.injEq,Option.some.injEq]
  constructor
  · rintro ⟨_,_,⟨-,rfl,rfl⟩,_,_,⟨-,rfl,rfl⟩,_,_,⟨-,rfl,rfl⟩,_,_,⟨-,rfl,rfl⟩,_,
      _,⟨-,rfl,rfl⟩,_,_,⟨-,rfl,rfl⟩,_,_,⟨hhas,rfl,rfl⟩,_,_,⟨hcovers,rfl,rfl⟩,rfl⟩
    simp only [ByteStream.has_seek,ByteStream.seek_seek,Nat.reduceAdd] at hhas hcovers ⊢
    exact ⟨⟨hhas,hcovers⟩,rfl⟩
  · rintro ⟨⟨hhas,hcovers⟩,rfl⟩
    refine ⟨_,_,⟨hread (by decide) hhas,rfl,rfl⟩,_,_,⟨?_,rfl,rfl⟩,_,_,⟨?_,rfl,rfl⟩,
      _,_,⟨?_,rfl,rfl⟩,_,_,⟨?_,rfl,rfl⟩,_,_,⟨?_,rfl,rfl⟩,_,_,⟨?_,rfl,rfl⟩,_,_,⟨?_,rfl,rfl⟩,?_⟩
    all_goals simp only [ByteStream.has_seek,ByteStream.seek_seek,Nat.reduceAdd]
    · exact hread (by decide) hhas
    · exact hread (by decide) hhas
    · exact hread (by decide) hhas
    · exact hread (by decide) hhas
    · exact hread (by decide) hhas
    · exact hhas
    · exact hcovers
    · rfl

theorem length_guacRdpAiWriteFormat (format : GuacRdpAiFormat) :
    (guacRdpAiWriteFormat format).length=18+format.dataSize := by
  simp only [guacRdpAiWriteFormat,length_append,length_littleEndianBytes,
    GuacRdpAiFormat.dataSize]

/-- The size of a packet, if it is an int, is that of the formats written after its header. -/
theorem packetSize_eq {formats : List GuacRdpAiFormat}
    (h : 9+(formats.flatMap guacRdpAiWriteFormat).length<2^31) :
    packetSize formats=(9+(formats.flatMap guacRdpAiWriteFormat).length : ℕ) := by
  induction formats using List.reverseRecOn with
  | nil => rfl
  | append_singleton formats format ih =>
    rw [flatMap_append,length_append,flatMap_singleton,
      length_guacRdpAiWriteFormat] at h ⊢
    have hsize := ih (by omega)
    unfold packetSize at hsize ⊢
    rw [foldl_append,hsize,foldl_cons,foldl_nil,
      wrap32_of_range (by omega) (by omega)]
    omega

theorem Good.write {allocated : ℤ} {bytes : List UInt8} (h : Good channel)
    (hfits : (bytes.length : ℤ)≤allocated) : Good (channel.write allocated bytes) := by
  refine ⟨fun response hresponse => ?_,h.nonZero⟩
  rcases mem_append.mp hresponse with hmem | hmem
  · exact h.fits response hmem
  · rw [mem_singleton.mp hmem]
    exact hfits

/-- Formats that are sent fit the stream allocated for them. -/
theorem Good.sendFormats {formats : List GuacRdpAiFormat} (h : Good channel)
    (hsize : 9+(formats.flatMap guacRdpAiWriteFormat).length<2^31) :
    Good (guacRdpAiSendFormats formats channel) := by
  refine h.write ?_
  rw [packetSize_eq hsize,length_append,length_append,length_append,
    length_littleEndianBytes,length_littleEndianBytes,length_littleEndianBytes]

theorem Good.sendIncomingData (h : Good channel) : Good (guacRdpAiSendIncomingData channel) :=
  h.write (by decide)

theorem Good.setOutput {format : AudioFormat} (h : Good channel) (hformat : NonZero format) :
    Good (channel.setOutput format) := by
  refine ⟨h.fits,fun format' hmem => ?_⟩
  rcases mem_append.mp hmem with hmem | hmem
  · exact h.nonZero format' hmem
  · exact mem_singleton.mp hmem ▸ hformat

/-- An UINT32 is 0 as an int only if it is 0. -/
theorem wrap32_eq_zero_iff {value : ℕ} (h : value<2^32) : wrap32 value=0 ↔ value=0 := by
  have hdvd : ((2^32 : ℕ) : ℤ) ∣ (value : ℤ) ↔ 2^32 ∣ value := Int.natCast_dvd_natCast
  rw [wrap32,←Int.dvd_iff_bmod_eq_zero,hdvd]
  exact ⟨fun hvalue => Nat.eq_zero_of_dvd_of_lt hvalue h,fun hzero => hzero ▸ dvd_zero _⟩

/-! ## One message -/

theorem length_formatAt (stream : ByteStream) : (formatAt stream).dataSize<2^16 := by
  have hlength : (formatAt stream).dataSize≤dataSizeAt stream := length_take_le _ _
  exact hlength.trans_lt (ByteStream.uint_lt 2 _)

/-- The format that the audio buffer is set to can be divided by exactly if its fields are not
0 and it has at least one byte per sample. -/
theorem nonZero_formatAt_iff (stream : ByteStream) :
    NonZero ⟨wrap32 (formatAt stream).rate,(formatAt stream).channels,
        ((formatAt stream).bps/8 : ℕ)⟩ ↔
      (stream.seek 4).uint 4≠0 ∧ (stream.seek 2).uint 2≠0 ∧ 8≤(stream.seek 14).uint 2 := by
  have hrate := wrap32_eq_zero_iff (ByteStream.uint_lt 4 (stream.seek 4))
  unfold NonZero formatAt
  dsimp only
  rw [ne_eq,hrate]
  omega

/-- The formats are answered, within bounds, exactly if they fit. -/
theorem processFormats_good_iff (hgood : Good channel) (count : ℕ) :
    (∃ next, processFormats count stream channel=some next ∧ Good next) ↔
      FormatsFit count stream := by
  induction count generalizing stream with
  | zero =>
    exact iff_of_true ⟨_,rfl,hgood.sendIncomingData.sendFormats (by decide)⟩ trivial
  | succ count ih =>
    rw [FormatsFit,processFormats]
    by_cases hhas : stream.Has (18+dataSizeAt stream)
    · rw [guacRdpAiReadFormat_eq_some_iff.mpr ⟨hhas,rfl⟩,Option.bind_eq_bind,Option.bind_some,
        and_iff_right hhas]
      dsimp only
      by_cases htag : stream.uint 2≠guacRdpWaveFormatPcm
      · rw [if_pos (show (formatAt stream).tag≠guacRdpWaveFormatPcm from htag),if_pos htag,ih]
      · rw [if_neg (show ¬(formatAt stream).tag≠guacRdpWaveFormatPcm from htag),if_neg htag,
          ←nonZero_formatAt_iff]
        constructor
        · rintro ⟨next,hnext,hgood'⟩
          cases hnext
          exact hgood'.nonZero _ (mem_append_right _ (mem_singleton_self _))
        · intro hformat
          refine ⟨_,rfl,(hgood.setOutput hformat).sendIncomingData.sendFormats ?_⟩
          have hsize := length_formatAt stream
          rw [flatMap_singleton,length_guacRdpAiWriteFormat]
          omega
    · refine iff_of_false ?_ fun h => hhas h.1
      rintro ⟨next,hnext,-⟩
      obtain ⟨result,hresult,-⟩ := Option.bind_eq_some_iff.mp hnext
      exact hhas (guacRdpAiReadFormat_eq_some_iff.mp hresult).1

theorem processVersion_good_iff (hgood : Good channel) :
    (∃ next, guacRdpAiProcessVersion stream channel=some next ∧ Good next) ↔ stream.Has 4 := by
  simp only [guacRdpAiProcessVersion,Option.bind_eq_bind,Option.bind_eq_some_iff,Prod.exists,
    ByteStream.readUInt_eq_some_iff,Prod.mk.injEq,Option.some.injEq]
  constructor
  · rintro ⟨_,⟨_,_,⟨hhas,-,-⟩,-⟩,-⟩
    exact hhas
  · intro hhas
    exact ⟨_,⟨_,_,⟨hhas,rfl,rfl⟩,rfl⟩,hgood.write (by decide)⟩

theorem guacRdpAiProcessFormats_good_iff (hgood : Good channel) :
    (∃ next, guacRdpAiProcessFormats stream channel=some next ∧ Good next) ↔
      stream.Has 8 ∧ FormatsFit (stream.uint 4) (stream.seek 8) := by
  rw [←processFormats_good_iff hgood]
  simp only [guacRdpAiProcessFormats,Option.bind_eq_bind,Option.bind_eq_some_iff,Prod.exists,
    ByteStream.readUInt_eq_some_iff,ByteStream.read_eq_some_iff,Prod.mk.injEq]
  constructor
  · rintro ⟨next,⟨_,_,⟨-,rfl,rfl⟩,_,_,⟨hhas,rfl,rfl⟩,hnext⟩,hgood'⟩
    simp only [ByteStream.has_seek,ByteStream.seek_seek,Nat.reduceAdd] at hhas hnext
    exact ⟨hhas,next,hnext,hgood'⟩
  · rintro ⟨hhas,next,hnext,hgood'⟩
    refine ⟨next,⟨_,_,⟨hhas.mono (by decide),rfl,rfl⟩,_,_,⟨?_,rfl,rfl⟩,?_⟩,hgood'⟩
    · simpa only [ByteStream.has_seek] using hhas
    · simpa only [ByteStream.seek_seek] using hnext

theorem processOpen_good_iff (hgood : Good channel) (allocated : Bool) :
    (∃ next, guacRdpAiProcessOpen allocated stream channel=some next ∧ Good next) ↔
      stream.Has 8 := by
  simp only [guacRdpAiProcessOpen,Option.bind_eq_bind,Option.bind_eq_some_iff,Prod.exists,
    ByteStream.readUInt_eq_some_iff,Prod.mk.injEq,Option.some.injEq]
  constructor
  · rintro ⟨_,⟨_,_,⟨-,rfl,rfl⟩,_,_,⟨hhas,-,-⟩,-⟩,-⟩
    simpa only [ByteStream.has_seek] using hhas
  · intro hhas
    have hchange : Good (guacRdpAiSendFormatchange ((stream.seek 4).uint 4) channel) :=
      hgood.write (by simp [length_littleEndianBytes])
    have hreply : Good (guacRdpAiSendOpenReply 0
        (guacRdpAiSendFormatchange ((stream.seek 4).uint 4) channel)) :=
      hchange.write (by simp [length_littleEndianBytes])
    refine ⟨_,⟨_,_,⟨hhas.mono (by decide),rfl,rfl⟩,_,_,⟨?_,rfl,rfl⟩,rfl⟩,
      ⟨hreply.fits,hreply.nonZero⟩⟩
    simpa only [ByteStream.has_seek] using hhas

/-- A message is handled within bounds exactly if it is complete. -/
theorem handleData_good_iff (hgood : Good channel) (allocated : Bool) (pdu : List UInt8) :
    (∃ next, guacRdpAiHandleData allocated pdu channel=some next ∧ Good next) ↔ Fits pdu := by
  rw [guacRdpAiHandleData,Fits]
  by_cases hlength : 1≤pdu.length
  · have hhas : (ByteStream.mk pdu 0).Has 1 := hlength
    rw [ByteStream.readUInt_of_has hhas,Option.bind_eq_bind,Option.bind_some,and_iff_right hlength]
    dsimp only
    split_ifs
    · exact processVersion_good_iff hgood
    · exact guacRdpAiProcessFormats_good_iff hgood
    · exact processOpen_good_iff hgood allocated
    · exact iff_of_true ⟨channel,rfl,hgood⟩ trivial
    · exact iff_of_true ⟨channel,rfl,hgood⟩ trivial
  · refine iff_of_false ?_ fun h => hlength h.1
    rintro ⟨next,hnext,-⟩
    obtain ⟨result,hresult,-⟩ := Option.bind_eq_some_iff.mp hnext
    exact hlength (ByteStream.readUInt_eq_some_iff.mp hresult).1

/-- An audio buffer and a channel along which nothing was sent. -/
def openedChannel : AiChannel := ⟨guacRdpAudioBufferAlloc,[],[]⟩

/-- A sequence of messages is handled without a read or seek out of bounds, a message that
does not fit or a format that cannot be divided by exactly if each of them is complete. -/
theorem audioInput_good_iff (allocated : Bool) (pdus : List (List UInt8)) :
    (∀ received, received <+: pdus→∃ channel,
      run (guacRdpAiHandleData allocated) received openedChannel=some channel ∧ Good channel) ↔
      ∀ pdu∈pdus, Fits pdu := by
  have hopened : Good openedChannel := ⟨nofun,nofun⟩
  have hstep : ∀ {pdu channel}, Good channel→Fits pdu →
      ∃ next, guacRdpAiHandleData allocated pdu channel=some next ∧ Good next :=
    fun hgood => (handleData_good_iff hgood allocated _).mpr
  rw [←along_iff_forall hstep pdus hopened]
  exact run_iff_along (fun hgood => hgood) hstep (fun hgood hnext hgood' =>
    (handleData_good_iff hgood allocated _).mp ⟨_,hnext,hgood'⟩) pdus hopened

/-- A PCM format with 4 bits per sample in a complete message sets the bytes per sample to 0,
and a message that ends after the number of its formats is read beyond its end. -/
theorem audioInput_not_good : (run (guacRdpAiHandleData true)
      [[2,1,0,0,0,0,0,0,0,1,0,1,0,64,31,0,0,160,15,0,0,1,0,4,0,0,0]]
      openedChannel).map AiChannel.outputs=some [⟨8000,1,0⟩] ∧ ¬NonZero ⟨8000,1,0⟩ ∧
    run (guacRdpAiHandleData true) [[2,1,0,0,0,0,0,0,0]] openedChannel=none :=
  ⟨by decide +kernel,fun h => h.2.2 rfl,by decide +kernel⟩

end GuacServer.AudioInputMessages
