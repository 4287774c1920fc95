import GuacServer.AudioInput
import GuacServer.Resampling
import GuacServer.StateRuns

/-!
# Resampled audio input

If the data received so far always ends where a frame ends, or at least where a sample does
when frames are not repeated channel by channel, and the counters stay ints, then every
sample is read within the current blob, and the packet never overflows.
-/

namespace GuacServer.AudioInput

open Unicode DecimalNumerals UserHandlers Resampling StateRuns

/-- A format of audio input that a mimetype stands for. -/
structure AcceptedFormat extends AudioFormat where
  /-- Some mimetype is parsed to it. -/
  accepted : ∃ errno mimetype, guacRdpAudioParseMimetype errno mimetype=some toAudioFormat

/-- A format of the RDP server. -/
structure OutputFormat extends AudioFormat where
  /-- There are frames. -/
  rate_pos : 1≤rate
  /-- There are samples in a frame. -/
  channels_pos : 1≤channels
  /-- Samples have one or two bytes. -/
  bps_eq : bps=1 ∨ bps=2

/-- The audio buffer for a stream and an output format. -/
def openBuffer (input : AcceptedFormat) (output : OutputFormat) : AudioBuffer :=
  guacRdpAudioBufferSetOutput output.toAudioFormat
    (guacRdpAudioBufferSetStream input.toAudioFormat guacRdpAudioBufferAlloc)

/-- A buffer is used safely: what is stored fits the packet, no divisor is zero, the offset
in the current blob is not negative, and a sample is read within the blob and stored within
the packet. -/
structure Safe (buffer : AudioBuffer) : Prop where
  written : buffer.bytesWritten≤buffer.packetSize
  divisors : buffer.outFormat.bps≠0 ∧ buffer.outFormat.channels≠0 ∧ buffer.outFormat.rate≠0
  offset : ∀ blob∈buffer.blob, 0 ≤ sampleOffset buffer
  goesOn : ∀ blob∈buffer.blob, (guacRdpAudioBufferWriteLoop blob buffer).isSome
  stored : ∀ blob∈buffer.blob, buffer.bytesWritten+buffer.outFormat.bps≤buffer.packetSize

/-- The conversion between the formats of a buffer. -/
def conversionOf (buffer : AudioBuffer) : Conversion :=
  ⟨buffer.inFormat.rate.toNat,buffer.outFormat.rate.toNat,buffer.inFormat.channels.toNat,
    buffer.outFormat.channels.toNat⟩

/-- So many bytes of input can be resampled: there are frames and samples in them, they end
at a boundary, and neither the bytes sent nor the positions become too large for an int. -/
structure Fits (buffer : AudioBuffer) (received : ℕ) : Prop where
  rate : 1≤buffer.inFormat.rate
  channels : 1≤buffer.inFormat.channels
  samples : buffer.inFormat.bps.toNat ∣ received
  boundary : (conversionOf buffer).Boundary (received/buffer.inFormat.bps.toNat)
  sent : (conversionOf buffer).framesOf (received/buffer.inFormat.bps.toNat) *
    (conversionOf buffer).outChannels*buffer.outFormat.bps<2^31
  positions : ((conversionOf buffer).framesOf (received/buffer.inFormat.bps.toNat) *
    (conversionOf buffer).inRate/(conversionOf buffer).outRate+1 : ℕ) *
    buffer.inFormat.channels*buffer.inFormat.bps<2^31

/-- A packet has no negative size, and data that is not ignored can be resampled together with
what was received before. -/
def Steady : AudioCall→AudioBuffer→Prop
  | .begin packetFrames _ _, buffer => 0≤buffer.outFormat.packetSize packetFrames
  | .write data, buffer => ignoresData buffer=true ∨
    Fits buffer (buffer.totalBytesReceived.toNat+data.length)
  | _, _ => True

/-! ## Offsets -/

/-- The bytes sent and received by a buffer: later samples lie behind what was received, and
those before are among the frames of it and of the current blob. -/
structure Tracks (buffer : AudioBuffer) (sample received : ℕ) : Prop where
  sent : buffer.totalBytesSent=sample*buffer.outFormat.bps
  counted : buffer.totalBytesReceived=received
  ahead : ∀ later, sample≤later →
    received≤(conversionOf buffer).position later*buffer.inFormat.bps.toNat
  behind : sample≤(conversionOf buffer).framesOf
    ((received+(buffer.blob.map List.length).getD 0)/buffer.inFormat.bps.toNat) *
      (conversionOf buffer).outChannels

/-- The formats of a buffer are accepted ones. -/
structure Formats (buffer : AudioBuffer) : Prop where
  input : buffer.inFormat.bps=1 ∨ buffer.inFormat.bps=2
  rate : 1≤buffer.outFormat.rate
  channels : 1≤buffer.outFormat.channels
  output : buffer.outFormat.bps=1 ∨ buffer.outFormat.bps=2

variable {buffer : AudioBuffer} {sample received : ℕ}

theorem wrap32_of_nonneg {x : ℤ} (h0 : 0≤x) (h1 : x<2^31) : wrap32 x=x :=
  wrap32_of_range (le_trans (by decide) h0) h1

/-- The channel of the output is mapped to one of the input. -/
theorem channel_eq (hchannels : 1≤buffer.inFormat.channels)
    (hint : buffer.inFormat.channels<2^31) (hout : 1≤buffer.outFormat.channels)
    (sample : ℕ) :
    (if (sample : ℤ).tmod buffer.outFormat.channels≥buffer.inFormat.channels then
      wrap32 (buffer.inFormat.channels-1)
    else (sample : ℤ).tmod buffer.outFormat.channels)=
      ((conversionOf buffer).channel sample : ℕ) := by
  have hmod : (sample : ℤ).tmod buffer.outFormat.channels=
      (sample%buffer.outFormat.channels.toNat : ℕ) := by
    conv_lhs => rw [←Int.toNat_of_nonneg (by omega : 0≤buffer.outFormat.channels)]
    exact (Int.ofNat_tmod _ _).symm
  rw [hmod,wrap32_of_range (by omega) (by omega),Conversion.channel]
  simp only [conversionOf]
  split <;> omega

/-- The frame of the output is mapped to one of the input. -/
theorem frame_eq (hrate : 1≤buffer.inFormat.rate) (hformats : Formats buffer) (sample : ℕ) :
    ((sample : ℤ).tdiv buffer.outFormat.channels*buffer.inFormat.rate).tdiv
      buffer.outFormat.rate=((conversionOf buffer).frame sample : ℕ) := by
  have hin : ((buffer.inFormat.rate.toNat : ℕ) : ℤ)=buffer.inFormat.rate :=
    Int.toNat_of_nonneg (by omega)
  have hout : ((buffer.outFormat.rate.toNat : ℕ) : ℤ)=buffer.outFormat.rate :=
    Int.toNat_of_nonneg (by have := hformats.rate; omega)
  have hchannels : ((buffer.outFormat.channels.toNat : ℕ) : ℤ)=buffer.outFormat.channels :=
    Int.toNat_of_nonneg (by have := hformats.channels; omega)
  rw [←hin,←hout,←hchannels,←Int.ofNat_tdiv,←Int.natCast_mul,←Int.ofNat_tdiv]
  rfl

variable {total : ℕ}

/-- The positions up to the end of the frames of the input are ints. -/
theorem positions_lt (hformats : Formats buffer) (hfits : Fits buffer total)
    {position : ℕ} (h : position<((conversionOf buffer).framesOf
      (total/buffer.inFormat.bps.toNat)*(conversionOf buffer).inRate /
        (conversionOf buffer).outRate+1)*(conversionOf buffer).inChannels) :
    ((position : ℤ)+1)*buffer.inFormat.bps<2^31 := by
  have hchannels : (((conversionOf buffer).inChannels : ℕ) : ℤ)=buffer.inFormat.channels :=
    Int.toNat_of_nonneg (by have := hfits.channels; omega)
  have hbps : 0≤buffer.inFormat.bps := by rcases hformats.input with h | h <;> omega
  have hpositions := hfits.positions
  rw [←hchannels,←Int.natCast_mul] at hpositions
  exact (Int.mul_le_mul_of_nonneg_right (Int.ofNat_le.mpr h) hbps).trans_lt hpositions

/-- Up to the end of the frames of the input, the offset of a sample is that of its position. -/
theorem sampleOffset_eq (hformats : Formats buffer) (hfits : Fits buffer total)
    (hsent : buffer.totalBytesSent=sample*buffer.outFormat.bps)
    (hreceived : buffer.totalBytesReceived=received)
    (hahead : received≤(conversionOf buffer).position sample*buffer.inFormat.bps.toNat)
    (hbehind : sample≤(conversionOf buffer).framesOf (total/buffer.inFormat.bps.toNat) *
      (conversionOf buffer).outChannels) :
    sampleOffset buffer=(conversionOf buffer).position sample*buffer.inFormat.bps-received := by
  have hin : (((conversionOf buffer).inChannels : ℕ) : ℤ)=buffer.inFormat.channels :=
    Int.toNat_of_nonneg (by have := hfits.channels; omega)
  have hinpos : 0<(conversionOf buffer).inChannels := by have := hfits.channels; omega
  have houtpos : 0<(conversionOf buffer).outChannels := by
    have := hformats.channels
    simp only [conversionOf]
    omega
  have hposition := Conversion.position_le hinpos houtpos hbehind
  have hbound := positions_lt hformats hfits hposition
  have hchannels : (((conversionOf buffer).inChannels-1 : ℕ)+1 : ℤ) * buffer.inFormat.bps<2^31 := by
    refine positions_lt hformats hfits ((Nat.sub_lt hinpos Nat.one_pos).trans_le ?_)
    exact Nat.le_mul_of_pos_left _ (Nat.succ_pos _)
  have hsame : ((conversionOf buffer).position sample : ℤ)=
      (conversionOf buffer).frame sample*buffer.inFormat.channels+
        (conversionOf buffer).channel sample := by
    rw [Conversion.position,Int.natCast_add,Int.natCast_mul,hin]
  have hframe : ((conversionOf buffer).frame sample : ℤ)≤
      (conversionOf buffer).frame sample*buffer.inFormat.channels := by
    rw [←hin,←Int.natCast_mul]
    exact Int.ofNat_le.mpr (Nat.le_mul_of_pos_right _ hinpos)
  have hbps : buffer.outFormat.bps≠0 := by rcases hformats.output with h | h <;> omega
  have hahead' : (received : ℤ)≤(conversionOf buffer).position sample*buffer.inFormat.bps := by
    have hcast := Int.ofNat_le.mpr hahead
    rwa [Int.natCast_mul,Int.toNat_of_nonneg
      (by rcases hformats.input with h | h <;> omega)] at hcast
  have hint : buffer.inFormat.channels<2^31 := by
    rcases hformats.input with h | h <;> rw [h] at hchannels <;> omega
  have hoffset : sampleOffset buffer=wrap32 (wrap32 (wrap32
      (wrap32 (toInt ((conversionOf buffer).frame sample)*buffer.inFormat.channels)+
        (conversionOf buffer).channel sample)*buffer.inFormat.bps)-received) := by
    simp only [sampleOffset,hsent,hreceived,Int.mul_tdiv_cancel _ hbps,
      frame_eq hfits.rate hformats,channel_eq hfits.channels hint hformats.channels]
  have hposition : ((conversionOf buffer).position sample : ℤ)<2^31 ∧
      (conversionOf buffer).position sample*buffer.inFormat.bps<2^31 := by
    rcases hformats.input with h | h <;> rw [h] at hbound ⊢ <;> omega
  have hnonneg : 0≤((conversionOf buffer).frame sample : ℤ)*buffer.inFormat.channels :=
    (Int.natCast_nonneg _).trans hframe
  have hle : ((conversionOf buffer).frame sample : ℤ)*buffer.inFormat.channels≤
      (conversionOf buffer).position sample := by
    rw [hsame]
    exact Int.le_add_of_nonneg_right (Int.natCast_nonneg _)
  have hframe' : toInt ((conversionOf buffer).frame sample)=(conversionOf buffer).frame sample := by
    rw [toInt,if_pos (by omega)]
  rw [hoffset,hframe',wrap32_of_nonneg hnonneg (hle.trans_lt hposition.1),←hsame,
    wrap32_of_nonneg (Int.natCast_nonneg _) hposition.1,
    wrap32_of_nonneg ((Int.natCast_nonneg _).trans hahead') hposition.2]
  exact wrap32_of_nonneg (Int.sub_nonneg_of_le hahead')
    ((Int.sub_le_self _ (Int.natCast_nonneg _)).trans_lt hposition.2)

/-! ## Packets -/

/-- Whole samples are stored in a packet of whole samples, and it is not full. -/
structure Packed (buffer : AudioBuffer) : Prop where
  size : buffer.outFormat.bps ∣ buffer.packetSize
  written : buffer.outFormat.bps ∣ buffer.bytesWritten
  nonneg : 0≤buffer.bytesWritten
  room : buffer.bytesWritten<buffer.packetSize ∨ buffer.bytesWritten=0 ∧ buffer.packetSize=0
  int : buffer.packetSize<2^31

theorem packetSize_dvd {format : AudioFormat} (h : format.bps=1 ∨ format.bps=2)
    (packetFrames : ℤ) : format.bps ∣ format.packetSize packetFrames := by
  obtain ⟨q,hq⟩ := wrap32_eq_add (wrap32 (packetFrames*format.channels)*format.bps)
  rw [AudioFormat.packetSize,hq]
  rcases h with h | h <;> rw [h] <;> omega

/-- A packet begins empty. -/
theorem packed_begin (hformats : Formats buffer) {packetFrames : ℤ}
    (h : 0≤buffer.outFormat.packetSize packetFrames) (flushHandler allocated : Bool) :
    Packed (guacRdpAudioBufferBegin packetFrames flushHandler allocated buffer) where
  size := packetSize_dvd hformats.output packetFrames
  written := Int.dvd_zero _
  nonneg := Int.le_refl 0
  room := (Int.lt_or_eq_of_le h).imp_right fun hzero => ⟨rfl,hzero.symm⟩
  int := wrap32_lt _

@[simp] theorem flushFull_inFormat : (flushFull buffer).inFormat=buffer.inFormat := by
  unfold flushFull
  split <;> rfl

@[simp] theorem flushFull_outFormat : (flushFull buffer).outFormat=buffer.outFormat := by
  unfold flushFull
  split <;> rfl

@[simp] theorem flushFull_totalBytesSent :
    (flushFull buffer).totalBytesSent=buffer.totalBytesSent := by
  unfold flushFull
  split <;> rfl

@[simp] theorem flushFull_totalBytesReceived :
    (flushFull buffer).totalBytesReceived=buffer.totalBytesReceived := by
  unfold flushFull
  split <;> rfl

@[simp] theorem flushFull_blob : (flushFull buffer).blob=buffer.blob := by
  unfold flushFull
  split <;> rfl

@[simp] theorem ignoresData_flushFull : ignoresData (flushFull buffer)=ignoresData buffer := by
  unfold flushFull
  split <;> simp [ignoresData]

/-- There is room for a sample in a packet that data is not ignored for. -/
theorem Packed.stored (h : Packed buffer) (hformats : Formats buffer)
    (hheeded : ignoresData buffer=false) :
    buffer.bytesWritten+buffer.outFormat.bps≤buffer.packetSize := by
  have hsize := h.size
  have hwritten := h.written
  have hroom := h.room
  have hne : buffer.packetSize≠0 := by
    intro hzero
    simp [ignoresData,hzero] at hheeded
  rcases hformats.output with hbps | hbps <;> rw [hbps] at hsize hwritten ⊢ <;> omega

/-- A packet that gets a sample is flushed if it is full. -/
theorem packed_flushFull {next : AudioBuffer} (h : Packed buffer) (hformats : Formats buffer)
    (hheeded : ignoresData buffer=false) (hout : next.outFormat=buffer.outFormat)
    (hsize : next.packetSize=buffer.packetSize)
    (hwritten : next.bytesWritten=wrap32 (buffer.bytesWritten+buffer.outFormat.bps)) :
    Packed (flushFull next) := by
  have hstored := h.stored hformats hheeded
  have hbps : 0≤buffer.outFormat.bps := by rcases hformats.output with h | h <;> omega
  have hnonneg := Int.add_nonneg h.nonneg hbps
  rw [wrap32_of_nonneg hnonneg (hstored.trans_lt h.int)] at hwritten
  have hdvd : next.outFormat.bps ∣ next.packetSize := by
    rw [hout,hsize]
    exact h.size
  have hint : next.packetSize<2^31 := hsize ▸ h.int
  by_cases hfull : next.bytesWritten=next.packetSize
  · rw [flushFull,if_pos hfull]
    refine ⟨hdvd,Int.dvd_zero _,Int.le_refl 0,?_,hint⟩
    refine (Int.lt_or_eq_of_le ?_).imp_right fun hzero => ⟨rfl,hzero.symm⟩
    rw [←hfull,hwritten]
    exact hnonneg
  · rw [flushFull,if_neg hfull]
    refine ⟨hdvd,?_,?_,Or.inl ?_,hint⟩
    · rw [hout,hwritten]
      exact Int.dvd_add h.written (Int.dvd_refl _)
    · rw [hwritten]
      exact hnonneg
    · rw [hwritten,hsize] at *
      exact hstored.lt_of_ne hfull

/-! ## Samples -/

variable {blob : List UInt8}

/-- A sample that lies within the blob can be read. -/
theorem sampleAt_isSome {bps : ℤ} (hbps : bps=1 ∨ bps=2) {offset : ℕ}
    (h : offset+bps≤blob.length) : ∃ sample, sampleAt bps blob offset=some sample := by
  have hfirst : offset<blob.length := by rcases hbps with h | h <;> omega
  unfold sampleAt
  split_ifs with htwo
  · have hsecond : offset+1<blob.length := by omega
    rw [List.getElem?_eq_getElem hfirst,List.getElem?_eq_getElem hsecond]
    exact ⟨_,rfl⟩
  · rw [List.getElem?_eq_getElem hfirst]
    exact ⟨_,rfl⟩

/-- From an offset that is not negative a sample is read, or the blob is finished. -/
theorem readSample_cases (hformats : Formats buffer) (blob : List UInt8)
    (hoffset : 0 ≤ sampleOffset buffer) :
    (blob.length<sampleOffset buffer+buffer.inFormat.bps ∧
      guacRdpAudioBufferReadSample blob buffer=some none) ∨
    (sampleOffset buffer+buffer.inFormat.bps≤blob.length ∧
      ∃ sample, guacRdpAudioBufferReadSample blob buffer=some (some sample)) := by
  simp only [guacRdpAudioBufferReadSample,Int.not_lt.mpr hoffset,if_false]
  by_cases hshort : blob.length-sampleOffset buffer<buffer.inFormat.bps
  · exact Or.inl ⟨by omega,if_pos hshort⟩
  · have hwithin : ((sampleOffset buffer).toNat : ℤ)+buffer.inFormat.bps≤blob.length := by
      rw [Int.toNat_of_nonneg hoffset]
      omega
    obtain ⟨sample,hsample⟩ := sampleAt_isSome hformats.input hwithin
    refine Or.inr ⟨by omega,sample,?_⟩
    rw [if_neg hshort,if_pos hformats.input.symm,hsample]
    rfl

theorem storedBytes_isSome (hformats : Formats buffer) (sample : UInt8×UInt8) :
    ∃ bytes, storedBytes buffer.outFormat.bps sample=some bytes := by
  rcases hformats.output with h | h <;> rw [h]
  · exact ⟨[sample.2],rfl⟩
  · exact ⟨[sample.1,sample.2],rfl⟩

/-- The state of a buffer between the samples. -/
structure Good (buffer : AudioBuffer) : Prop where
  formats : Formats buffer
  packed : Packed buffer
  heeded : ∀ blob∈buffer.blob, ignoresData buffer=false
  tracks : ∃ sample received, Tracks buffer sample received ∧
    ∀ blob∈buffer.blob, Fits buffer (received+blob.length)

variable {next : AudioBuffer}

theorem conversionOf_congr (hin : next.inFormat=buffer.inFormat)
    (hout : next.outFormat=buffer.outFormat) : conversionOf next=conversionOf buffer := by
  simp only [conversionOf,hin,hout]

theorem Formats.congr (h : Formats buffer) (hin : next.inFormat=buffer.inFormat)
    (hout : next.outFormat=buffer.outFormat) : Formats next := by
  constructor
  · exact hin ▸ h.input
  · exact hout ▸ h.rate
  · exact hout ▸ h.channels
  · exact hout ▸ h.output

theorem Fits.congr (h : Fits buffer total) (hin : next.inFormat=buffer.inFormat)
    (hout : next.outFormat=buffer.outFormat) : Fits next total := by
  have hconversion := conversionOf_congr hin hout
  constructor
  · exact hin ▸ h.rate
  · exact hin ▸ h.channels
  · exact hin ▸ h.samples
  · rw [hconversion,hin]
    exact h.boundary
  · rw [hconversion,hin,hout]
    exact h.sent
  · rw [hconversion,hin]
    exact h.positions

theorem Packed.congr (h : Packed buffer) (hout : next.outFormat=buffer.outFormat)
    (hsize : next.packetSize=buffer.packetSize)
    (hwritten : next.bytesWritten=buffer.bytesWritten) : Packed next := by
  constructor
  · rw [hout,hsize]
    exact h.size
  · rw [hout,hwritten]
    exact h.written
  · rw [hwritten]
    exact h.nonneg
  · rw [hwritten,hsize]
    exact h.room
  · rw [hsize]
    exact h.int

theorem Formats.inBps_pos (h : Formats buffer) : 0<buffer.inFormat.bps.toNat := by
  rcases h.input with h | h <;> omega

theorem Formats.inBps_cast (h : Formats buffer) :
    (buffer.inFormat.bps.toNat : ℤ)=buffer.inFormat.bps :=
  Int.toNat_of_nonneg (by rcases h.input with h | h <;> omega)

/-- The offset of the next sample in a blob that fits. -/
theorem Tracks.offset (h : Tracks buffer sample received) (hformats : Formats buffer)
    (hblob : buffer.blob=some blob) (hfits : Fits buffer (received+blob.length)) :
    sampleOffset buffer=(conversionOf buffer).position sample*buffer.inFormat.bps-received ∧
      0 ≤ sampleOffset buffer := by
  have hbehind := h.behind
  rw [hblob] at hbehind
  have hahead := h.ahead sample (Nat.le_refl _)
  have hoffset := sampleOffset_eq hformats hfits h.sent h.counted hahead hbehind
  have hcast := Int.ofNat_le.mpr hahead
  rw [Int.natCast_mul,hformats.inBps_cast] at hcast
  exact ⟨hoffset,by rw [hoffset]; exact Int.sub_nonneg_of_le hcast⟩

theorem Fits.conversion_pos (hfits : Fits buffer total) (hformats : Formats buffer) :
    0<(conversionOf buffer).inRate ∧ 0<(conversionOf buffer).outRate ∧
      0<(conversionOf buffer).inChannels ∧ 0<(conversionOf buffer).outChannels := by
  have hrate := hfits.rate
  have hchannels := hfits.channels
  have houtRate := hformats.rate
  have houtChannels := hformats.channels
  simp only [conversionOf]
  omega

/-- At the end of a blob that fits, all later samples lie behind what was received. -/
theorem Tracks.finished (h : Tracks buffer sample received) (hformats : Formats buffer)
    (hblob : buffer.blob=some blob) (hfits : Fits buffer (received+blob.length))
    (hshort : blob.length<sampleOffset buffer+buffer.inFormat.bps) {later : ℕ}
    (hlater : sample≤later) :
    received+blob.length≤(conversionOf buffer).position later*buffer.inFormat.bps.toNat := by
  obtain ⟨-,houtRate,hinChannels,-⟩ := hfits.conversion_pos hformats
  obtain ⟨samples,hsamples⟩ := hfits.samples
  have hdiv : (received+blob.length)/buffer.inFormat.bps.toNat=samples := by
    rw [hsamples,Nat.mul_div_cancel_left _ hformats.inBps_pos]
  have hboundary := hfits.boundary
  rw [hdiv] at hboundary
  rw [(h.offset hformats hblob hfits).1] at hshort
  have hlt : buffer.inFormat.bps.toNat*samples<
      buffer.inFormat.bps.toNat*((conversionOf buffer).position sample+1) := by
    rw [←hsamples,←Int.ofNat_lt,Int.natCast_mul,hformats.inBps_cast,Int.natCast_add,
      Int.natCast_add,Int.mul_add,Int.mul_comm]
    omega
  have hsample := Nat.le_of_lt_succ (Nat.lt_of_mul_lt_mul_left hlt)
  rw [hsamples,Nat.mul_comm]
  exact Nat.mul_le_mul_right _ (hboundary.le_position houtRate hinChannels hsample hlater)

/-- A sample that was read is among the frames of the input. -/
theorem Tracks.stored (h : Tracks buffer sample received) (hformats : Formats buffer)
    (hblob : buffer.blob=some blob) (hfits : Fits buffer (received+blob.length))
    (hwithin : sampleOffset buffer+buffer.inFormat.bps≤blob.length) :
    sample+1≤(conversionOf buffer).framesOf ((received+blob.length)/buffer.inFormat.bps.toNat) *
        (conversionOf buffer).outChannels := by
  obtain ⟨hinRate,houtRate,hinChannels,houtChannels⟩ := hfits.conversion_pos hformats
  have hle : ((conversionOf buffer).position sample+1)*buffer.inFormat.bps.toNat≤
      received+blob.length := by
    rw [(h.offset hformats hblob hfits).1] at hwithin
    rw [←Int.ofNat_le,Int.natCast_mul,hformats.inBps_cast,Int.natCast_add,Int.natCast_add,
      Int.add_mul]
    omega
  have hposition : (conversionOf buffer).position sample<
      (received+blob.length)/buffer.inFormat.bps.toNat :=
    (Nat.le_div_iff_mul_le hformats.inBps_pos).mpr hle
  exact (Nat.div_lt_iff_lt_mul houtChannels).mp
    (Conversion.lt_framesOf houtRate hinChannels hinRate hposition)

/-! ## Runs -/

/-- A counter of what was sent for a sample more. -/
theorem Fits.sent_lt (hfits : Fits buffer total) (hformats : Formats buffer)
    (hsample : sample+1≤(conversionOf buffer).framesOf
      (total/buffer.inFormat.bps.toNat)*(conversionOf buffer).outChannels) :
    wrap32 (sample*buffer.outFormat.bps+buffer.outFormat.bps)=
      ((sample+1 : ℕ) : ℤ)*buffer.outFormat.bps := by
  have hbps : 0≤buffer.outFormat.bps := by rcases hformats.output with h | h <;> omega
  have hlt : ((sample+1 : ℕ) : ℤ)*buffer.outFormat.bps<2^31 := by
    refine (Int.mul_le_mul_of_nonneg_right (Int.ofNat_le.mpr hsample) hbps).trans_lt ?_
    rw [Int.natCast_mul]
    exact hfits.sent
  have hsum : (sample : ℤ)*buffer.outFormat.bps+buffer.outFormat.bps=
      ((sample+1 : ℕ) : ℤ)*buffer.outFormat.bps := by
    rw [Int.natCast_add,Int.add_mul,Int.natCast_one,Int.one_mul]
  rw [hsum]
  exact wrap32_of_nonneg (Int.mul_nonneg (Int.natCast_nonneg _) hbps) hlt

/-- A sample is stored, and a packet that is full is flushed. -/
structure Stored (buffer next : AudioBuffer) : Prop where
  inFormat : next.inFormat=buffer.inFormat
  outFormat : next.outFormat=buffer.outFormat
  blob : next.blob=buffer.blob
  sent : next.totalBytesSent=wrap32 (buffer.totalBytesSent+buffer.outFormat.bps)
  received : next.totalBytesReceived=buffer.totalBytesReceived
  packed : Packed next
  heeded : ignoresData next=false

theorem storeSample_stored (hformats : Formats buffer) (hpacked : Packed buffer)
    (hheeded : ignoresData buffer=false) (value : UInt8×UInt8) :
    ∃ next, storeSample value buffer=some next ∧ Stored buffer next := by
  obtain ⟨bytes,hbytes⟩ := storedBytes_isSome hformats value
  refine ⟨_,by rw [storeSample,hbytes,Option.map_some],?_⟩
  constructor
  · exact flushFull_inFormat
  · exact flushFull_outFormat
  · exact flushFull_blob
  · exact flushFull_totalBytesSent
  · exact flushFull_totalBytesReceived
  · exact packed_flushFull hpacked hformats hheeded rfl rfl rfl
  · rw [ignoresData_flushFull]
    simpa [ignoresData] using hheeded

/-- A sample that is read is stored within the packet. -/
theorem good_storeSample (h : Good buffer) (hblob : buffer.blob=some blob)
    (hwithin : sampleOffset buffer+buffer.inFormat.bps≤blob.length) (value : UInt8×UInt8) :
    ∃ next, storeSample value buffer=some next ∧ Good next := by
  obtain ⟨sample,received,htracks,hfits⟩ := h.tracks
  have hfit := hfits blob hblob
  have hsample := htracks.stored h.formats hblob hfit hwithin
  obtain ⟨next,hnext,hstored⟩ := storeSample_stored h.formats h.packed (h.heeded blob hblob) value
  have hconversion := conversionOf_congr hstored.inFormat hstored.outFormat
  refine ⟨next,hnext,h.formats.congr hstored.inFormat hstored.outFormat,hstored.packed,
    fun _ _ => hstored.heeded,sample+1,received,⟨?_,?_,fun later hlater => ?_,?_⟩,
    fun other hother => ?_⟩
  · rw [hstored.sent,hstored.outFormat,htracks.sent]
    exact hfit.sent_lt h.formats hsample
  · rw [hstored.received]
    exact htracks.counted
  · rw [hconversion,hstored.inFormat]
    exact htracks.ahead later (Nat.le_of_succ_le hlater)
  · rw [hconversion,hstored.inFormat,hstored.blob,hblob]
    exact hsample
  · rw [hstored.blob] at hother
    exact (hfits other hother).congr hstored.inFormat hstored.outFormat

/-- The blob is finished. -/
theorem good_finished (h : Good buffer) (hblob : buffer.blob=some blob)
    (hshort : blob.length<sampleOffset buffer+buffer.inFormat.bps) :
    Good { buffer with
      totalBytesReceived := wrap32 (buffer.totalBytesReceived+blob.length)
      blob := none } := by
  obtain ⟨sample,received,htracks,hfits⟩ := h.tracks
  have hfit := hfits blob hblob
  have hahead := fun later (hlater : sample≤later) =>
    htracks.finished h.formats hblob hfit hshort hlater
  have hbehind := htracks.behind
  rw [hblob] at hbehind
  obtain ⟨-,-,hinChannels,houtChannels⟩ := hfit.conversion_pos h.formats
  have hint : ((received+blob.length : ℕ) : ℤ)<2^31 := by
    have hposition := positions_lt h.formats hfit
      (Conversion.position_le hinChannels houtChannels hbehind)
    have hcast := Int.ofNat_le.mpr (hahead sample (Nat.le_refl _))
    rw [Int.natCast_mul,h.formats.inBps_cast] at hcast
    refine (hcast.trans ?_).trans_lt hposition
    rw [Int.add_mul]
    rcases h.formats.input with hbps | hbps <;> rw [hbps] <;> omega
  have hreceived : wrap32 (buffer.totalBytesReceived+blob.length)=(received+blob.length : ℕ) := by
    rw [htracks.counted,←Int.natCast_add]
    exact wrap32_of_nonneg (Int.natCast_nonneg _) hint
  exact ⟨h.formats.congr rfl rfl,h.packed.congr rfl rfl rfl,nofun,sample,
    received+blob.length,⟨htracks.sent,hreceived,hahead,hbehind⟩,nofun⟩

theorem writeLoop_finished (h : guacRdpAudioBufferReadSample blob buffer=some none) :
    guacRdpAudioBufferWriteLoop blob buffer=some
      { buffer with
        totalBytesReceived := wrap32 (buffer.totalBytesReceived+blob.length)
        blob := none } := by
  unfold guacRdpAudioBufferWriteLoop
  rw [h]

theorem writeLoop_sample {value : UInt8×UInt8}
    (h : guacRdpAudioBufferReadSample blob buffer=some (some value)) :
    guacRdpAudioBufferWriteLoop blob buffer=storeSample value buffer := by
  unfold guacRdpAudioBufferWriteLoop
  rw [h]

/-- The loop over a blob goes on. -/
theorem good_writeLoop (h : Good buffer) (hblob : buffer.blob=some blob) :
    ∃ next, guacRdpAudioBufferWriteLoop blob buffer=some next ∧ Good next := by
  obtain ⟨sample,received,htracks,hfits⟩ := h.tracks
  have hoffset := (htracks.offset h.formats hblob (hfits blob hblob)).2
  rcases readSample_cases h.formats blob hoffset with ⟨hshort,hread⟩ | ⟨hwithin,value,hread⟩
  · exact ⟨_,writeLoop_finished hread,good_finished h hblob hshort⟩
  · rw [writeLoop_sample hread]
    exact good_storeSample h hblob hwithin value

theorem safe_of_good (h : Good buffer) : Safe buffer where
  written := by
    rcases h.packed.room with hroom | ⟨hzero,hsize⟩
    · exact hroom.le
    · rw [hzero,hsize]
  divisors := by
    have hrate := h.formats.rate
    have hchannels := h.formats.channels
    rcases h.formats.output with h | h <;> omega
  offset blob hblob := by
    obtain ⟨sample,received,htracks,hfits⟩ := h.tracks
    exact (htracks.offset h.formats hblob (hfits blob hblob)).2
  goesOn blob hblob := by
    obtain ⟨next,hnext,-⟩ := good_writeLoop h hblob
    rw [hnext]
    rfl
  stored blob hblob := h.packed.stored h.formats (h.heeded blob hblob)

/-- A blob is written unless it is ignored. -/
theorem good_write (h : Good buffer) (hblob : buffer.blob=none) {data : List UInt8}
    (hsteady : Steady (.write data) buffer) : Good (guacRdpAudioBufferWrite data buffer) := by
  cases hignores : ignoresData buffer with
  | true =>
    rw [guacRdpAudioBufferWrite,if_pos hignores]
    exact h
  | false =>
    rw [guacRdpAudioBufferWrite,if_neg (by simp [hignores])]
    obtain ⟨sample,received,htracks,hfits⟩ := h.tracks
    have hfit := hsteady.resolve_left (by simp [hignores])
    rw [htracks.counted,Int.toNat_natCast] at hfit
    obtain ⟨hinRate,-,hinChannels,-⟩ := hfit.conversion_pos h.formats
    have hbehind := htracks.behind
    rw [hblob] at hbehind
    refine ⟨h.formats.congr rfl rfl,h.packed.congr rfl rfl rfl,fun _ _ => hignores,sample,received,
      ⟨htracks.sent,htracks.counted,htracks.ahead,hbehind.trans ?_⟩,fun blob hdata => ?_⟩
    · exact Nat.mul_le_mul_right _ (Conversion.framesOf_mono hinChannels hinRate
        (Nat.div_le_div_right (Nat.add_le_add_left (Nat.zero_le _) _)))
    · cases hdata
      exact hfit.congr rfl rfl

/-- What a steady call does keeps a buffer good. -/
theorem good_step {call : AudioCall} {next : AudioBuffer} (h : Good buffer)
    (hsteady : Steady call buffer) (hnext : audioStep call buffer=some next) : Good next := by
  unfold audioStep at hnext
  cases hblob : buffer.blob with
  | some blob =>
    rw [hblob] at hnext
    cases call with
    | sample =>
      obtain ⟨next',hnext',hgood⟩ := good_writeLoop h hblob
      cases hnext.symm.trans hnext'
      exact hgood
    | begin | write | finish => cases hnext
  | none =>
    obtain ⟨sample,received,htracks,hfits⟩ := h.tracks
    have hnoBlob : ∀ {P : List UInt8→Prop}, ∀ blob∈buffer.blob, P blob := by
      rw [hblob]
      exact nofun
    rw [hblob] at hnext
    cases call with
    | sample => cases hnext
    | begin packetFrames flushHandler allocated =>
      cases hnext
      exact ⟨h.formats.congr rfl rfl,packed_begin h.formats hsteady flushHandler allocated,
        hnoBlob,sample,received,⟨htracks.sent,htracks.counted,htracks.ahead,htracks.behind⟩,hnoBlob⟩
    | write data =>
      cases hnext
      exact good_write h hblob hsteady
    | finish =>
      cases hnext
      refine ⟨h.formats.congr rfl rfl,⟨Int.dvd_zero _,Int.dvd_zero _,Int.le_refl 0,
        Or.inr ⟨rfl,rfl⟩,Int.pow_pos (by decide)⟩,hnoBlob,0,0,
        ⟨?_,rfl,fun _ _ => Nat.zero_le _,Nat.zero_le _⟩,hnoBlob⟩
      rw [Int.natCast_zero,Int.zero_mul]
      rfl

/-- A mimetype says that samples have one or two bytes. -/
theorem AcceptedFormat.bps_eq (input : AcceptedFormat) : input.bps=1 ∨ input.bps=2 := by
  obtain ⟨errno,mimetype,h⟩ := input.accepted
  obtain ⟨⟨bps,parameters⟩,htype,h⟩ := Option.bind_eq_some_iff.mp h
  obtain ⟨⟨rate,channels⟩,-,h⟩ := Option.bind_eq_some_iff.mp h
  simp only [Option.ite_none_left_eq_some,Option.some.injEq] at h
  rw [←h.2]
  unfold parseType at htype
  split_ifs at htype <;> cases htype
  · exact Or.inl rfl
  · exact Or.inr rfl

theorem good_openBuffer (input : AcceptedFormat) (output : OutputFormat) :
    Good (openBuffer input output) where
  formats := ⟨input.bps_eq,output.rate_pos,output.channels_pos,output.bps_eq⟩
  packed := ⟨Int.dvd_zero _,Int.dvd_zero _,Int.le_refl 0,Or.inr ⟨rfl,rfl⟩,Int.pow_pos (by decide)⟩
  heeded := nofun
  tracks := by
    refine ⟨0,0,⟨?_,rfl,fun _ _ => Nat.zero_le _,Nat.zero_le _⟩,nofun⟩
    rw [Int.natCast_zero,Int.zero_mul]
    rfl

/-- In a run of steady calls the buffer is used safely in every state. -/
theorem resampling_safe (input : AcceptedFormat) (output : OutputFormat)
    (calls : List AudioCall) (h : Along audioStep Steady calls (openBuffer input output)) :
    ∀ made, made <+: calls→∀ buffer,
      run audioStep made (openBuffer input output)=some buffer→Safe buffer :=
  fun _ hmade _ hrun => safe_of_good
    (visits_of_along good_step (good_openBuffer input output) h hmade hrun)

instance (buffer : AudioBuffer) (received : ℕ) : Decidable (Fits buffer received) :=
  decidable_of_iff
    ((1≤buffer.inFormat.rate ∧ 1≤buffer.inFormat.channels ∧ buffer.inFormat.bps.toNat ∣ received) ∧
      (conversionOf buffer).Boundary (received/buffer.inFormat.bps.toNat) ∧
      (conversionOf buffer).framesOf (received/buffer.inFormat.bps.toNat) *
        (conversionOf buffer).outChannels*buffer.outFormat.bps<2^31 ∧
      ((conversionOf buffer).framesOf (received/buffer.inFormat.bps.toNat) *
        (conversionOf buffer).inRate/(conversionOf buffer).outRate+1 : ℕ) *
        buffer.inFormat.channels*buffer.inFormat.bps<2^31)
    ⟨fun h => ⟨h.1.1,h.1.2.1,h.1.2.2,h.2.1,h.2.2.1,h.2.2.2⟩,
      fun h => ⟨⟨h.rate,h.channels,h.samples⟩,h.boundary,h.sent,h.positions⟩⟩

instance (call : AudioCall) (buffer : AudioBuffer) : Decidable (Steady call buffer) :=
  match call with
  | .begin _ _ _ => inferInstanceAs (Decidable (0≤_))
  | .write _ => inferInstanceAs (Decidable (_ ∨ _))
  | .sample => inferInstanceAs (Decidable True)
  | .finish => inferInstanceAs (Decidable True)

/-- Stereo input of 16-bit samples. -/
def stereoInput : AcceptedFormat :=
  ⟨⟨44100,2,2⟩,false,ascii "audio/L16;rate=44100,channels=2", by decide +kernel⟩

/-- Input without channels. -/
def emptyInput : AcceptedFormat :=
  ⟨⟨44100,0,1⟩,false,ascii "audio/L8;rate=44100,channels=0", by decide +kernel⟩

/-- Output of 8-bit samples at half the rate. -/
def monoOutput : OutputFormat := ⟨⟨22050,1,1⟩,by decide,by decide,by decide⟩

/-- Two frames of input become one of output. -/
theorem resampling_safe_stereo :
    ∃ buffer, run audioStep [.begin 1 true true,.write [1,2,3,4,5,6,7,8],.sample]
        (openBuffer stereoInput monoOutput)=some buffer ∧ buffer.flushed=[[2]] ∧
      Safe buffer := by
  have hrun : (run audioStep [.begin 1 true true,.write [1,2,3,4,5,6,7,8],.sample]
      (openBuffer stereoInput monoOutput)).map AudioBuffer.flushed=some [[2]] := by
    decide +kernel
  obtain ⟨buffer,hbuffer,hflushed⟩ := Option.map_eq_some_iff.mp hrun
  have hsteady : Along audioStep Steady [.begin 1 true true,.write [1,2,3,4,5,6,7,8],.sample]
      (openBuffer stereoInput monoOutput) := by decide +kernel
  exact ⟨buffer,hbuffer,hflushed,
    resampling_safe stereoInput monoOutput _ hsteady _ (List.prefix_refl _) buffer hbuffer⟩

/-- The first sample of input without channels has a negative offset. -/
theorem not_resampling_safe :
    ¬∀ (input : AcceptedFormat) (output : OutputFormat) (calls : List AudioCall)
      (buffer : AudioBuffer),
      run audioStep calls (openBuffer input output)=some buffer→Safe buffer := by
  intro h
  have hrun : (run audioStep [.begin 1 true true,.write [0]]
      (openBuffer emptyInput monoOutput)).map (fun buffer => (buffer.blob,sampleOffset buffer))=
        some (some [0],-1) := by
    decide +kernel
  obtain ⟨buffer,hbuffer,hstate⟩ := Option.map_eq_some_iff.mp hrun
  simp only [Prod.mk.injEq] at hstate
  have hoffset := (h _ _ _ _ hbuffer).offset [0] hstate.1
  rw [hstate.2] at hoffset
  exact absurd hoffset (by decide)

end GuacServer.AudioInput
