import GuacServer.CellMemory
import GuacServer.DecimalNumerals
import GuacServer.StateRuns

/-!
# Buffers of image streams

guacenc_image_stream_receive appends blobs to a buffer, for which it gets more memory where the
blob does not fit. The new size is computed in an int.
-/

namespace GuacServer.ImageBuffers

open CellMemory DecimalNumerals StateRuns

/-- GUACENC_IMAGE_STREAM_INITIAL_LENGTH. -/
def guacencImageStreamInitialLength : ℕ := 4096

/-- guacenc_image_stream, as far as its buffer is concerned. -/
structure ImageStream where
  /-- The memory that is allocated for the buffer. -/
  buffer : List UInt8
  length : ℤ
  maxLength : ℤ

/-- guacenc_image_stream_alloc, with what is in the memory that malloc grants. -/
def guacencImageStreamAlloc (memory : Vector UInt8 guacencImageStreamInitialLength) : ImageStream :=
  ⟨memory.toList,0,guacencImageStreamInitialLength⟩

/-- The data of a blob, whose length is a positive int, and what realloc answers if it is
called. -/
structure Blob where
  data : List UInt8
  /-- Memory is granted, if its size is a positive int: any other is zero or, as a size_t, more
  than there is. -/
  granted : Bool
  /-- What is in memory that has not been written. -/
  memory : ℕ→UInt8
  nonempty : data≠[]
  short : data.length<2^31

/-- realloc, which keeps what is in both sizes of the memory. -/
def realloc (buffer : List UInt8) (blob : Blob) (size : ℤ) : Option (List UInt8) :=
  if blob.granted ∧ 0<size then
    some ((List.range size.toNat).map fun i => buffer.getD i (blob.memory i))
  else none

/-- More space is allocated if necessary, or the stream is as before. -/
def reserve (blob : Blob) (stream : ImageStream) : Option ImageStream :=
  if stream.maxLength-stream.length<blob.data.length then
    let newMaxLength := wrap32 (wrap32 (stream.maxLength*2)+blob.data.length)
    (realloc stream.buffer blob newMaxLength).map fun buffer =>
      { stream with buffer := buffer, maxLength := newMaxLength }
  else some stream

/-- guacenc_image_stream_receive, unless data is copied outside of the buffer. -/
def guacencImageStreamReceive (blob : Blob) (stream : ImageStream) : Option (ℤ×ImageStream) :=
  match reserve blob stream with
  | none => some (1,stream)
  | some stream => (store stream.length blob.data stream.buffer).map fun buffer =>
    (0,{ stream with buffer := buffer, length := wrap32 (stream.length+blob.data.length) })

/-- The data that guacenc_image_stream_end gives to the decoder. -/
def ImageStream.decoded (stream : ImageStream) : List UInt8 :=
  stream.buffer.take stream.length.toNat

/-- A stream and the data of all blobs that were sent along it. -/
structure ImageSession where
  stream : ImageStream
  sent : List UInt8

/-- A blob is sent. -/
def imageStep (blob : Blob) (session : ImageSession) : Option ImageSession :=
  (guacencImageStreamReceive blob session.stream).map fun (_,stream) =>
    ⟨stream,session.sent++blob.data⟩

/-- The buffer has the capacity it says, within which it holds exactly what was sent. -/
structure Accumulates (session : ImageSession) : Prop where
  allocated : (session.stream.buffer.length : ℤ)=session.stream.maxLength
  length_nonneg : 0 ≤ session.stream.length
  length_le : session.stream.length ≤ session.stream.maxLength
  decoded : session.stream.decoded=session.sent

/-- A blob that does not fit asks for a new size that is an int, and is granted it. -/
def Reserves (blob : Blob) (session : ImageSession) : Prop :=
  session.stream.maxLength-session.stream.length<blob.data.length →
    session.stream.maxLength*2+blob.data.length<2^31 ∧ blob.granted=true

/-- What also holds of a stream whose capacity is an int. -/
def Accumulating (session : ImageSession) : Prop :=
  Accumulates session ∧ session.stream.maxLength<2^31

variable {blob : Blob} {session session' : ImageSession} {stream : ImageStream}

/-- The data sent is a start of the memory. -/
theorem Accumulates.prefixed (h : Accumulates session) :
    session.sent <+: session.stream.buffer ∧ (session.sent.length : ℤ)=session.stream.length := by
  have hlength := congrArg List.length h.decoded
  have hroom := h.allocated
  have hle := h.length_le
  have hnonneg := h.length_nonneg
  rw [ImageStream.decoded,List.length_take] at hlength
  exact ⟨h.decoded ▸ List.take_prefix ..,by omega⟩

/-- A blob is stored behind what was sent where there is room for it. -/
theorem accumulating_of_room (stream : ImageStream) (hstart : session.sent <+: stream.buffer)
    (hlength : (session.sent.length : ℤ)=stream.length)
    (hallocated : (stream.buffer.length : ℤ)=stream.maxLength) (hint : stream.maxLength<2^31)
    (hroom : stream.length+blob.data.length ≤ stream.maxLength) :
    ∃ buffer, store stream.length blob.data stream.buffer=some buffer ∧
      Accumulating ⟨{ stream with
        buffer := buffer, length := wrap32 (stream.length+blob.data.length) },
        session.sent++blob.data⟩ := by
  obtain ⟨buffer,hstore,hheld,hsize⟩ := store_behind hstart
    (by omega : session.sent.length+blob.data.length ≤ stream.buffer.length)
  rw [hlength] at hstore
  refine ⟨buffer,hstore,⟨?_,?_,?_,?_⟩,hint⟩
  · exact (congrArg Nat.cast hsize).trans hallocated
  · dsimp only
    rw [wrap32_of_range (by omega) (by omega)]
    omega
  · dsimp only
    rw [wrap32_of_range (by omega) (by omega)]
    exact hroom
  · have htotal : (stream.length+blob.data.length).toNat=(session.sent++blob.data).length := by
      rw [List.length_append]
      omega
    unfold ImageStream.decoded
    dsimp only
    rw [wrap32_of_range (by omega) (by omega),htotal]
    exact (List.prefix_iff_eq_take.mp hheld).symm

/-- A greater buffer starts as the smaller one does. -/
theorem prefix_realloc {buffer : List UInt8} {size : ℤ} (hgranted : blob.granted=true)
    (hsize : (buffer.length : ℤ) ≤ size) (hpos : 0<size) :
    ∃ grown, realloc buffer blob size=some grown ∧ buffer <+: grown ∧ (grown.length : ℤ)=size := by
  refine ⟨_,if_pos ⟨hgranted,hpos⟩,List.prefix_iff_eq_take.mpr ?_,by simp; omega⟩
  refine List.ext_getElem (by simp; omega) fun i hi hi' => ?_
  simp [hi]

/-- The capacity once a blob is received. -/
def capacityAfter (blob : Blob) (stream : ImageStream) : ℤ :=
  if stream.maxLength-stream.length<blob.data.length then
    stream.maxLength*2+blob.data.length
  else stream.maxLength

/-- A step that reserves what it needs accumulates the blob. -/
theorem accumulating_imageStep (h : Accumulating session) (hreserves : Reserves blob session) :
    ∃ session', imageStep blob session=some session' ∧ Accumulating session' ∧
      session'.stream.maxLength=capacityAfter blob session.stream ∧
      session'.sent=session.sent++blob.data := by
  obtain ⟨hstart,hlength⟩ := h.1.prefixed
  have hallocated := h.1.allocated
  have hle := h.1.length_le
  have hnonneg := h.1.length_nonneg
  have hint := h.2
  unfold Reserves at hreserves
  by_cases hfits : session.stream.maxLength-session.stream.length<blob.data.length
  · obtain ⟨hnew,hgranted⟩ := hreserves hfits
    have hgrows : (session.stream.buffer.length : ℤ)≤
        session.stream.maxLength*2+blob.data.length := by omega
    obtain ⟨grown,hrealloc,hgrown,hsize⟩ := prefix_realloc hgranted hgrows (by omega)
    have hroom : session.stream.length+blob.data.length≤
        session.stream.maxLength*2+blob.data.length := by omega
    obtain ⟨buffer,hstore,hnext⟩ := accumulating_of_room
      ⟨grown,session.stream.length,session.stream.maxLength*2+blob.data.length⟩
      (hstart.trans hgrown) hlength hsize hnew hroom
    refine ⟨_,?_,hnext,(if_pos hfits).symm,rfl⟩
    unfold imageStep guacencImageStreamReceive reserve
    dsimp only
    rw [if_pos hfits,wrap32_of_range (by omega) (by omega : session.stream.maxLength*2<_),
      wrap32_of_range (by omega) hnew,hrealloc]
    dsimp only [Option.map_some]
    rw [hstore]
    rfl
  · obtain ⟨buffer,hstore,hnext⟩ := accumulating_of_room session.stream hstart hlength
      hallocated hint (by omega : session.stream.length+blob.data.length≤_)
    refine ⟨_,?_,hnext,(if_neg hfits).symm,rfl⟩
    unfold imageStep guacencImageStreamReceive reserve
    rw [if_neg hfits]
    dsimp only
    rw [hstore]
    rfl

/-- No other step does. -/
theorem reserves_of_imageStep (h : Accumulating session)
    (hstep : imageStep blob session=some session') (h' : Accumulates session') :
    Reserves blob session := by
  intro hfits
  have hint := h.2
  have hnonneg := h.1.length_nonneg
  have hle := h.1.length_le
  have hsent := h.1.prefixed.2
  have hsent' := h'.prefixed.2
  have hle' := h'.length_le
  have hpos := List.length_pos_iff.mpr blob.nonempty
  obtain ⟨q,hq⟩ := wrap32_eq_add (session.stream.maxLength*2)
  obtain ⟨q',hq'⟩ := wrap32_eq_add (wrap32 (session.stream.maxLength*2)+blob.data.length)
  have hlt := wrap32_lt (wrap32 (session.stream.maxLength*2)+blob.data.length)
  unfold imageStep guacencImageStreamReceive reserve realloc at hstep
  rw [if_pos hfits] at hstep
  dsimp only at hstep
  split_ifs at hstep with hgranted
  · simp only [Option.map_some,Option.map_map,Option.map_eq_some_iff,Function.comp_def] at hstep
    obtain ⟨buffer,-,rfl⟩ := hstep
    simp only [List.length_append] at hsent' hle'
    exact ⟨by omega,hgranted.1⟩
  -- The data of a blob that is refused is lost.
  · cases hstep
    simp only [List.length_append] at hsent'
    omega

theorem accumulating_alloc (memory : Vector UInt8 guacencImageStreamInitialLength) :
    Accumulating ⟨guacencImageStreamAlloc memory,[]⟩ :=
  ⟨⟨congrArg Nat.cast memory.size_toArray,le_rfl,Int.natCast_nonneg _,rfl⟩,
    (by decide : ((4096 : ℕ) : ℤ)<2^31)⟩

theorem accumulates_along (h : Accumulating session) (blobs : List Blob) :
    (∀ made, made <+: blobs→∃ session', run imageStep made session=some session' ∧
      Accumulates session') ↔ Along imageStep Reserves blobs session :=
  run_iff_along And.left
    (fun h hreserves => (accumulating_imageStep h hreserves).imp fun _ => And.imp_right And.left)
    reserves_of_imageStep blobs h

/-- The blobs sent along a stream are accumulated, with every copy inside of the buffer,
throughout a run exactly if each reserves what it needs. -/
theorem accumulates_iff (memory : Vector UInt8 guacencImageStreamInitialLength)
    (blobs : List Blob) :
    (∀ made, made <+: blobs→∃ session,
      run imageStep made ⟨guacencImageStreamAlloc memory,[]⟩=some session ∧ Accumulates session) ↔
      Along imageStep Reserves blobs ⟨guacencImageStreamAlloc memory,[]⟩ :=
  accumulates_along (accumulating_alloc memory) blobs

/-- A blob that more than fills the buffer makes it so large that twice its size is no int. -/
theorem not_reserves_twice {first second : Blob}
    (hsecond : 8192<second.data.length) (hlarge : 2^30≤8192+first.data.length)
    (memory : Vector UInt8 guacencImageStreamInitialLength) :
    ¬Along imageStep Reserves [first,second] ⟨guacencImageStreamAlloc memory,[]⟩ := by
  rintro ⟨hreserves,hrest⟩
  obtain ⟨session,hstep,haccumulating,hcapacity,hsent⟩ :=
    accumulating_imageStep (accumulating_alloc memory) hreserves
  rw [hstep] at hrest
  have hreserves' : Reserves second session := hrest.1
  have hstored := haccumulating.1.prefixed.2
  rw [hsent,List.nil_append] at hstored
  unfold capacityAfter guacencImageStreamAlloc guacencImageStreamInitialLength at hcapacity
  unfold Reserves at hreserves'
  dsimp only at hcapacity
  rw [if_pos (by omega)] at hcapacity
  have hlarger := (hreserves' (by omega)).1
  omega

/-- So many bytes. -/
def zeros (count : ℕ) (hpos : 0<count) (hlt : count<2^31) : Blob :=
  ⟨List.replicate count 0,true,fun _ => 0,by simpa using hpos.ne',
    List.length_replicate.trans_lt hlt⟩

theorem length_zeros {count : ℕ} (hpos : 0<count) (hlt : count<2^31) :
    (zeros count hpos hlt).data.length=count := List.length_replicate

/-- The second of two blobs that are an int together asks for less than is stored already. -/
theorem not_accumulates : ¬∀ (memory : Vector UInt8 guacencImageStreamInitialLength)
    (blobs : List Blob), (blobs.map (·.data.length)).sum<2^31 →
      (∀ blob∈blobs, blob.granted=true)→∀ made, made <+: blobs→∃ session,
        run imageStep made ⟨guacencImageStreamAlloc memory,[]⟩=some session ∧
          Accumulates session := by
  intro h
  have hcounts : ∃ count count', 0<count' ∧ count' < 2^31 ∧ 8192<count' ∧
      2^30≤8192+count ∧ count<2^31 ∧ count+count' < 2^31 :=
    ⟨2^31-8194,8193,by omega⟩
  obtain ⟨count,count',hpos',hlt',hmore,hlarge,hlt,hsum⟩ := hcounts
  have hlength := length_zeros (by omega : 0<count) hlt
  have hlength' := length_zeros hpos' hlt'
  refine not_reserves_twice (by rwa [hlength']) (by rwa [hlength])
    (Vector.replicate _ 0) ((accumulates_along (accumulating_alloc _) _).mp (h _ _ ?_ ?_))
  · simp only [List.map_cons,List.map_nil,List.sum_cons,List.sum_nil,hlength,hlength']
    omega
  · exact List.forall_mem_cons.mpr ⟨rfl,List.forall_mem_cons.mpr ⟨rfl,nofun⟩⟩

end GuacServer.ImageBuffers
