import GuacServer.EncoderJobs

/-!
# Stores to the accumulation buffer

Each driver starts over at a semicolon, so the offset is the number of bytes since the
last one. The checks of two of the drivers come a byte too late, and the third has
none.
-/

namespace GuacServer.EncoderJobs

open EncoderParser List StateRuns

/-- The number of bytes since the last semicolon. -/
def gap (bytes : List UInt8) : ℕ := (bytes.reverse.takeWhile (· ≠ 59)).length

theorem gap_append (bytes : List UInt8) (b : UInt8) :
    gap (bytes++[b])=if b=59 then 0 else gap bytes+1 := by
  unfold gap
  rw [reverse_append,reverse_singleton,singleton_append,takeWhile_cons]
  by_cases hb : b=59
  · rw [if_pos hb,if_neg (by simp [hb])]
    rfl
  · rw [if_neg hb,if_pos (by simp [hb])]
    rfl

/-- All stores so far were within the buffer. -/
def StoresInBounds (buffer : Accumulation) : Prop := ∀ index∈buffer.stores, index<sizeofData

/-- The offset is the number of bytes since the last semicolon. -/
structure Aligned (buffer : Accumulation) : Prop where
  inBounds : StoresInBounds buffer
  offset : buffer.ins.data.length=gap buffer.received
  fits : buffer.ins.data.length ≤ sizeofData

theorem aligned_empty : Aligned emptyAccumulation :=
  ⟨fun _ h => absurd h not_mem_nil,rfl,Nat.zero_le _⟩

/-- The buffer after a byte. -/
theorem put_received (b : UInt8) (buffer : Accumulation) :
    (buffer.put b).received=buffer.received++[b] := rfl

variable {b : UInt8} {buffer : Accumulation}

theorem storesInBounds_put :
    StoresInBounds (buffer.put b) ↔ StoresInBounds buffer ∧ buffer.ins.data.length<sizeofData := by
  unfold StoresInBounds Accumulation.put
  simp [or_imp,forall_and]

theorem storesInBounds_terminate : StoresInBounds buffer.terminate ↔
      StoresInBounds buffer ∧ buffer.ins.data.length<sizeofData := by
  unfold StoresInBounds Accumulation.terminate
  simp [or_imp,forall_and]

/-- A byte that is no semicolon moves the offset on. -/
theorem Aligned.put (h : Aligned buffer) (hb : b≠59) (hfits : gap buffer.received<sizeofData) :
    Aligned (buffer.put b) := by
  have hlength : (buffer.put b).ins.data.length=buffer.ins.data.length+1 := length_append
  have hoffset := h.offset
  refine ⟨storesInBounds_put.mpr ⟨h.inBounds,?_⟩,?_,?_⟩
  · omega
  · rw [hlength,put_received,gap_append,if_neg hb,hoffset]
  · omega

/-- After a semicolon the offset is zero. -/
theorem aligned_cleared {pre : List UInt8} (hbounds : StoresInBounds buffer)
    (hreceived : buffer.received=pre++[59]) : Aligned buffer.clear := by
  refine ⟨hbounds,?_,Nat.zero_le _⟩
  change 0=gap buffer.received
  rw [hreceived,gap_append,if_pos rfl]

theorem check_eq (h : Aligned buffer) : buffer.check=buffer := by
  unfold Accumulation.check
  rw [if_neg (Nat.not_lt.mpr h.fits)]

section Recordings

/-- What a byte of a recording does to an aligned buffer. -/
theorem recordingByte_aligned (h : Aligned buffer) (hfits : gap buffer.received<sizeofData) :
    StoresInBounds (recordingByte b buffer).2 ∧
      ((recordingByte b buffer).1=true→Aligned (recordingByte b buffer).2) := by
  have hput : StoresInBounds (buffer.put b) :=
    storesInBounds_put.mpr ⟨h.inBounds,by rw [h.offset]; exact hfits⟩
  unfold recordingByte
  dsimp only
  by_cases hb : b=59
  · rw [if_pos hb]
    by_cases hok : (buffer.put b).parse.1=true
    · rw [if_pos hok]
      exact ⟨hput,fun _ => aligned_cleared hput (show _ = buffer.received++[59] from hb ▸ rfl)⟩
    · rw [if_neg hok]
      exact ⟨hput,fun hgoesOn => absurd hgoesOn Bool.false_ne_true⟩
  · rw [if_neg hb]
    exact ⟨hput,fun _ => h.put hb hfits⟩

theorem recordingByte_stores (hbounds : StoresInBounds (recordingByte b buffer).2) :
    buffer.ins.data.length<sizeofData := by
  have hput : StoresInBounds (buffer.put b) := by
    unfold recordingByte at hbounds
    dsimp only at hbounds
    split_ifs at hbounds
    · exact hbounds
    · exact hbounds
    · exact hbounds
  exact (storesInBounds_put.mp hput).2

variable {worker : Worker}

/-- A worker that has returned takes no step. -/
theorem stepWorker_point {event : WorkerEvent} {semaphore : ℕ} {rv : ℤ}
    (hpoint : worker.point=.returned rv) : stepWorker event semaphore worker=none := by
  cases event <;> simp only [stepWorker,hpoint]

/-- A step of a worker reads a byte, or leaves the buffer as it is. -/
theorem stepWorker_buffer {event : WorkerEvent} {semaphore semaphore' : ℕ} {worker' : Worker}
    (h : stepWorker event semaphore worker=some (semaphore',worker')) :
    (∃ b terminate, event=.read (.byte b) terminate ∧ worker.point=.reading ∧
      worker' = worker.afterRead (.byte b) terminate) ∨
      (worker'.buffer=worker.buffer ∧ worker.point≠.returned (-1)) := by
  have hgoing : worker.point≠.returned (-1) := by
    intro hpoint
    rw [stepWorker_point hpoint] at h
    cases h
  unfold stepWorker at h
  split at h
  next =>
    cases h
    exact Or.inr ⟨rfl,hgoing⟩
  next =>
    unfold Worker.acquire at h
    split_ifs at h
    cases h
    exact Or.inr ⟨rfl,hgoing⟩
  next =>
    split_ifs at h
    all_goals
      cases h
      exact Or.inr ⟨rfl,hgoing⟩
  next =>
    unfold Worker.acquire at h
    split_ifs at h
    cases h
    exact Or.inr ⟨rfl,hgoing⟩
  next result terminate hpoint =>
    cases h
    cases result with
    | byte b => exact Or.inl ⟨b,terminate,rfl,hpoint,rfl⟩
    | endOfFile =>
      refine Or.inr ⟨?_,hgoing⟩
      unfold Worker.afterRead
      cases terminate <;> rfl
    | again => exact Or.inr ⟨rfl,hgoing⟩
    | failed => exact Or.inr ⟨rfl,hgoing⟩
  next =>
    split_ifs at h
    all_goals
      cases h
      exact Or.inr ⟨rfl,hgoing⟩
  next => cases h

/-- The buffer of a worker, aligned while the parser has not failed. -/
structure WorkerAligned (worker : Worker) : Prop where
  inBounds : StoresInBounds worker.buffer
  aligned : worker.point≠.returned (-1)→Aligned worker.buffer

/-- The stores of every worker so far were within its buffer. -/
def ServiceInBounds (service : Service) : Prop :=
  ∀ worker∈service.workers, StoresInBounds worker.buffer

instance (service : Service) : Decidable (ServiceInBounds service) :=
  inferInstanceAs (Decidable (∀ worker∈service.workers, ∀ index∈worker.buffer.stores, _))

/-- A worker reads a byte while there is room for it. -/
def RecordingFits (event : ServiceEvent) (service : Service) : Prop :=
  ∀ i b terminate worker, event=.worker i (.read (.byte b) terminate) →
    service.workers[i]? = some worker → worker.point=.reading →
    gap worker.buffer.received<sizeofData

/-- The service takes every event. -/
theorem stepService_total (event : ServiceEvent) (service : Service) :
    (stepService event service).isSome := by
  unfold stepService
  cases event with
  | create => rfl
  | worker i event =>
    dsimp only
    split
    · rfl
    · split
      · rfl
      · rfl

/-- What holds of every worker after a step of one of them. -/
theorem forall_set {P : Worker→Prop} {workers : List Worker} (i : ℕ) (h : ∀ w∈workers, P w)
    (hworker : P worker) : ∀ w∈workers.set i worker, P w := by
  intro w hw
  rcases mem_or_eq_of_mem_set hw with hmem | rfl
  · exact h w hmem
  · exact hworker

/-- A step of the service creates a worker, changes nothing, or is a step of one worker. -/
theorem stepService_cases {event : ServiceEvent} {service service' : Service}
    (h : stepService event service=some service') :
    event=.create ∧ service' = { service with workers := service.workers++[newWorker] } ∨
      service' = service ∨
      ∃ i workerEvent worker semaphore worker', event=.worker i workerEvent ∧
        service.workers[i]? = some worker ∧
        stepWorker workerEvent service.semaphore worker=some (semaphore,worker') ∧
        service' = ⟨semaphore,service.workers.set i worker'⟩ := by
  cases event with
  | create => exact Or.inl ⟨rfl,(Option.some.inj h).symm⟩
  | worker i workerEvent =>
    right
    simp only [stepService] at h
    split at h
    next => exact Or.inl (Option.some.inj h).symm
    next worker hi =>
      split at h
      next => exact Or.inl (Option.some.inj h).symm
      next semaphore worker' hworker =>
        exact Or.inr ⟨i,workerEvent,worker,semaphore,worker',rfl,hi,hworker,
          (Option.some.inj h).symm⟩

/-- What a read does in the service. -/
theorem stepService_read {service : Service} {i : ℕ} (hi : service.workers[i]? = some worker)
    (hpoint : worker.point=.reading) (result : ReadReturn) (terminate : Bool) :
    stepService (.worker i (.read result terminate)) service=
      some ⟨service.semaphore,service.workers.set i (worker.afterRead result terminate)⟩ := by
  simp only [stepService,hi,stepWorker,hpoint]

/-- A worker that has room keeps its buffer aligned. -/
theorem stepWorker_aligned {event : WorkerEvent} {semaphore semaphore' : ℕ} {worker' : Worker}
    (h : stepWorker event semaphore worker=some (semaphore',worker'))
    (haligned : WorkerAligned worker)
    (hfits : ∀ b terminate, event=.read (.byte b) terminate → worker.point=.reading →
      gap worker.buffer.received<sizeofData) : WorkerAligned worker' := by
  rcases stepWorker_buffer h with ⟨b,terminate,hevent,hpoint,rfl⟩ | ⟨hbuffer,hpoint⟩
  · have hreading : Aligned worker.buffer :=
      haligned.aligned (by rw [hpoint]; exact JobPoint.noConfusion)
    obtain ⟨hbounds,hgoesOn⟩ := recordingByte_aligned hreading (hfits b terminate hevent hpoint)
    refine ⟨hbounds,fun hreturned => hgoesOn ?_⟩
    by_contra hstops
    exact hreturned (if_neg hstops)
  · have hworker := haligned.aligned hpoint
    rw [←hbuffer] at hworker
    exact ⟨hworker.inBounds,fun _ => hworker⟩

/-- The buffers of all workers are aligned. -/
def ServiceAligned (service : Service) : Prop := ∀ worker∈service.workers, WorkerAligned worker

theorem serviceAligned_init (threadWindowSize : ℕ) : ServiceAligned (serverInit threadWindowSize) :=
  fun _ hworker => absurd hworker not_mem_nil

variable {event : ServiceEvent} {service service' : Service}

theorem ServiceAligned.inBounds (h : ServiceAligned service) : ServiceInBounds service :=
  fun worker hworker => (h worker hworker).inBounds

/-- A step for which there is room keeps them aligned. -/
theorem ServiceAligned.step (h : ServiceAligned service) (hfits : RecordingFits event service)
    (hstep : stepService event service=some service') : ServiceAligned service' := by
  rcases stepService_cases hstep with
    ⟨-,rfl⟩ | rfl | ⟨i,workerEvent,worker,semaphore,worker',rfl,hi,hworker,rfl⟩
  · exact forall_mem_append.mpr
      ⟨h,forall_mem_singleton.mpr ⟨aligned_empty.inBounds,fun _ => aligned_empty⟩⟩
  · exact h
  · refine forall_set i h (stepWorker_aligned hworker (h worker (mem_of_getElem? hi)) ?_)
    rintro b terminate rfl hpoint
    exact hfits i b terminate worker rfl hi hpoint

/-- A step whose stores are within the buffers had room for them. -/
theorem ServiceAligned.fits (h : ServiceAligned service)
    (hstep : stepService event service=some service') (hbounds : ServiceInBounds service') :
    RecordingFits event service := by
  rintro i b terminate worker rfl hi hpoint
  have hworker := (h worker (mem_of_getElem? hi)).aligned
    (by rw [hpoint]; exact JobPoint.noConfusion)
  rw [stepService_read hi hpoint] at hstep
  cases hstep
  have hlt : i<service.workers.length := (List.getElem?_eq_some_iff.mp hi).1
  have hmem : worker.afterRead (.byte b) terminate∈
      service.workers.set i (worker.afterRead (.byte b) terminate) :=
    mem_set hlt _
  rw [←hworker.offset]
  exact recordingByte_stores (hbounds _ hmem)

/-- The workers store within their buffers exactly if they have room for all bytes they read. -/
theorem recording_inBounds_iff (threadWindowSize : ℕ) (events : List ServiceEvent) :
    (∀ made, made <+: events→∀ service,
      run stepService made (serverInit threadWindowSize)=some service→ServiceInBounds service) ↔
      Along stepService RecordingFits events (serverInit threadWindowSize) :=
  visits_iff_along ServiceAligned.inBounds stepService_total ServiceAligned.step
    ServiceAligned.fits events (serviceAligned_init threadWindowSize)

end Recordings

section Streams

/-- A byte of a socket is stored within the buffer, and so is the zero that follows a
semicolon, exactly if the bytes since the last semicolon leave room for them. -/
theorem streamByte_aligned (h : Aligned buffer)
    (hfits : gap buffer.received+(if b=59 then 1 else 0)<sizeofData) :
    Aligned (streamByte b buffer).2 := by
  unfold streamByte
  dsimp only
  rw [check_eq h]
  have hoffset := h.offset
  by_cases hb : b=59
  · rw [if_pos hb] at hfits ⊢
    have hlength : (buffer.put b).ins.data.length=buffer.ins.data.length+1 := length_append
    have hput : StoresInBounds (buffer.put b) := storesInBounds_put.mpr ⟨h.inBounds,by omega⟩
    have hterminated : StoresInBounds (buffer.put b).terminate :=
      storesInBounds_terminate.mpr ⟨hput,by omega⟩
    exact aligned_cleared hterminated (show _ = buffer.received++[59] from hb ▸ rfl)
  · rw [if_neg hb] at hfits ⊢
    exact h.put hb (by omega)

theorem streamByte_stores (h : Aligned buffer) (hbounds : StoresInBounds (streamByte b buffer).2) :
    gap buffer.received+(if b=59 then 1 else 0)<sizeofData := by
  unfold streamByte at hbounds
  dsimp only at hbounds
  rw [check_eq h] at hbounds
  have hoffset := h.offset
  by_cases hb : b=59
  · rw [if_pos hb] at hbounds ⊢
    have hlength : (buffer.put b).ins.data.length=buffer.ins.data.length+1 := length_append
    have hterminated : StoresInBounds (buffer.put b).terminate := hbounds
    have hlt := (storesInBounds_terminate.mp hterminated).2
    omega
  · rw [if_neg hb] at hbounds ⊢
    have hlt := (storesInBounds_put.mp hbounds).2
    omega

/-- A byte is read while there is room for it, and for the zero behind a semicolon. -/
def StreamFits (read : ReadReturn) (job : StreamJob) : Prop :=
  job.returned=false→∀ b, read=.byte b → gap job.buffer.received+(if b=59 then 1 else 0)<sizeofData

/-- The stores of the stream reader are in bounds exactly if they fit. -/
theorem stream_inBounds_iff (reads : List ReadReturn) : (∀ made, made <+: reads→∀ job,
      run stepStream made ⟨emptyAccumulation,1,false⟩=some job→StoresInBounds job.buffer) ↔
      Along stepStream StreamFits reads ⟨emptyAccumulation,1,false⟩ := by
  refine visits_iff_along (G := fun job : StreamJob => Aligned job.buffer)
    (fun h => h.inBounds) (fun read job => ?_) (fun {read job job'} h hfits hstep => ?_)
    (fun {read job job'} h hstep hbounds => ?_) reads aligned_empty
  · unfold stepStream
    split_ifs
    · rfl
    · cases read <;> rfl
  · unfold stepStream at hstep
    cases hreturned : job.returned with
    | true =>
      rw [if_pos hreturned] at hstep
      cases hstep
      exact h
    | false =>
      rw [if_neg (by rw [hreturned]; exact Bool.false_ne_true)] at hstep
      cases read with
      | byte b =>
        cases hstep
        exact streamByte_aligned h (hfits hreturned b rfl)
      | endOfFile =>
        cases hstep
        exact h
      | again =>
        cases hstep
        exact h
      | failed =>
        cases hstep
        exact h
  · rintro hreturned b rfl
    unfold stepStream at hstep
    rw [if_neg (by rw [hreturned]; exact Bool.false_ne_true)] at hstep
    cases hstep
    exact streamByte_stores h hbounds

end Streams

section Calls

/-- The bytes of a call are stored while there is room for each of them. -/
def ConvertFits (buf : List UInt8) (buffer : Accumulation) : Prop :=
  ∀ pre b, pre++[b] <+: buf → gap (buffer.received++pre)<sizeofData

/-- The buffer after a byte of a call. -/
def convertByte (b : UInt8) (buffer : Accumulation) : Accumulation :=
  if b=59 then (buffer.put b).parse.2.clear else buffer.put b

theorem convertBytes_cons (h : Aligned buffer) (b : UInt8) (bytes : List UInt8) :
    convertBytes (b::bytes) buffer=convertBytes bytes (convertByte b buffer) := by
  rw [convertBytes,if_neg (Nat.not_lt.mpr h.fits)]
  rfl

theorem convertByte_received (b : UInt8) (buffer : Accumulation) :
    (convertByte b buffer).received=buffer.received++[b] := by
  unfold convertByte
  split_ifs
  · rfl
  · rfl

theorem convertByte_aligned (h : Aligned buffer) (hfits : gap buffer.received<sizeofData) :
    Aligned (convertByte b buffer) := by
  have hput : StoresInBounds (buffer.put b) :=
    storesInBounds_put.mpr ⟨h.inBounds,by rw [h.offset]; exact hfits⟩
  unfold convertByte
  by_cases hb : b=59
  · rw [if_pos hb]
    exact aligned_cleared hput (show _ = buffer.received++[59] from hb ▸ rfl)
  · rw [if_neg hb]
    exact h.put hb hfits

/-- Stores are not taken back. -/
theorem convertBytes_stores (bytes : List UInt8) (buffer : Accumulation) :
    buffer.stores <+: (convertBytes bytes buffer).2.stores := by
  induction bytes generalizing buffer with
  | nil => exact prefix_rfl
  | cons b bytes ih =>
    have hput : buffer.stores <+: (buffer.put b).stores := ⟨[buffer.ins.data.length],rfl⟩
    rw [convertBytes]
    split_ifs
    · exact prefix_rfl
    · exact hput.trans (ih (buffer.put b).parse.2.clear)
    · exact hput.trans (ih (buffer.put b))

theorem convertBytes_aligned (h : Aligned buffer) {bytes : List UInt8}
    (hfits : ConvertFits bytes buffer) : Aligned (convertBytes bytes buffer).2 := by
  induction bytes generalizing buffer with
  | nil => exact h
  | cons b bytes ih =>
    have hfirst := hfits [] b ⟨bytes,rfl⟩
    rw [append_nil] at hfirst
    rw [convertBytes_cons h]
    refine ih (convertByte_aligned h hfirst) fun pre c hinit => ?_
    rw [convertByte_received,append_assoc]
    exact hfits (b::pre) c (cons_prefix_cons.mpr ⟨rfl,hinit⟩)

theorem convertBytes_fits (h : Aligned buffer) {bytes : List UInt8}
    (hbounds : StoresInBounds (convertBytes bytes buffer).2) : ConvertFits bytes buffer := by
  induction bytes generalizing buffer with
  | nil =>
    rintro pre b ⟨rest,hsplit⟩
    simp at hsplit
  | cons b bytes ih =>
    rw [convertBytes_cons h] at hbounds
    have hstored : buffer.ins.data.length∈(convertByte b buffer).stores := by
      unfold convertByte Accumulation.put
      split_ifs
      · exact mem_append_right _ (mem_singleton_self _)
      · exact mem_append_right _ (mem_singleton_self _)
    have hfirst : gap buffer.received<sizeofData := by
      rw [←h.offset]
      exact hbounds _ ((convertBytes_stores bytes _).subset hstored)
    intro pre c hinit
    cases pre with
    | nil =>
      rw [append_nil]
      exact hfirst
    | cons d pre =>
      obtain ⟨rfl,hrest⟩ := cons_prefix_cons.mp hinit
      have hnext := ih (convertByte_aligned h hfirst) hbounds pre c hrest
      rw [convertByte_received,append_assoc] at hnext
      exact hnext

/-- The stores of the converter are in bounds exactly if they fit. -/
theorem convert_inBounds_iff (calls : List (List UInt8)) :
    (∀ made, made <+: calls→∀ buffer, run stepConvert made emptyAccumulation=some buffer →
      StoresInBounds buffer) ↔ Along stepConvert ConvertFits calls emptyAccumulation := by
  refine visits_iff_along (G := Aligned) (fun h => h.inBounds) (fun _ _ => rfl)
    (fun {buf buffer buffer'} h hfits hstep => ?_) (fun {buf buffer buffer'} h hstep hbounds => ?_)
    calls aligned_empty
  · cases hstep
    exact convertBytes_aligned h hfits
  · cases hstep
    exact convertBytes_fits h hbounds

end Calls

/-- Every store to an accumulation buffer is within it exactly if each driver reads
bytes only while there is room for them, counted from the last semicolon. The driver
that stores a zero behind a semicolon needs room for that as well. -/
theorem stores_inBounds_iff (threadWindowSize : ℕ) (events : List ServiceEvent)
    (reads : List ReadReturn) (calls : List (List UInt8)) :
    ((∀ made, made <+: events→∀ service,
      run stepService made (serverInit threadWindowSize)=some service → ServiceInBounds service) ↔
      Along stepService RecordingFits events (serverInit threadWindowSize)) ∧
    ((∀ made, made <+: reads→∀ job,
      run stepStream made ⟨emptyAccumulation,1,false⟩=some job→StoresInBounds job.buffer) ↔
      Along stepStream StreamFits reads ⟨emptyAccumulation,1,false⟩) ∧
    ((∀ made, made <+: calls→∀ buffer, run stepConvert made emptyAccumulation=some buffer →
      StoresInBounds buffer) ↔ Along stepConvert ConvertFits calls emptyAccumulation) :=
  ⟨recording_inBounds_iff threadWindowSize events,stream_inBounds_iff reads,
    convert_inBounds_iff calls⟩

theorem gap_replicate (hb : b≠59) (n : ℕ) : gap (List.replicate n b)=n := by
  induction n with
  | zero => rfl
  | succ n ih => rw [replicate_succ',gap_append,if_neg hb,ih]

/-- A call with a byte more than the buffer has room for, none of them a semicolon. -/
theorem not_stores_inBounds : ¬∀ calls buffer, run stepConvert calls emptyAccumulation=some buffer →
      StoresInBounds buffer := by
  intro h
  have halong := (convert_inBounds_iff [List.replicate (sizeofData+1) 97]).mp
    fun made _ buffer hrun => h made buffer hrun
  have hfits := halong.1 (List.replicate sizeofData 97) 97
    ⟨[],by rw [append_nil,←replicate_succ']⟩
  rw [show emptyAccumulation.received=[] from rfl,nil_append,
    gap_replicate (by decide)] at hfits
  exact absurd hfits (Nat.lt_irrefl _)

end GuacServer.EncoderJobs
