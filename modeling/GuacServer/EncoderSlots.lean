import GuacServer.EncoderStores

/-!
# Slots of the encoder service

A worker that follows a recording holds a slot between a return of sem_wait and its
next sem_post. The return after a parse error is the one way out of the loop on which
the slot is not given back. A byte that is stored behind the buffer has no result.
-/

namespace GuacServer.EncoderJobs

open EncoderParser List StateRuns

/-- Whether a worker is between a return of sem_wait and its next sem_post. -/
def Worker.holds (worker : Worker) : Bool :=
  match worker.point with
  | .looping | .reading | .leaving => true
  | _ => false

/-- The calls of sem_wait and of sem_post of a worker, with the flag that says which
came last. -/
structure Balanced (worker : Worker) : Prop where
  calls : worker.waits=worker.posts+worker.holds.toNat
  flag : worker.statusSemHold=worker.holds

/-- The semaphore and the workers between wait and post make up the window, and every
worker that has returned has made as many calls of sem_post as of sem_wait. -/
structure SlotsConserved (threadWindowSize : ℕ) (service : Service) : Prop where
  window : service.semaphore+service.workers.countP Worker.holds=threadWindowSize
  returned : ∀ worker∈service.workers, ∀ rv, worker.point=.returned rv → worker.posts=worker.waits

/-- A step of the service, which has no result if a worker stored a byte outside of its
buffer. -/
def stepInBuffers (event : ServiceEvent) (service : Service) : Option Service :=
  (stepService event service).filter fun next => decide (ServiceInBounds next)

/-- What such a step is. -/
theorem stepInBuffers_eq_some {event : ServiceEvent} {service service' : Service} :
    stepInBuffers event service=some service' ↔
      stepService event service=some service' ∧ ServiceInBounds service' := by
  unfold stepInBuffers
  rw [Option.filter_eq_some_iff,decide_eq_true_eq]

/-- The parser accepts the bytes up to a semicolon that a worker reads. -/
def PieceParsed (event : ServiceEvent) (service : Service) : Prop :=
  ∀ i terminate worker, event=.worker i (.read (.byte 59) terminate) →
    service.workers[i]? = some worker → worker.point=.reading →
    (insParserRead (worker.buffer.put 59).ins).ok=true

theorem balanced_newWorker : Balanced newWorker := ⟨rfl,rfl⟩

/-- A worker that takes a slot. -/
theorem Balanced.acquire {semaphore semaphore' : ℕ} {worker worker' : Worker} {point : JobPoint}
    (h : Balanced worker) (hfree : worker.holds=false)
    (hpoint : point=.looping ∨ point=.reading)
    (hacquire : worker.acquire semaphore point=some (semaphore',worker')) :
    Balanced worker' ∧ semaphore' + worker'.holds.toNat=semaphore+worker.holds.toNat := by
  have hcalls := h.calls
  rw [hfree] at hcalls ⊢
  unfold Worker.acquire at hacquire
  split_ifs at hacquire with hpositive
  cases hacquire
  have hheld : Worker.holds { worker with
      point := point
      schedFlag := false
      statusSemHold := true
      waits := worker.waits+1 } = true := by
    rcases hpoint with rfl | rfl
    · rfl
    · rfl
  refine ⟨⟨?_,hheld.symm⟩,?_⟩
  · rw [hheld]
    change worker.waits+1=worker.posts+1
    rw [hcalls]
    rfl
  · rw [hheld]
    change semaphore-1+1=semaphore
    omega

variable {worker : Worker}

/-- A worker that gives its slot back. -/
theorem Balanced.post {point : JobPoint} (h : Balanced worker)
    (hheld : worker.holds=true) (hpoint : point=.yielding ∨ point=.returned 0)
    (semaphore : ℕ) :
    Balanced (worker.post semaphore point).2 ∧
      (worker.post semaphore point).1+(worker.post semaphore point).2.holds.toNat=
        semaphore+worker.holds.toNat := by
  have hcalls := h.calls
  rw [hheld] at hcalls ⊢
  have hfree : (worker.post semaphore point).2.holds=false := by
    rcases hpoint with rfl | rfl
    · rfl
    · rfl
  refine ⟨⟨?_,hfree.symm⟩,?_⟩
  · rw [hfree]
    exact hcalls
  · rw [hfree]
    rfl

/-- A worker that goes on elsewhere without a call. -/
theorem Balanced.move (h : Balanced worker) (worker' : Worker)
    (hwaits : worker'.waits=worker.waits) (hposts : worker'.posts=worker.posts)
    (hflag : worker'.statusSemHold=worker.statusSemHold) (hholds : worker'.holds=worker.holds)
    (semaphore : ℕ) :
    Balanced worker' ∧ semaphore+worker'.holds.toNat=semaphore+worker.holds.toNat := by
  refine ⟨⟨?_,?_⟩,by rw [hholds]⟩
  · rw [hwaits,hposts,hholds]
    exact h.calls
  · rw [hflag,hholds]
    exact h.flag

/-- Where a worker is after a read that is not followed by a parse error. -/
theorem Balanced.afterRead (h : Balanced worker)
    (hpoint : worker.point=.reading) {result : ReadReturn} (hparsed : result=.byte 59 →
      (insParserRead (worker.buffer.put 59).ins).ok=true) (terminate : Bool) (semaphore : ℕ) :
    Balanced (worker.afterRead result terminate) ∧
      semaphore+(worker.afterRead result terminate).holds.toNat=semaphore+worker.holds.toNat := by
  have hheld : worker.holds=true := by
    unfold Worker.holds
    rw [hpoint]
  have hmove : ∀ point, point=.looping ∨ point=.leaving →
      Worker.holds { worker with point := point } = worker.holds := by
    rintro point (rfl | rfl)
    · exact hheld.symm
    · exact hheld.symm
  have hleave : Balanced { worker with point := .leaving } ∧ semaphore+
      (Worker.holds { worker with point := .leaving }).toNat=semaphore+worker.holds.toNat :=
    h.move { worker with point := .leaving } rfl rfl rfl (hmove _ (Or.inr rfl)) semaphore
  cases result with
  | byte b =>
    have hgoesOn : (recordingByte b worker.buffer).1=true := by
      unfold recordingByte
      dsimp only
      by_cases hb : b=59
      · subst hb
        rw [if_pos rfl,if_pos (show (worker.buffer.put 59).parse.1=true from hparsed rfl)]
      · rw [if_neg hb]
    refine h.move (worker.afterRead (.byte b) terminate) rfl rfl rfl ?_ semaphore
    unfold Worker.afterRead
    dsimp only
    rw [hgoesOn]
    exact hmove .looping (Or.inl rfl)
  | endOfFile =>
    cases terminate with
    | true => exact hleave
    | false =>
      exact h.move { worker with schedFlag := true, point := .looping } rfl rfl rfl
        (hmove .looping (Or.inl rfl)) semaphore
  | again => exact hleave
  | failed => exact hleave

/-- What a step of a worker keeps unless it meets a parse error. -/
theorem stepWorker_balanced {event : WorkerEvent} {semaphore semaphore' : ℕ}
    {worker worker' : Worker} (h : Balanced worker)
    (hstep : stepWorker event semaphore worker=some (semaphore',worker'))
    (hparsed : ∀ terminate, event=.read (.byte 59) terminate → worker.point=.reading →
      (insParserRead (worker.buffer.put 59).ins).ok=true) :
    Balanced worker' ∧ semaphore' + worker'.holds.toNat=semaphore+worker.holds.toNat := by
  unfold stepWorker at hstep
  split at hstep
  · rename_i ok hpoint
    cases hstep
    refine h.move { worker with point := if ok then .waiting else .returned (-1) } rfl rfl rfl ?_
      semaphore
    unfold Worker.holds
    rw [hpoint]
    cases ok <;> rfl
  · rename_i hpoint
    refine h.acquire ?_ (Or.inl rfl) hstep
    rw [Worker.holds,hpoint]
  · rename_i yes hpoint
    have hheld : worker.holds=true := by rw [Worker.holds,hpoint]
    split_ifs at hstep
    · cases hstep
      exact h.post hheld (Or.inl rfl) semaphore
    · cases hstep
      exact h.move { worker with point := .reading } rfl rfl rfl hheld.symm semaphore
  · rename_i hpoint
    refine h.acquire ?_ (Or.inr rfl) hstep
    rw [Worker.holds,hpoint]
  · rename_i result terminate hpoint
    cases hstep
    refine h.afterRead hpoint ?_ terminate semaphore
    rintro rfl
    exact hparsed terminate rfl hpoint
  · rename_i hpoint
    have hheld : worker.holds=true := by rw [Worker.holds,hpoint]
    rw [if_pos (h.flag.trans hheld)] at hstep
    cases hstep
    exact h.post hheld (Or.inr rfl) semaphore
  · cases hstep

/-- A step of one worker changes the number of workers with a slot by that worker. -/
theorem countP_holds_set {workers : List Worker} {i : ℕ} (hi : workers[i]? = some worker)
    (worker' : Worker) :
    (workers.set i worker').countP Worker.holds+worker.holds.toNat=
      workers.countP Worker.holds+worker'.holds.toNat := by
  obtain ⟨hlt,hget⟩ := List.getElem?_eq_some_iff.mp hi
  have hle := boole_getElem_le_countP (p := Worker.holds) hlt
  rw [hget] at hle
  rw [countP_set hlt,hget]
  generalize workers.countP Worker.holds=n at hle ⊢
  cases hheld : worker.holds with
  | true =>
    rw [hheld,if_pos rfl] at hle
    cases worker'.holds <;> simp <;> omega
  | false => cases worker'.holds <;> simp

/-- The slots are conserved, with the calls of every worker. -/
structure ServiceBalanced (threadWindowSize : ℕ) (service : Service) : Prop where
  window : service.semaphore+service.workers.countP Worker.holds=threadWindowSize
  workers : ∀ worker∈service.workers, Balanced worker

variable {threadWindowSize : ℕ}

theorem ServiceBalanced.conserved {service : Service}
    (h : ServiceBalanced threadWindowSize service) : SlotsConserved threadWindowSize service := by
  refine ⟨h.window,fun worker hworker rv hpoint => ?_⟩
  have hcalls := (h.workers worker hworker).calls
  rw [show worker.holds=false by rw [Worker.holds,hpoint]] at hcalls
  exact hcalls.symm

theorem serviceBalanced_init (threadWindowSize : ℕ) :
    ServiceBalanced threadWindowSize (serverInit threadWindowSize) :=
  ⟨rfl,fun _ h => absurd h not_mem_nil⟩

/-- A step keeps the slots balanced. -/
theorem ServiceBalanced.step {event : ServiceEvent}
    {service service' : Service} (h : ServiceBalanced threadWindowSize service)
    (hparsed : PieceParsed event service) (hstep : stepService event service=some service') :
    ServiceBalanced threadWindowSize service' := by
  rcases stepService_cases hstep with
    ⟨-,rfl⟩ | rfl | ⟨i,workerEvent,worker,semaphore,worker',rfl,hi,hworker,rfl⟩
  · refine ⟨?_,forall_mem_append.mpr
      ⟨h.workers,forall_mem_singleton.mpr balanced_newWorker⟩⟩
    rw [countP_append]
    exact h.window
  · exact h
  · obtain ⟨hbalanced,hslots⟩ := stepWorker_balanced
      (h.workers worker (mem_of_getElem? hi)) hworker
      fun terminate heq hpoint => hparsed i terminate worker (by rw [heq]) hi hpoint
    refine ⟨?_,forall_set i h.workers hbalanced⟩
    have hcount := countP_holds_set hi worker'
    have hwindow := h.window
    dsimp only
    omega

/-- A parse error keeps the slot. -/
theorem not_conserved_of_error {service service' : Service}
    (h : ServiceBalanced threadWindowSize service) {i : ℕ} {terminate : Bool}
    (hi : service.workers[i]? = some worker) (hpoint : worker.point=.reading)
    (herror : (insParserRead (worker.buffer.put 59).ins).ok=false)
    (hstep : stepService (.worker i (.read (.byte 59) terminate)) service=some service') :
    ¬SlotsConserved threadWindowSize service' := by
  have hstops : (recordingByte 59 worker.buffer).1=false := by
    unfold recordingByte
    dsimp only
    rw [if_pos rfl,if_neg (show ¬(worker.buffer.put 59).parse.1=true by
      rw [show (worker.buffer.put 59).parse.1=false from herror]
      exact Bool.false_ne_true)]
  have hreturned : (worker.afterRead (.byte 59) terminate).point=.returned (-1) := by
    unfold Worker.afterRead
    dsimp only
    rw [hstops]
    rfl
  have hcalls := (h.workers worker (mem_of_getElem? hi)).calls
  rw [show worker.holds=true by rw [Worker.holds,hpoint]] at hcalls
  rw [stepService_read hi hpoint] at hstep
  cases hstep
  intro hconserved
  have hlt := (List.getElem?_eq_some_iff.mp hi).1
  have heq : worker.posts=worker.waits :=
    hconserved.returned (worker.afterRead (.byte 59) terminate) (mem_set hlt _) (-1) hreturned
  rw [hcalls] at heq
  exact absurd heq (Nat.ne_of_lt (Nat.lt_succ_self _))

/-- The slots of the service are conserved in every state of a run, which goes on to its end,
exactly if no worker meets a parse error or has no room for a byte. -/
theorem slots_conserved_iff (threadWindowSize : ℕ) (events : List ServiceEvent) :
    (∀ made, made <+: events→∃ service,
      run stepInBuffers made (serverInit threadWindowSize)=some service ∧
        SlotsConserved threadWindowSize service) ↔
      Along stepInBuffers (fun event service => RecordingFits event service ∧
        PieceParsed event service) events (serverInit threadWindowSize) := by
  refine run_iff_along (G := fun service => ServiceBalanced threadWindowSize service ∧
      ServiceAligned service) (fun h => h.1.conserved)
    (fun {event service} h hcondition => ?_)
    (fun {event service service'} h hstep hconserved => ?_) events
    ⟨serviceBalanced_init threadWindowSize,serviceAligned_init threadWindowSize⟩
  · obtain ⟨next,hnext⟩ := Option.isSome_iff_exists.mp (stepService_total event service)
    have haligned := h.2.step hcondition.1 hnext
    exact ⟨next,stepInBuffers_eq_some.mpr ⟨hnext,haligned.inBounds⟩,
      h.1.step hcondition.2 hnext,haligned⟩
  · obtain ⟨hstep,hbounds⟩ := stepInBuffers_eq_some.mp hstep
    refine ⟨h.2.fits hstep hbounds,?_⟩
    rintro i terminate worker rfl hi hpoint
    by_contra herror
    exact not_conserved_of_error h.1 hi hpoint (Bool.eq_false_of_not_eq_true herror) hstep
      hconserved

/-- A recording that starts with a semicolon takes one of five slots for good. -/
theorem not_slots_conserved :
    ¬∀ events service, run stepInBuffers events (serverInit 5)=some service →
      SlotsConserved 5 service := by
  intro h
  let worker : Worker := ⟨.reading,emptyAccumulation,false,true,1,0⟩
  have hbalanced : ServiceBalanced 5 ⟨4,[worker]⟩ := by
    refine ⟨rfl,fun w hw => ?_⟩
    rw [mem_singleton.mp hw]
    exact ⟨rfl,rfl⟩
  have haligned : ServiceAligned ⟨4,[worker]⟩ :=
    forall_mem_singleton.mpr ⟨aligned_empty.inBounds,fun _ => aligned_empty⟩
  have herror : (insParserRead (worker.buffer.put 59).ins).ok=false := by decide +kernel
  obtain ⟨service,hservice⟩ := Option.isSome_iff_exists.mp
    (stepService_total (.worker 0 (.read (.byte 59) false)) ⟨4,[worker]⟩)
  have hfits : RecordingFits (.worker 0 (.read (.byte 59) false)) ⟨4,[worker]⟩ := by
    rintro i b terminate w heq hi -
    cases heq
    cases hi
    decide
  have hrun : run stepInBuffers [.create,.worker 0 (.opened true),.worker 0 .acquire,
      .worker 0 (.expired false),.worker 0 (.read (.byte 59) false)] (serverInit 5)=
        some service := by
    change run stepInBuffers [.worker 0 (.read (.byte 59) false)] ⟨4,[worker]⟩=_
    rw [run,stepInBuffers_eq_some.mpr ⟨hservice,(haligned.step hfits hservice).inBounds⟩]
    rfl
  exact not_conserved_of_error hbalanced rfl rfl herror hservice (h _ service hrun)

end GuacServer.EncoderJobs
