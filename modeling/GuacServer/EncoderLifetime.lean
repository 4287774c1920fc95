import GuacServer.EncoderReactor

/-!
# Lifetime of the jobs

Workers free their jobs and reactor and workers close descriptors. As long as no job is
destroyed, no freed job is accessed and each descriptor is closed at most once. The
first job_destroy reads the job that it has freed.
-/

namespace GuacServer.EncoderReactor

open Function List StateRuns

/-- No field of a freed job has been accessed, and every descriptor has been closed at
most once, and once for each job that has ended. -/
structure JobsKept (reactor : Reactor) : Prop where
  access : reactor.freedAccess=false
  closes : ∀ job∈reactor.jobs, job.closes≤1 ∧ (job.stage=.ended → job.closes=1)

/-- A step that calls job_destroy: a worker's last step, or that of the reactor when
it cannot start a worker. -/
inductive Destroys : Event→Reactor→Prop
  | worker {id : ℕ} {reactor : Reactor} {job : Job} (hjob : reactor.jobs[id]? = some job)
      (hstage : job.stage=.destroy) : Destroys (.worker id) reactor
  | accept {fd : ℕ} {reactor : Reactor}
      (hidle : reactor.registering=none ∧ reactor.descriptors fd=none) :
      Destroys (.accept fd false) reactor

/-- Descriptors stand for connections that have not been closed. -/
def Owned (reactor : Reactor) : Prop :=
  ∀ fd id, reactor.descriptors fd=some id →
    ∃ job, reactor.jobs[id]? = some job ∧ job.fd=fd ∧ job.closes=0

/-- While no job has been freed. -/
structure JobsAlive (reactor : Reactor) : Prop where
  access : reactor.freedAccess=false
  stages : ∀ job∈reactor.jobs, job.stage≠.ended
  closes : ∀ job∈reactor.jobs, job.closes≤1
  owned : Owned reactor

variable {reactor reactor' : Reactor}

theorem JobsAlive.kept (h : JobsAlive reactor) : JobsKept reactor :=
  ⟨h.access,fun job hjob => ⟨h.closes job hjob,fun hended => absurd hended (h.stages job hjob)⟩⟩

variable {id : ℕ} {job : Job}

/-- What holds of every job after the state of one of them has changed. -/
theorem forall_setJob {P : Job→Prop} (h : ∀ j∈reactor.jobs, P j) (hjob : P job) :
    ∀ j∈(reactor.setJob id job).jobs, P j := by
  intro j hj
  rcases mem_or_eq_of_mem_set hj with hmem | rfl
  · exact h j hmem
  · exact hjob

theorem setJob_self {job' : Job} (h : reactor.jobs[id]? = some job) :
    (reactor.setJob id job').jobs[id]? = some job' := by
  have hlt := (List.getElem?_eq_some_iff.mp h).1
  exact List.getElem?_set_self hlt

theorem setJob_ne {other : ℕ} (hne : other≠id) (job' : Job) :
    (reactor.setJob id job').jobs[other]? = reactor.jobs[other]? :=
  List.getElem?_set_ne hne.symm

/-- A job that keeps its descriptor and has not closed it once more. -/
theorem Owned.setJob (h : Owned reactor) {job' : Job} (hjob : reactor.jobs[id]? = some job)
    (hfd : job'.fd=job.fd) (hcloses : job'.closes=job.closes) :
    Owned (reactor.setJob id job') := by
  intro fd other hopen
  obtain ⟨owner,howner,hownerFd,hnone⟩ := h fd other hopen
  by_cases heq : other=id
  · subst heq
    cases hjob.symm.trans howner
    exact ⟨job',setJob_self hjob,hfd.trans hownerFd,hcloses.trans hnone⟩
  · exact ⟨owner,by rw [setJob_ne heq]; exact howner,hownerFd,hnone⟩

theorem close_descriptors (fd fd' : ℕ) (reactor : Reactor) :
    (reactor.close fd).descriptors fd' = if fd' = fd then none else reactor.descriptors fd' := by
  unfold Reactor.close
  dsimp only
  split_ifs with heq
  · rw [heq,update_self]
  · rw [update_of_ne heq]

theorem rwEventDel_rest (fd : ℕ) (reactor : Reactor) : (reactor.rwEventDel fd).jobs=reactor.jobs ∧
      (reactor.rwEventDel fd).descriptors=reactor.descriptors ∧
      (reactor.rwEventDel fd).freedAccess=reactor.freedAccess := by
  unfold Reactor.rwEventDel
  split_ifs
  · exact ⟨rfl,rfl,rfl⟩
  · exact ⟨rfl,rfl,rfl⟩

/-- A connection that is closed. -/
theorem Owned.close (h : Owned reactor) {job' : Job} (hjob : reactor.jobs[id]? = some job)
    (hjobs : reactor'.jobs=(reactor.setJob id job').jobs)
    (hdescriptors : ∀ fd, reactor'.descriptors fd=
      if fd=job.fd then none else reactor.descriptors fd) : Owned reactor' := by
  intro fd other hopen
  rw [hdescriptors] at hopen
  split_ifs at hopen with hne
  obtain ⟨owner,howner,hownerFd,hnone⟩ := h fd other hopen
  have hother : other≠id := by
    rintro rfl
    cases hjob.symm.trans howner
    exact hne hownerFd.symm
  refine ⟨owner,?_,hownerFd,hnone⟩
  rw [hjobs,setJob_ne hother]
  exact howner

/-- A connection that is accepted under an unused number. -/
theorem Owned.accept (h : Owned reactor) (hcloses : job.closes=0) :
    Owned { reactor with
      jobs := reactor.jobs++[job]
      descriptors := update reactor.descriptors job.fd (some reactor.jobs.length) } := by
  intro fd id hopen
  dsimp only at hopen ⊢
  by_cases heq : fd=job.fd
  · rw [heq,update_self] at hopen
    cases hopen
    exact ⟨job,List.getElem?_concat_length ..,heq.symm,hcloses⟩
  · rw [update_of_ne heq] at hopen
    obtain ⟨owner,howner,hownerFd,hnone⟩ := h fd id hopen
    refine ⟨owner,?_,hownerFd,hnone⟩
    rw [List.getElem?_append_left (List.getElem?_eq_some_iff.mp howner).1]
    exact howner

/-- Jobs stay alive when one of them changes. -/
theorem JobsAlive.setJob (h : JobsAlive reactor) {job' : Job} (hjob : reactor.jobs[id]? = some job)
    (hfd : job'.fd=job.fd) (hcloses : job'.closes=job.closes) (hstage : job'.stage≠.ended) :
    JobsAlive (reactor.setJob id job') :=
  ⟨h.access,forall_setJob h.stages hstage,
    forall_setJob h.closes (hcloses ▸ h.closes job (mem_of_getElem? hjob)),
    h.owned.setJob hjob hfd hcloses⟩

theorem access_alive (hstage : job.stage≠.ended) : reactor.access job=reactor := by
  unfold Reactor.access
  rw [decide_eq_false hstage,Bool.or_false]

/-- What does not concern jobs, descriptors and accesses. -/
theorem JobsAlive.congr (h : JobsAlive reactor) (hjobs : reactor'.jobs=reactor.jobs)
    (hdescriptors : reactor'.descriptors=reactor.descriptors)
    (haccess : reactor'.freedAccess=reactor.freedAccess) : JobsAlive reactor' := by
  refine ⟨haccess.trans h.access,?_,?_,?_⟩
  · rw [hjobs]
    exact h.stages
  · rw [hjobs]
    exact h.closes
  · unfold Owned
    rw [hjobs,hdescriptors]
    exact h.owned

theorem rwEventAdd_rest (fd : ℕ) (reactor : Reactor) : (reactor.rwEventAdd fd).jobs=reactor.jobs ∧
      (reactor.rwEventAdd fd).descriptors=reactor.descriptors ∧
      (reactor.rwEventAdd fd).freedAccess=reactor.freedAccess := by
  unfold Reactor.rwEventAdd
  split_ifs
  · exact ⟨rfl,rfl,rfl⟩
  · exact ⟨rfl,rfl,rfl⟩

/-- A new job whose worker is started. -/
theorem JobsAlive.accept (h : JobsAlive reactor) (fd : ℕ) :
    JobsAlive (reactor.connectionHandle fd true) := by
  have hall : ∀ {P : Job→Prop}, (∀ job∈reactor.jobs, P job) → P ⟨fd,.handler,false,0,false,false⟩ →
        ∀ job∈reactor.jobs++[⟨fd,.handler,false,0,false,false⟩], P job := by
    intro P hold hnew job hjob
    rcases mem_append.mp hjob with hmem | hlast
    · exact hold job hmem
    · rw [mem_singleton.mp hlast]
      exact hnew
  exact ⟨h.access,hall h.stages Stage.noConfusion,hall h.closes (Nat.zero_le 1),
    h.owned.accept (show (⟨fd,.handler,false,0,false,false⟩ : Job).closes=0 from rfl)⟩

/-- The connection that a descriptor stands for is closed for the first time. -/
theorem JobsAlive.closeClient (h : JobsAlive reactor) {fd connection : ℕ} {client : Job}
    (hconnection : reactor.descriptors fd=some connection)
    (hclient : reactor.jobs[connection]? = some client) :
    JobsAlive (((reactor.setJob connection
      { client with disconnected := true, closes := client.closes+1 }).rwEventDel fd).close
        fd) := by
  obtain ⟨owner,howner,hfd,hnone⟩ := h.owned fd connection hconnection
  cases hclient.symm.trans howner
  have hmem := mem_of_getElem? hclient
  generalize hclosing : reactor.setJob connection
    { client with disconnected := true, closes := client.closes+1 } = closing
  obtain ⟨hjobs,hdescriptors,haccess⟩ := rwEventDel_rest fd closing
  have hset : ((closing.rwEventDel fd).close fd).jobs=closing.jobs := hjobs
  refine ⟨?_,?_,?_,?_⟩
  · rw [show ((closing.rwEventDel fd).close fd).freedAccess=closing.freedAccess from haccess,
      ←hclosing]
    exact h.access
  · rw [hset,←hclosing]
    exact forall_setJob h.stages (h.stages client hmem)
  · rw [hset,←hclosing]
    exact forall_setJob h.closes (hnone ▸ Nat.le_refl 1)
  · refine h.owned.close hclient (hset.trans (congrArg Reactor.jobs hclosing.symm)) ?_
    intro fd'
    rw [close_descriptors,hdescriptors,hfd,←hclosing]
    rfl

/-- The connection of a client that has closed it is closed once. -/
theorem JobsAlive.clientClosed (h : JobsAlive reactor) {fd : ℕ}
    (hstep : reactor.clientClosed fd=some reactor') : JobsAlive reactor' := by
  unfold Reactor.clientClosed at hstep
  obtain ⟨connection,hconnection,hstep⟩ := Option.bind_eq_some_iff.mp hstep
  obtain ⟨id,-,hstep⟩ := Option.bind_eq_some_iff.mp hstep
  obtain ⟨job,hjob,hstep⟩ := Option.bind_eq_some_iff.mp hstep
  have hstage := h.stages job (mem_of_getElem? hjob)
  have hterminated : JobsAlive (reactor.setJob id { job with terminate := true }) :=
    h.setJob hjob rfl rfl hstage
  rw [@access_alive (reactor.setJob id { job with terminate := true }) job hstage] at hstep
  obtain ⟨client,hclient,hstep⟩ := Option.bind_eq_some_iff.mp hstep
  cases hstep
  exact hterminated.closeClient hconnection hclient

/-- rwEvent_add for a new job. -/
theorem JobsAlive.register (h : JobsAlive reactor) (hjob : reactor.jobs[id]? = some job) :
    JobsAlive (reactor.register id job) := by
  have hadded : JobsAlive (reactor.setJob id { job with added := true }) :=
    h.setJob hjob rfl rfl (h.stages job (mem_of_getElem? hjob))
  obtain ⟨hjobs,hdescriptors,haccess⟩ :=
    rwEventAdd_rest job.fd (reactor.setJob id { job with added := true })
  exact hadded.congr hjobs hdescriptors haccess

/-- A worker that does not destroy its job. -/
theorem JobsAlive.worker (h : JobsAlive reactor) (hjob : reactor.jobs[id]? = some job)
    (hstage : job.stage≠.destroy) (hstep : reactor.jobWorkerThread id job=some reactor') :
    JobsAlive reactor' := by
  unfold Reactor.jobWorkerThread at hstep
  rw [access_alive (h.stages job (mem_of_getElem? hjob))] at hstep
  split at hstep
  · cases hstep
    exact h.setJob hjob rfl rfl Stage.noConfusion
  · cases hstep
    exact h.setJob hjob rfl rfl Stage.noConfusion
  · contradiction
  · cases hstep

/-- No job is freed by a step that does not call job_destroy. -/
theorem JobsAlive.next (h : JobsAlive reactor) {event : Event} (hdestroys : ¬Destroys event reactor)
    (hstep : reactor.next event=some reactor') : JobsAlive reactor' := by
  unfold Reactor.next at hstep
  cases event with
  | accept fd started =>
    dsimp only at hstep
    split_ifs at hstep with hidle
    cases hstep
    cases started with
    | true => exact h.accept fd
    | false => exact absurd (.accept hidle) hdestroys
  | register =>
    obtain ⟨id,-,hstep⟩ := Option.bind_eq_some_iff.mp hstep
    obtain ⟨job,hjob,hstep⟩ := Option.bind_eq_some_iff.mp hstep
    cases hstep
    exact h.register hjob
  | wait fds =>
    dsimp only at hstep
    split_ifs at hstep
    cases hstep
    exact h.congr rfl rfl rfl
  | callback read =>
    dsimp only at hstep
    split at hstep
    · have hpending : ∀ pending, JobsAlive { reactor with pending := pending } :=
        fun _ => h.congr rfl rfl rfl
      unfold Reactor.jobClientCallback at hstep
      split at hstep
      · cases hstep
        exact hpending _
      · cases hstep
        exact hpending _
      · exact (hpending _).clientClosed hstep
    · cases hstep
  | worker id =>
    obtain ⟨job,hjob,hstep⟩ := Option.bind_eq_some_iff.mp hstep
    exact h.worker hjob (fun hstage => hdestroys (.worker hjob hstage)) hstep

theorem JobsAlive.step {event : Event} (h : JobsAlive reactor)
    (hdestroys : ¬Destroys event reactor) (hstep : stepReactor event reactor=some reactor') :
    JobsAlive reactor' := by
  obtain rfl | hnext := stepReactor_cases hstep
  · exact h
  · exact h.next hdestroys hnext

/-- job_destroy reads the job that it has freed. -/
theorem jobDestroy_access (id : ℕ) (job : Job) (reactor : Reactor) :
    (reactor.jobDestroy id job).freedAccess=true := by
  unfold Reactor.jobDestroy Reactor.access
  exact Bool.or_true _

/-- The last step of a worker. -/
theorem next_destroy (hjob : reactor.jobs[id]? = some job) (hstage : job.stage=.destroy) :
    reactor.next (.worker id)=some (reactor.jobDestroy id job) := by
  change (reactor.jobs[id]?).bind (reactor.jobWorkerThread id)=_
  rw [hjob,Option.bind_some]
  unfold Reactor.jobWorkerThread
  rw [hstage]

theorem Destroys.access {event : Event} (h : Destroys event reactor)
    (hstep : stepReactor event reactor=some reactor') : reactor'.freedAccess=true := by
  cases h with
  | worker hjob hstage =>
    rw [stepReactor_next (next_destroy hjob hstage) hstep]
    exact jobDestroy_access _ _ _
  | @accept fd _ hidle =>
    have hnext : reactor.next (.accept fd false)=some (reactor.connectionHandle fd false) :=
      if_pos hidle
    rw [stepReactor_next hnext hstep]
    exact jobDestroy_access _ _ _

theorem jobsAlive_init (uninitialised : ℕ→ℤ) : JobsAlive (epollReactorInit uninitialised) :=
  ⟨rfl,fun _ h => absurd h not_mem_nil,fun _ h => absurd h not_mem_nil,
    fun _ _ h => absurd h (Option.some_ne_none _).symm⟩

/-- In every order of steps, jobs and descriptors are kept to the end exactly as long as
no step calls job_destroy or accepts a descriptor behind the events array. -/
theorem jobs_kept_iff (uninitialised : ℕ→ℤ) (events : List Event) :
    (∀ made, made <+: events→∃ reactor,
        run stepReactor made (epollReactorInit uninitialised)=some reactor ∧ JobsKept reactor) ↔
      Along stepReactor (fun event reactor => ¬Destroys event reactor ∧ Fits event reactor) events
        (epollReactorInit uninitialised) := by
  refine reactor_run_iff JobsAlive.kept JobsAlive.step ?_ events (jobsAlive_init uninitialised)
  intro event reactor reactor' _ hstep hkept hdestroys
  exact Bool.noConfusion ((hdestroys.access hstep).symm.trans hkept.access)

/-- A single job whose worker runs to its end. -/
theorem not_jobs_kept : ¬∀ (uninitialised : ℕ→ℤ) (events : List Event) (reactor : Reactor),
      run stepReactor events (epollReactorInit uninitialised)=some reactor → JobsKept reactor := by
  intro h
  have hkept := h (fun _ => 0) [.accept 7 true,.register,.worker 0,.worker 0,.worker 0] _ rfl
  exact Bool.noConfusion hkept.access

end GuacServer.EncoderReactor
