import GuacServer.EncoderLifetime

/-!
# Clients that the reactor watches

Each connection should be registered at epoll from rwEvent_add until it is closed. It
is when the status kept for its descriptor says that the number is not registered and
the worker has not yet closed it, and when no worker closes a number that has since
been given to another connection.
-/

namespace GuacServer.EncoderReactor

open StateRuns Function

variable {reactor reactor' : Reactor}

/-- The descriptor of a job is open, registered, and known as that of the job. -/
structure WatchedAt (reactor : Reactor) (id fd : ℕ) : Prop where
  descriptor : reactor.descriptors fd=some id
  registered : reactor.registered fd=true
  data : (reactor.events fd).data=some id

/-- Every rwEvent_add has succeeded, connections for which it was called are watched
until they are closed, and jobs whose client has closed its connection are told to
terminate. -/
structure Watched (reactor : Reactor) : Prop where
  added : reactor.addFailed=false
  watched : ∀ {id : ℕ} {job : Job}, reactor.jobs[id]? = some job → job.added=true →
    job.closes=0→WatchedAt reactor id job.fd
  terminated : ∀ {id : ℕ} {job : Job}, reactor.jobs[id]? = some job →
    job.disconnected=true → job.terminate=true

/-- A connection is registered while its number is not marked as registered and has
not been closed. A worker destroys its job while the number of its descriptor does not
stand for another registered connection. -/
def Keeps (event : Event) (reactor : Reactor) : Prop :=
  match event with
  | .register => ∀ id job, reactor.registering=some id → reactor.jobs[id]? = some job →
      (reactor.events job.fd).status≠1 ∧ reactor.descriptors job.fd=some id
  | .worker id => ∀ job, reactor.jobs[id]? = some job → job.stage=.destroy →
      ∀ other client, reactor.descriptors job.fd=some other →
        reactor.jobs[other]? = some client → client.added=true → other=id
  | _ => True

/-- What holds in runs of such steps: the registrations are those of connections that
have been added, and only the connection that is being registered has not been. -/
structure Registers (reactor : Reactor) : Prop where
  watched : Watched reactor
  owned : Owned reactor
  registered : ∀ {fd : ℕ}, reactor.registered fd=true →
    ∃ id job, reactor.descriptors fd=some id ∧ reactor.jobs[id]? = some job ∧ job.added=true
  registering : ∀ {id : ℕ}, reactor.registering=some id →
    ∃ job, reactor.jobs[id]? = some job ∧ job.added=false ∧
      ∀ other, reactor.descriptors job.fd=some other → other=id
  rest : ∀ {id : ℕ} {job : Job}, reactor.jobs[id]? = some job → job.closes=0 →
    job.added=true ∨ reactor.registering=some id

/-- A job after the state of one of them has changed. -/
theorem getElem?_setJob {id other : ℕ} {job job' : Job}
    (h : (reactor.setJob id job').jobs[other]? = some job) :
    other=id ∧ job=job' ∨ other≠id ∧ reactor.jobs[other]? = some job := by
  by_cases heq : other=id
  · subst heq
    have hlt := (List.getElem?_eq_some_iff.mp h).1
    have hself : (reactor.setJob other job').jobs[other]? = some job' :=
      List.getElem?_set_self (by simpa only [Reactor.setJob,List.length_set] using hlt)
    exact .inl ⟨rfl,Option.some.inj (h.symm.trans hself)⟩
  · rw [setJob_ne heq] at h
    exact .inr ⟨heq,h⟩

/-- A job that keeps its descriptor and its place in the event table. -/
structure SameConnection (job job' : Job) : Prop where
  fd : job'.fd=job.fd
  closes : job'.closes=job.closes
  added : job'.added=job.added
  terminated : job'.disconnected=true → job'.terminate=true

variable {id : ℕ}

theorem Registers.setJob (h : Registers reactor) {job job' : Job}
    (hjob : reactor.jobs[id]? = some job) (hsame : SameConnection job job') :
    Registers (reactor.setJob id job') := by
  refine ⟨⟨h.watched.added,?_,?_⟩,h.owned.setJob hjob hsame.fd hsame.closes,?_,?_,?_⟩
  · intro other j hj hadded hcloses
    rcases getElem?_setJob hj with ⟨rfl,rfl⟩ | ⟨-,hold⟩
    · rw [hsame.added] at hadded
      rw [hsame.closes] at hcloses
      have hat := h.watched.watched hjob hadded hcloses
      rw [hsame.fd]
      exact ⟨hat.descriptor,hat.registered,hat.data⟩
    · have hat := h.watched.watched hold hadded hcloses
      exact ⟨hat.descriptor,hat.registered,hat.data⟩
  · intro other j hj
    rcases getElem?_setJob hj with ⟨rfl,rfl⟩ | ⟨-,hold⟩
    · exact hsame.terminated
    · exact h.watched.terminated hold
  · intro fd hregistered
    obtain ⟨other,j,hopen,hj,hadded⟩ := h.registered hregistered
    by_cases heq : other=id
    · subst heq
      cases hjob.symm.trans hj
      exact ⟨other,job',hopen,setJob_self hjob,hsame.added.trans hadded⟩
    · exact ⟨other,j,hopen,by rw [setJob_ne heq]; exact hj,hadded⟩
  · intro other hregistering
    obtain ⟨j,hj,hadded,hopen⟩ := h.registering hregistering
    by_cases heq : other=id
    · subst heq
      cases hjob.symm.trans hj
      refine ⟨job',setJob_self hjob,hsame.added.trans hadded,?_⟩
      rw [hsame.fd]
      exact hopen
    · exact ⟨j,by rw [setJob_ne heq]; exact hj,hadded,hopen⟩
  · intro other j hj hcloses
    rcases getElem?_setJob hj with ⟨rfl,rfl⟩ | ⟨-,hold⟩
    · rw [hsame.closes] at hcloses
      rw [hsame.added]
      exact h.rest hjob hcloses
    · exact h.rest hold hcloses

/-- What does not concern jobs and the event table. -/
theorem Registers.congr (h : Registers reactor) (hjobs : reactor'.jobs=reactor.jobs)
    (hdescriptors : reactor'.descriptors=reactor.descriptors)
    (hregistered : reactor'.registered=reactor.registered)
    (hevents : reactor'.events=reactor.events)
    (hregistering : reactor'.registering=reactor.registering)
    (haddFailed : reactor'.addFailed=reactor.addFailed) : Registers reactor' := by
  obtain ⟨jobs,descriptors,registered,events,registering,pending,access,addFailed⟩ := reactor
  obtain ⟨jobs',descriptors',registered',events',registering',pending',access',
    addFailed'⟩ := reactor'
  dsimp only at hjobs hdescriptors hregistered hevents hregistering haddFailed
  subst hjobs hdescriptors hregistered hevents hregistering haddFailed
  refine ⟨⟨h.watched.added,?_,h.watched.terminated⟩,h.owned,h.registered,h.registering,h.rest⟩
  intro id job hjob hadded hcloses
  have hat := h.watched.watched hjob hadded hcloses
  exact ⟨hat.descriptor,hat.registered,hat.data⟩

theorem Registers.access (h : Registers reactor) (job : Job) : Registers (reactor.access job) :=
  h.congr rfl rfl rfl rfl rfl rfl

/-- A descriptor has been closed. -/
structure Closed (fd : ℕ) (reactor reactor' : Reactor) : Prop where
  jobs : reactor'.jobs=reactor.jobs
  descriptors : ∀ fd', reactor'.descriptors fd'=if fd' = fd then none else reactor.descriptors fd'
  registered : ∀ fd', reactor'.registered fd'=if fd' = fd then false else reactor.registered fd'
  data : ∀ fd', (reactor'.events fd').data=(reactor.events fd').data
  registering : reactor'.registering=reactor.registering
  addFailed : reactor'.addFailed=reactor.addFailed

theorem closed_close (fd : ℕ) (reactor : Reactor) : Closed fd reactor (reactor.close fd) := by
  refine ⟨rfl,fun fd' => close_descriptors fd fd' reactor,fun fd' => ?_,fun _ => rfl,rfl,rfl⟩
  unfold Reactor.close
  dsimp only
  split_ifs with heq
  · rw [heq,update_self]
  · rw [update_of_ne heq]

theorem closed_jobDestroy (id : ℕ) (job : Job) (reactor : Reactor) :
    Closed job.fd (reactor.setJob id { job with stage := .ended, closes := job.closes+1 })
      (reactor.jobDestroy id job) := by
  obtain ⟨hjobs,hdescriptors,hregistered,hdata,hregistering,haddFailed⟩ :=
    closed_close job.fd (reactor.setJob id { job with stage := .ended, closes := job.closes+1 })
  exact ⟨hjobs,hdescriptors,hregistered,hdata,hregistering,haddFailed⟩

/-- rwEvent_del and close(). -/
theorem closed_del (fd : ℕ) (reactor : Reactor) :
    Closed fd reactor ((reactor.rwEventDel fd).close fd) := by
  obtain ⟨hjobs,hdescriptors,hregistered,hdata,hregistering,haddFailed⟩ :=
    closed_close fd (reactor.rwEventDel fd)
  unfold Reactor.rwEventDel at *
  split_ifs at *
  · exact ⟨hjobs,hdescriptors,hregistered,hdata,hregistering,haddFailed⟩
  · refine ⟨hjobs,hdescriptors,fun fd' => ?_,fun fd' => ?_,hregistering,haddFailed⟩
    · rw [hregistered]
      dsimp only
      split_ifs with heq
      · rfl
      · rw [update_of_ne heq]
    · rw [hdata]
      dsimp only
      by_cases heq : fd' = fd
      · rw [heq,update_self]
      · rw [update_of_ne heq]

/-- The descriptor of a job is closed, and does not stand for another registered
connection. -/
theorem Registers.closed (h : Registers reactor) {job job' : Job}
    (hjob : reactor.jobs[id]? = some job)
    (hclosed : Closed job.fd (reactor.setJob id job') reactor')
    (hcloses : job'.closes≠0) (hfd : job'.fd=job.fd) (hadded : job'.added=job.added)
    (hterminated : job'.disconnected=true → job'.terminate=true)
    (hother : ∀ other client, reactor.descriptors job.fd=some other →
      reactor.jobs[other]? = some client → client.added=true → other=id) :
    Registers reactor' := by
  have hjobs : ∀ {other j}, reactor'.jobs[other]? = some j →
      other=id ∧ j=job' ∨ other≠id ∧ reactor.jobs[other]? = some j := by
    intro other j hj
    rw [hclosed.jobs] at hj
    exact getElem?_setJob hj
  have hkept : ∀ {other j}, other≠id → reactor.jobs[other]? = some j →
      reactor'.jobs[other]? = some j := by
    intro other j hne hj
    rw [hclosed.jobs,setJob_ne hne]
    exact hj
  refine ⟨⟨hclosed.addFailed.trans h.watched.added,?_,?_⟩,
    h.owned.close hjob hclosed.jobs hclosed.descriptors,?_,?_,?_⟩
  · intro other j hj hjadded hjcloses
    rcases hjobs hj with ⟨-,rfl⟩ | ⟨hne,hold⟩
    · exact absurd hjcloses hcloses
    · have hat := h.watched.watched hold hjadded hjcloses
      have hnumber : j.fd≠job.fd := fun heq =>
        hne (hother other j (heq ▸ hat.descriptor) hold hjadded)
      refine ⟨?_,?_,?_⟩
      · rw [hclosed.descriptors,if_neg hnumber]
        exact hat.descriptor
      · rw [hclosed.registered,if_neg hnumber]
        exact hat.registered
      · rw [hclosed.data]
        exact hat.data
  · intro other j hj
    rcases hjobs hj with ⟨-,rfl⟩ | ⟨-,hold⟩
    · exact hterminated
    · exact h.watched.terminated hold
  · intro fd hregistered
    rw [hclosed.registered] at hregistered
    split_ifs at hregistered with hnumber
    obtain ⟨other,j,hopen,hj,hjadded⟩ := h.registered hregistered
    have hne : other≠id := by
      rintro rfl
      obtain ⟨owner,howner,hownerFd,-⟩ := h.owned fd other hopen
      cases hjob.symm.trans howner
      exact hnumber hownerFd.symm
    refine ⟨other,j,?_,hkept hne hj,hjadded⟩
    rw [hclosed.descriptors,if_neg hnumber]
    exact hopen
  · intro other hregistering
    rw [hclosed.registering] at hregistering
    obtain ⟨j,hj,hjadded,hopen⟩ := h.registering hregistering
    by_cases heq : other=id
    · subst heq
      cases hjob.symm.trans hj
      refine ⟨job',?_,hadded.trans hjadded,fun x hx => ?_⟩
      · rw [hclosed.jobs]
        exact setJob_self hjob
      · rw [hfd,hclosed.descriptors,if_pos rfl] at hx
        cases hx
    · refine ⟨j,hkept heq hj,hjadded,fun x hx => ?_⟩
      rw [hclosed.descriptors] at hx
      split_ifs at hx
      exact hopen x hx
  · intro other j hj hjcloses
    rw [hclosed.registering]
    rcases hjobs hj with ⟨-,rfl⟩ | ⟨-,hold⟩
    · exact absurd hjcloses hcloses
    · exact h.rest hold hjcloses

/-- The number of the connection that is being registered is not registered. -/
theorem Registers.unregistered (h : Registers reactor) {job : Job}
    (hregistering : reactor.registering=some id) (hjob : reactor.jobs[id]? = some job) :
    reactor.registered job.fd=false := by
  rw [Bool.eq_false_iff]
  intro hregistered
  obtain ⟨other,client,hopen,hclient,hadded⟩ := h.registered hregistered
  obtain ⟨new,hnew,hnewAdded,hnumber⟩ := h.registering hregistering
  cases hjob.symm.trans hnew
  cases hnumber other hopen
  cases hjob.symm.trans hclient
  exact Bool.noConfusion (hadded.symm.trans hnewAdded)

/-- rwEvent_add of a number that is open and not registered, with a status that says
so. -/
theorem rwEventAdd_succeeds {fd id : ℕ} (hstatus : (reactor.events fd).status≠1)
    (hopen : reactor.descriptors fd=some id) (hregistered : reactor.registered fd=false) :
    reactor.rwEventAdd fd = { reactor with
      events := update reactor.events fd { reactor.events fd with status := 1 }
      registered := update reactor.registered fd true } := by
  unfold Reactor.rwEventAdd
  rw [if_neg hstatus,hopen,hregistered]
  dsimp only
  rw [Option.isNone_some,Bool.or_self,Bool.not_false,Bool.or_true,Bool.or_false]

/-- A connection is registered. -/
theorem Registers.register (h : Registers reactor) {job : Job}
    (hregistering : reactor.registering=some id) (hjob : reactor.jobs[id]? = some job)
    (hstatus : (reactor.events job.fd).status≠1)
    (hopen : reactor.descriptors job.fd=some id) : Registers (reactor.register id job) := by
  unfold Reactor.register
  rw [@rwEventAdd_succeeds (reactor.setJob id { job with added := true }) job.fd id hstatus hopen
    (h.unregistered hregistering hjob)]
  have hterminated : job.disconnected=true → job.terminate=true := h.watched.terminated hjob
  have hnumber : ∀ {other fd}, other≠id → reactor.descriptors fd=some other → fd≠job.fd := by
    rintro other fd hne hfd rfl
    exact hne (Option.some.inj (hfd.symm.trans hopen))
  refine ⟨⟨h.watched.added,?_,?_⟩,h.owned.setJob hjob rfl rfl,?_,?_,?_⟩
  · intro other j hj hadded hcloses
    rcases getElem?_setJob hj with ⟨rfl,rfl⟩ | ⟨hne,hold⟩
    · refine ⟨hopen,update_self ..,?_⟩
      dsimp only
      rw [update_self]
    · have hat := h.watched.watched hold hadded hcloses
      have hfd := hnumber hne hat.descriptor
      refine ⟨hat.descriptor,?_,?_⟩
      · dsimp only
        rw [update_of_ne hfd]
        exact hat.registered
      · dsimp only
        rw [update_of_ne hfd,update_of_ne hfd]
        exact hat.data
  · intro other j hj
    rcases getElem?_setJob hj with ⟨rfl,rfl⟩ | ⟨-,hold⟩
    · exact hterminated
    · exact h.watched.terminated hold
  · intro fd hfd
    dsimp only at hfd
    by_cases heq : fd=job.fd
    · subst heq
      exact ⟨id,_,hopen,setJob_self hjob,rfl⟩
    · rw [update_of_ne heq] at hfd
      obtain ⟨other,j,hother,hj,hadded⟩ := h.registered hfd
      by_cases hid : other=id
      · subst hid
        exact ⟨other,_,hother,setJob_self hjob,rfl⟩
      · exact ⟨other,j,hother,(setJob_ne hid _).trans hj,hadded⟩
  · intro other hother
    cases hother
  · intro other j hj hcloses
    rcases getElem?_setJob hj with ⟨rfl,rfl⟩ | ⟨hne,hold⟩
    · exact .inl rfl
    · refine .inl ((h.rest hold hcloses).resolve_right fun hother => hne ?_)
      exact Option.some.inj (hother.symm.trans hregistering)

/-- The client of a watched connection has closed it. -/
theorem Registers.clientClosed (h : Registers reactor) (hidle : reactor.registering=none)
    {fd : ℕ} (hstep : reactor.clientClosed fd=some reactor') : Registers reactor' := by
  unfold Reactor.clientClosed at hstep
  obtain ⟨connection,hconnection,hstep⟩ := Option.bind_eq_some_iff.mp hstep
  obtain ⟨id,hdata,hstep⟩ := Option.bind_eq_some_iff.mp hstep
  obtain ⟨job,hjob,hstep⟩ := Option.bind_eq_some_iff.mp hstep
  obtain ⟨client,hclient,hstep⟩ := Option.bind_eq_some_iff.mp hstep
  obtain ⟨owner,howner,rfl,hnone⟩ := h.owned fd connection hconnection
  have hadded : owner.added=true := (h.rest howner hnone).resolve_right fun hregistering =>
    Option.some_ne_none _ (hregistering.symm.trans hidle)
  cases hdata.symm.trans (h.watched.watched howner hadded hnone).data
  cases hjob.symm.trans howner
  have hterminated : Registers (reactor.setJob connection { job with terminate := true }) :=
    h.setJob hjob ⟨rfl,rfl,rfl,fun _ => rfl⟩
  have haccessed := hterminated.access job
  cases (setJob_self hjob).symm.trans hclient
  cases hstep
  refine haccessed.closed hclient (closed_del _ _) (Nat.succ_ne_zero _) rfl rfl (fun _ => rfl) ?_
  intro other _ hother _ _
  exact Option.some.inj (hother.symm.trans hconnection)

/-- A worker destroys its job. -/
theorem Registers.jobDestroy (h : Registers reactor) {job : Job}
    (hjob : reactor.jobs[id]? = some job)
    (hother : ∀ other client, reactor.descriptors job.fd=some other →
      reactor.jobs[other]? = some client → client.added=true → other=id) :
    Registers (reactor.jobDestroy id job) := by
  have hterminated : job.disconnected=true → job.terminate=true := h.watched.terminated hjob
  exact h.closed hjob (closed_jobDestroy id job reactor) (Nat.succ_ne_zero _) rfl rfl hterminated
    hother

/-- The jobs after a connection has been accepted. -/
theorem getElem?_concat {jobs : List Job} {new job : Job} (h : (jobs++[new])[id]? = some job) :
    jobs[id]? = some job ∨ id=jobs.length ∧ job=new := by
  rw [List.getElem?_append] at h
  split_ifs at h with hlt
  · exact .inl h
  · obtain ⟨hindex,heq⟩ := List.getElem?_eq_some_iff.mp h
    rw [List.length_singleton] at hindex
    refine .inr ⟨by omega,?_⟩
    rw [←heq,List.getElem_singleton]

/-- A connection is accepted and its worker started. -/
theorem Registers.accept (h : Registers reactor) {fd : ℕ} (hidle : reactor.registering=none)
    (hunused : reactor.descriptors fd=none) : Registers (reactor.connectionHandle fd true) := by
  have hnumber : ∀ {other fd'}, reactor.descriptors fd' = some other → fd' ≠ fd := by
    rintro other fd' hopen rfl
    exact Option.some_ne_none _ (hopen.symm.trans hunused)
  have howned := h.owned.accept (show (⟨fd,.handler,false,0,false,false⟩ : Job).closes=0 from rfl)
  refine ⟨⟨h.watched.added,?_,?_⟩,howned,?_,?_,?_⟩
  · intro other j hj hadded hcloses
    rcases getElem?_concat hj with hold | ⟨-,rfl⟩
    · have hat := h.watched.watched hold hadded hcloses
      refine ⟨?_,hat.registered,hat.data⟩
      exact (update_of_ne (hnumber hat.descriptor) ..).trans hat.descriptor
    · cases hadded
  · intro other j hj hdisconnected
    rcases getElem?_concat hj with hold | ⟨-,rfl⟩
    · exact h.watched.terminated hold hdisconnected
    · cases hdisconnected
  · intro fd' hregistered
    obtain ⟨other,j,hopen,hj,hadded⟩ := h.registered hregistered
    refine ⟨other,j,?_,?_,hadded⟩
    · exact (update_of_ne (hnumber hopen) ..).trans hopen
    · exact (List.getElem?_append_left (List.getElem?_eq_some_iff.mp hj).1).trans hj
  · intro other hother
    cases hother
    refine ⟨_,List.getElem?_concat_length ..,rfl,fun x hx => ?_⟩
    exact Option.some.inj (hx.symm.trans (update_self ..))
  · intro other j hj hcloses
    rcases getElem?_concat hj with hold | ⟨rfl,-⟩
    · refine .inl ((h.rest hold hcloses).resolve_right fun hother => ?_)
      exact Option.some_ne_none _ (hother.symm.trans hidle)
    · exact .inr rfl

/-- The connection that was to be registered has been closed. -/
theorem Registers.forget (h : Registers reactor) {job : Job}
    (hregistering : reactor.registering=some id) (hjob : reactor.jobs[id]? = some job)
    (hcloses : job.closes≠0) : Registers { reactor with registering := none } := by
  refine ⟨⟨h.watched.added,?_,h.watched.terminated⟩,h.owned,h.registered,?_,?_⟩
  · intro other j hj hadded hnone
    have hat := h.watched.watched hj hadded hnone
    exact ⟨hat.descriptor,hat.registered,hat.data⟩
  · intro other hother
    cases hother
  · intro other j hj hnone
    refine .inl ((h.rest hj hnone).resolve_right fun hother => ?_)
    cases hregistering.symm.trans hother
    cases hjob.symm.trans hj
    exact hcloses hnone

/-- A connection is accepted whose worker cannot be started. -/
theorem Registers.refuse (h : Registers reactor) {fd : ℕ} (hidle : reactor.registering=none)
    (hunused : reactor.descriptors fd=none) : Registers (reactor.connectionHandle fd false) := by
  have haccepted := h.accept hidle hunused
  generalize hstarted : reactor.connectionHandle fd true=accepted at haccepted
  have hjob : accepted.jobs[reactor.jobs.length]?=some ⟨fd,.handler,false,0,false,false⟩ := by
    rw [←hstarted]
    exact List.getElem?_concat_length ..
  have hdestroyed := haccepted.jobDestroy hjob (fun other _ hopen _ _ => ?_)
  · have hregistering : accepted.registering=some reactor.jobs.length := by
      rw [←hstarted]
      rfl
    have hforgotten := hdestroyed.forget
      ((closed_jobDestroy _ _ accepted).registering.trans hregistering)
      (by rw [(closed_jobDestroy _ _ accepted).jobs]; exact setJob_self hjob) (Nat.succ_ne_zero _)
    refine hforgotten.congr ?_ ?_ ?_ ?_ hidle ?_
    all_goals
      rw [←hstarted]
      rfl
  · rw [←hstarted] at hopen
    exact Option.some.inj (hopen.symm.trans (update_self ..))

/-- A step of the kind keeps the connections that were added watched. -/
theorem Registers.next (h : Registers reactor) {event : Event} (hkeeps : Keeps event reactor)
    (hstep : reactor.next event=some reactor') : Registers reactor' := by
  unfold Reactor.next at hstep
  cases event with
  | accept fd started =>
    dsimp only at hstep
    split_ifs at hstep with hidle
    cases hstep
    cases started with
    | true => exact h.accept hidle.1 hidle.2
    | false => exact h.refuse hidle.1 hidle.2
  | register =>
    obtain ⟨id,hregistering,hstep⟩ := Option.bind_eq_some_iff.mp hstep
    obtain ⟨job,hjob,hstep⟩ := Option.bind_eq_some_iff.mp hstep
    cases hstep
    obtain ⟨hstatus,hopen⟩ := hkeeps id job hregistering hjob
    exact h.register hregistering hjob hstatus hopen
  | wait fds =>
    dsimp only at hstep
    split_ifs at hstep
    cases hstep
    exact h.congr rfl rfl rfl rfl rfl rfl
  | callback read =>
    dsimp only at hstep
    split at hstep
    · rename_i hidle _
      have hpending : ∀ pending, Registers { reactor with pending := pending } :=
        fun _ => h.congr rfl rfl rfl rfl rfl rfl
      unfold Reactor.jobClientCallback at hstep
      split at hstep
      · cases hstep
        exact hpending _
      · cases hstep
        exact hpending _
      · refine (hpending _).clientClosed ?_ hstep
        exact hidle
    · cases hstep
  | worker id =>
    obtain ⟨job,hjob,hstep⟩ := Option.bind_eq_some_iff.mp hstep
    have hterminated : job.disconnected=true → job.terminate=true := h.watched.terminated hjob
    unfold Reactor.jobWorkerThread at hstep
    split at hstep
    · cases hstep
      exact (h.access job).setJob hjob ⟨rfl,rfl,rfl,hterminated⟩
    · cases hstep
      exact (h.access job).setJob hjob ⟨rfl,rfl,rfl,hterminated⟩
    · rename_i hstage
      cases hstep
      exact h.jobDestroy hjob (hkeeps job hjob hstage)
    · cases hstep

theorem Registers.step {event : Event} (h : Registers reactor) (hkeeps : Keeps event reactor)
    (hstep : stepReactor event reactor=some reactor') : Registers reactor' := by
  obtain rfl | hnext := stepReactor_cases hstep
  · exact h
  · exact h.next hkeeps hnext

/-- rwEvent_add fails for a number that is not registered although its status says so,
and for one that has been closed. -/
theorem rwEventAdd_fails {fd : ℕ} (hregistered : reactor.registered fd=false)
    (hfails : (reactor.events fd).status=1 ∨ reactor.descriptors fd=none) :
    (reactor.rwEventAdd fd).addFailed=true := by
  unfold Reactor.rwEventAdd
  split_ifs with hstatus
  · rw [hregistered]
    exact Bool.or_true _
  · rw [hfails.resolve_left hstatus]
    exact Bool.or_true _

/-- After any other step some rwEvent_add has failed, or some connection is no longer
watched. -/
theorem Registers.keeps {event : Event} (h : Registers reactor)
    (hstep : stepReactor event reactor=some reactor') (hwatched : Watched reactor') :
    Keeps event reactor := by
  cases event with
  | register =>
    intro id job hregistering hjob
    have hnext : reactor.next .register=some (reactor.register id job) := by
      change reactor.registering.bind _ = _
      rw [hregistering,Option.bind_some]
      change (reactor.jobs[id]?).bind _ = _
      rw [hjob,Option.bind_some]
    obtain rfl := stepReactor_next hnext hstep
    by_contra hfails
    have hadd : (reactor.register id job).addFailed=true := by
      refine rwEventAdd_fails (h.unregistered hregistering hjob) ?_
      by_contra hnone
      obtain ⟨hstatus,hopen⟩ := not_or.mp hnone
      obtain ⟨other,hother⟩ := Option.ne_none_iff_exists'.mp hopen
      obtain ⟨new,hnew,-,hnumber⟩ := h.registering hregistering
      cases hjob.symm.trans hnew
      cases hnumber other hother
      exact hfails ⟨hstatus,hother⟩
    exact Bool.noConfusion (hadd.symm.trans hwatched.added)
  | worker id =>
    intro job hjob hstage other client hopen hclient hadded
    obtain rfl := stepReactor_next (next_destroy hjob hstage) hstep
    by_contra hne
    obtain ⟨hjobs,hdescriptors,-,-,-,-⟩ := closed_jobDestroy id job reactor
    obtain ⟨owner,howner,hfd,hcloses⟩ := h.owned job.fd other hopen
    cases hclient.symm.trans howner
    have hstill : (reactor.jobDestroy id job).jobs[other]? = some client := by
      rw [hjobs,setJob_ne hne]
      exact hclient
    have hat := hwatched.watched hstill hadded hcloses
    have hclosed := hdescriptors client.fd
    rw [if_pos hfd] at hclosed
    exact Option.some_ne_none _ (hat.descriptor.symm.trans hclosed)
  | _ => trivial

theorem registers_init (uninitialised : ℕ→ℤ) : Registers (epollReactorInit uninitialised) :=
  ⟨⟨rfl,fun h => absurd h (Option.some_ne_none _).symm,
    fun h => absurd h (Option.some_ne_none _).symm⟩,(jobsAlive_init uninitialised).owned,
    fun h => Bool.noConfusion h,fun h => absurd h (Option.some_ne_none _).symm,
    fun h => absurd h (Option.some_ne_none _).symm⟩

end GuacServer.EncoderReactor
