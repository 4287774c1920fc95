import Mathlib.Data.Int.Notation
import GuacServer.StateRuns

/-!
# The reactor of the encoder service

One thread accepts connections, starts a worker for each and is told by epoll of what
clients send. Workers end on their own. Both close the descriptor of a job, whose
number the kernel then gives to another connection, and the flag that says whether a
descriptor is registered is kept beside the kernel's own registration. The events
array is allocated without being initialised, and indexed with descriptors.
-/

namespace GuacServer.EncoderReactor

open StateRuns Function

/-- MAX_EVENTS, the number of elements of the events array. -/
def maxEvents : ℕ := 1024

/-- What a worker does next. -/
inductive Stage
  | handler
  | ffmpeg
  | destroy
  /-- job_destroy has freed the job. -/
  | ended
  deriving DecidableEq

/-- struct Job and its connection: how often its descriptor was closed, whether
rwEvent_add was called for it, and whether the reactor has seen the client close it. -/
structure Job where
  fd : ℕ
  stage : Stage
  terminate : Bool
  closes : ℕ
  added : Bool
  disconnected : Bool

/-- struct rwEvent, with the index of the job that its data points to. -/
structure RwEvent where
  status : ℤ
  data : Option ℕ

/-- The service: all jobs so far, the connections that descriptor numbers stand for,
the registrations at epoll, the elements of the events array, of which only the first
MAX_EVENTS exist, and what the reactor thread is doing. The last two fields
say whether a field of a freed job was accessed, and whether epoll_ctl has failed in
rwEvent_add. -/
structure Reactor where
  jobs : List Job
  descriptors : ℕ→Option ℕ
  registered : ℕ→Bool
  events : ℕ→RwEvent
  registering : Option ℕ
  pending : List ℕ
  freedAccess : Bool
  addFailed : Bool

/-- epoll_reactor_init, with what malloc returns for the status of each event. -/
def epollReactorInit (uninitialised : ℕ→ℤ) : Reactor where
  jobs := []
  descriptors _ := none
  registered _ := false
  events fd := ⟨uninitialised fd,none⟩
  registering := none
  pending := []
  freedAccess := false
  addFailed := false

/-- The state of a job changes. -/
def Reactor.setJob (id : ℕ) (job : Job) (reactor : Reactor) : Reactor :=
  { reactor with jobs := reactor.jobs.set id job }

/-- A field of a job is accessed. -/
def Reactor.access (job : Job) (reactor : Reactor) : Reactor :=
  { reactor with freedAccess := reactor.freedAccess || decide (job.stage=.ended) }

/-- close() of a descriptor, which removes its registration. -/
def Reactor.close (fd : ℕ) (reactor : Reactor) : Reactor :=
  { reactor with
    descriptors := update reactor.descriptors fd none
    registered := update reactor.registered fd false }

/-- job_destroy, which reads the job after it has freed it. -/
def Reactor.jobDestroy (id : ℕ) (job : Job) (reactor : Reactor) : Reactor :=
  let reactor := (reactor.access job).close job.fd
  let job := { job with stage := .ended, closes := job.closes+1 }
  (reactor.setJob id job).access job

/-- rwEvent_add of the descriptor of a job. -/
def Reactor.rwEventAdd (fd : ℕ) (reactor : Reactor) : Reactor :=
  if (reactor.events fd).status=1 then
    -- EPOLL_CTL_MOD
    { reactor with addFailed := reactor.addFailed || !reactor.registered fd }
  else
    -- EPOLL_CTL_ADD
    let fails := (reactor.descriptors fd).isNone || reactor.registered fd
    { reactor with
      events := update reactor.events fd { reactor.events fd with status := 1 }
      registered := update reactor.registered fd (reactor.registered fd || !fails)
      addFailed := reactor.addFailed || fails }

/-- rwEvent_del. -/
def Reactor.rwEventDel (fd : ℕ) (reactor : Reactor) : Reactor :=
  if (reactor.events fd).status≠1 then reactor
  else
    { reactor with
      events := update reactor.events fd { reactor.events fd with status := 0 }
      registered := update reactor.registered fd false }

/-- What read() returns in job_client_callback. -/
inductive ClientRead
  | data
  | endOfFile
  | failed

/-- A connection whose client has closed it is closed as well, and its job told to
terminate: the job is the one that the events array has for the descriptor. NULL there
would end the service. -/
def Reactor.clientClosed (fd : ℕ) (reactor : Reactor) : Option Reactor := do
  let connection ← reactor.descriptors fd
  let id ← (reactor.events fd).data
  let job ← reactor.jobs[id]?
  let reactor := (reactor.setJob id { job with terminate := true }).access job
  let client ← reactor.jobs[connection]?
  let reactor := reactor.setJob connection
    { client with disconnected := true, closes := client.closes+1 }
  some ((reactor.rwEventDel fd).close fd)

/-- job_client_callback. A number that stands for nothing cannot be read. -/
def Reactor.jobClientCallback (fd : ℕ) (read : ClientRead) (reactor : Reactor) : Option Reactor :=
  match read with
  | .data | .failed => some reactor
  | .endOfFile => reactor.clientClosed fd

/-- The steps of the reactor thread and of the workers. -/
inductive Event
  /-- A connection is accepted under an unused number, and its configuration received.
  Its worker is started, or cannot be. -/
  | accept (fd : ℕ) (started : Bool)
  /-- The descriptor of the new job is registered. -/
  | register
  /-- epoll_wait returns. -/
  | wait (fds : List ℕ)
  /-- job_client_callback is called for a descriptor that epoll_wait returned. -/
  | callback (read : ClientRead)
  /-- A worker calls its handler, ffmpeg, or job_destroy. -/
  | worker (id : ℕ)

/-- job_connection_handle, up to the start of the worker. -/
def Reactor.connectionHandle (fd : ℕ) (started : Bool) (reactor : Reactor) : Reactor :=
  let id := reactor.jobs.length
  let job : Job := ⟨fd,.handler,false,0,false,false⟩
  let reactor := { reactor with
    jobs := reactor.jobs++[job]
    descriptors := update reactor.descriptors fd (some id) }
  if started then { reactor with registering := some id } else reactor.jobDestroy id job

/-- The rest of job_connection_handle. -/
def Reactor.register (id : ℕ) (job : Job) (reactor : Reactor) : Reactor :=
  let reactor := (reactor.setJob id { job with added := true }).rwEventAdd job.fd
  { reactor with
    events := update reactor.events job.fd { reactor.events job.fd with data := some id }
    registering := none }

/-- A worker goes on with its job. -/
def Reactor.jobWorkerThread (id : ℕ) (job : Job) (reactor : Reactor) : Option Reactor :=
  match job.stage with
  | .handler => some ((reactor.access job).setJob id { job with stage := .ffmpeg })
  | .ffmpeg => some ((reactor.access job).setJob id { job with stage := .destroy })
  | .destroy => some (reactor.jobDestroy id job)
  | .ended => none

/-- A step, if the thread that takes it is where it can be taken. -/
def Reactor.next (event : Event) (reactor : Reactor) : Option Reactor :=
  match event with
  | .accept fd started =>
    if reactor.registering=none ∧ reactor.descriptors fd=none then
      some (reactor.connectionHandle fd started)
    else none
  | .register => do
    let id ← reactor.registering
    let job ← reactor.jobs[id]?
    some (reactor.register id job)
  | .wait fds =>
    if reactor.registering=none ∧ reactor.pending=[] ∧ ∀ fd∈fds, reactor.registered fd then
      some { reactor with pending := fds }
    else none
  | .callback read =>
    match reactor.registering, reactor.pending with
    | none, fd::pending => { reactor with pending := pending }.jobClientCallback fd read
    | _, _ => none
  | .worker id => do
    let job ← reactor.jobs[id]?
    reactor.jobWorkerThread id job

/-- A descriptor that is accepted has an element in the events array. -/
def Event.inArray : Event→Bool
  | .accept fd _ => decide (fd < maxEvents)
  | _ => true

/-- A step of the service. A step that cannot be taken changes nothing. There is no
result where a descriptor is an index behind the events array. -/
def stepReactor (event : Event) (reactor : Reactor) : Option Reactor :=
  match reactor.next event with
  | none => some reactor
  | some next => if event.inArray then some next else none

/-- A connection that is accepted has a descriptor below MAX_EVENTS. -/
def Fits (event : Event) (reactor : Reactor) : Prop :=
  (reactor.next event).isSome → event.inArray=true

variable {event : Event} {reactor reactor' : Reactor}

/-- A step of the service changes nothing, or is a step that can be taken. -/
theorem stepReactor_cases (h : stepReactor event reactor=some reactor') :
    reactor' = reactor ∨ reactor.next event=some reactor' := by
  unfold stepReactor at h
  split at h
  · exact Or.inl (Option.some.inj h).symm
  · next hnext =>
    rw [hnext]
    exact Or.inr (Option.ite_none_right_eq_some.mp h).2

/-- There is a result as long as accepted descriptors have elements. -/
theorem isSome_stepReactor_iff : (stepReactor event reactor).isSome ↔ Fits event reactor := by
  unfold stepReactor Fits
  cases reactor.next event with
  | none => exact iff_of_true rfl fun h => Bool.noConfusion h
  | some next => cases event.inArray <;> simp

/-- A result is that of the step if it can be taken. -/
theorem stepReactor_next {next : Reactor} (hnext : reactor.next event=some next)
    (h : stepReactor event reactor=some reactor') : reactor' = next := by
  rw [stepReactor,hnext] at h
  exact (Option.some.inj (Option.ite_none_right_eq_some.mp h).2).symm

/-- What every step of a kind keeps holds throughout a run that goes on to its end, exactly
if its steps are all of that kind and accept descriptors below MAX_EVENTS. -/
theorem reactor_run_iff {G I : Reactor→Prop} {P : Event→Reactor→Prop} (hgood : ∀ {s}, G s→I s)
    (hstep : ∀ {a s s'}, G s→P a s → stepReactor a s=some s'→G s')
    (honly : ∀ {a s s'}, G s → stepReactor a s=some s'→I s'→P a s) (events : List Event)
    {start : Reactor} (hs : G start) :
    (∀ made, made <+: events→∃ reactor, run stepReactor made start=some reactor ∧ I reactor) ↔
      Along stepReactor (fun event reactor => P event reactor ∧ Fits event reactor) events
        start := by
  refine run_iff_along hgood (fun h hcondition => ?_) (fun h hnext hI => ?_) events hs
  · obtain ⟨next,hnext⟩ := Option.isSome_iff_exists.mp (isSome_stepReactor_iff.mpr hcondition.2)
    exact ⟨next,hnext,hstep h hcondition.1 hnext⟩
  · exact ⟨honly h hnext hI,isSome_stepReactor_iff.mp (Option.isSome_iff_exists.mpr ⟨_,hnext⟩)⟩

end GuacServer.EncoderReactor
