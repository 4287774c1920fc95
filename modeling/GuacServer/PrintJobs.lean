import GuacServer.DecimalNumerals
import GuacServer.StateRuns

/-!
# Print jobs

The RDP thread writes a document to a filter process, an output thread sends what the
filter makes of it to the owner as the owner's acks come in, and the owner may abort the
job or leave. The descriptors of the filter are closed when the printer is closed, when
the output thread ends and when the job is killed. So only the first of these may happen.
-/

namespace GuacServer.PrintJobs

open DecimalNumerals StateRuns

/-- guac_rdp_print_job_state. -/
inductive JobState
  /-- GUAC_RDP_PRINT_JOB_WAITING_FOR_ACK. -/
  | waitingForAck
  /-- GUAC_RDP_PRINT_JOB_ACK_RECEIVED. -/
  | ackReceived
  /-- GUAC_RDP_PRINT_JOB_CLOSED. -/
  | closed
  deriving DecidableEq

/-- What the output thread does next. -/
inductive OutputStage
  | reading
  /-- Data was read, and guac_rdp_print_job_wait_for_ack is called. -/
  | waiting
  | sending
  | ending
  | closing
  | done
  deriving DecidableEq

/-- What the printer does. -/
inductive PrinterStage
  | active
  /-- guac_rdp_print_job_free waits for the output thread. -/
  | joining
  /-- The job is freed. -/
  | freed
  deriving DecidableEq

/-- What is sent to the owner; for a blob, whether the state had become CLOSED before. -/
inductive PrintInstruction
  | file
  | blob (afterClosed : Bool)
  | ended
  deriving DecidableEq

/-- guac_rdp_print_job and its threads. The last fields say how often the descriptors were
closed and the stream was freed, whether the state has been CLOSED, and whether it was
replaced then. -/
structure PrintJob where
  state : JobState
  /-- The bytes received from the printer. -/
  bytesReceived : ℤ
  /-- The output thread. -/
  output : OutputStage
  printer : PrinterStage
  /-- The owner is among the users of the client. -/
  present : Bool
  /-- What was sent. -/
  sent : List PrintInstruction
  inputCloses : ℕ
  outputCloses : ℕ
  streamFrees : ℕ
  wasClosed : Bool
  replaced : Bool
  deriving DecidableEq

/-- guac_rdp_print_job_alloc, for an owner and when nothing fails. -/
def guacRdpPrintJobAlloc : PrintJob := ⟨.waitingForAck,0,.reading,.active,true,[],0,0,0,false,false⟩

/-- guac_rdp_print_job_set_state. -/
def guacRdpPrintJobSetState (state : JobState) (job : PrintJob) : PrintJob :=
  { job with
    state := state
    wasClosed := job.wasClosed || decide (state=.closed)
    replaced := job.replaced || (decide (job.state=.closed) && decide (state≠.closed)) }

/-- guac_rdp_print_job_kill. -/
def guacRdpPrintJobKill (job : PrintJob) : PrintJob :=
  guacRdpPrintJobSetState .closed
    { job with inputCloses := job.inputCloses+1, outputCloses := job.outputCloses+1 }

/-- Something is sent to the owner, or the job is killed if there is none anymore. -/
def sendOwner (instruction : PrintInstruction) (job : PrintJob) : PrintJob :=
  if job.present then { job with sent := job.sent++[instruction] } else guacRdpPrintJobKill job

/-- guac_rdp_print_job_begin_stream. -/
def guacRdpPrintJobBeginStream (job : PrintJob) : PrintJob := sendOwner .file job

/-- guac_rdp_print_job_send_blob. -/
def guacRdpPrintJobSendBlob (job : PrintJob) : PrintJob := sendOwner (.blob job.wasClosed) job

/-- guac_rdp_print_job_end_stream. -/
def guacRdpPrintJobEndStream (job : PrintJob) : PrintJob :=
  let ended := sendOwner .ended job
  if job.present then { ended with streamFrees := job.streamFrees+1 } else ended

/-- guac_rdp_print_filter_ack_handler. -/
def guacRdpPrintFilterAckHandler (success : Bool) (job : PrintJob) : PrintJob :=
  if success then guacRdpPrintJobSetState .ackReceived job else guacRdpPrintJobKill job

/-- The end of guac_rdp_print_job_wait_for_ack: the ack is taken, or else the loop of the
output thread ends. -/
def guacRdpPrintJobWaitForAck (job : PrintJob) : PrintJob :=
  if job.state=.ackReceived then
    { guacRdpPrintJobSetState .waitingForAck job with output := .sending }
  else { job with output := .ending }

/-- guac_rdp_print_job_write. -/
def guacRdpPrintJobWrite (length : ℤ) (job : PrintJob) : PrintJob :=
  let begun := if job.bytesReceived=0 then guacRdpPrintJobBeginStream job else job
  { begun with bytesReceived := wrap32 (job.bytesReceived+length) }

/-- The steps of the threads and the owner. -/
inductive PrintEvent
  /-- The owner acknowledges the file or a blob. -/
  | ack (success : Bool)
  /-- The output thread reads data, or finds none or an error. -/
  | read (data : Bool)
  /-- The wait for an ack ends, which it may do without a reason. -/
  | waitForAck
  | sendBlob
  | endStream
  | closeDescriptors
  /-- The printer receives data. -/
  | write (length : ℤ)
  /-- guac_rdp_print_job_free is called. -/
  | close
  /-- The output thread is joined, and the job freed. -/
  | join
  /-- The owner leaves. -/
  | leave

/-- The job after a step, if it is possible. Acks are passed on for open streams only. -/
def PrintJob.next (event : PrintEvent) (job : PrintJob) : Option PrintJob :=
  match event with
  | .ack success =>
    if job.present ∧ job.streamFrees=0 then some (guacRdpPrintFilterAckHandler success job)
    else none
  | .read data =>
    if job.output=.reading then
      some { job with output := if data then .waiting else .ending }
    else none
  | .waitForAck => if job.output=.waiting then some (guacRdpPrintJobWaitForAck job) else none
  | .sendBlob =>
    if job.output=.sending then some { guacRdpPrintJobSendBlob job with output := .reading }
    else none
  | .endStream =>
    if job.output=.ending then some { guacRdpPrintJobEndStream job with output := .closing }
    else none
  | .closeDescriptors =>
    if job.output=.closing then
      some { job with
        inputCloses := job.inputCloses+1
        outputCloses := job.outputCloses+1
        output := .done }
    else none
  | .write length =>
    if job.printer=.active then some (guacRdpPrintJobWrite length job) else none
  | .close =>
    if job.printer=.active then
      some { job with inputCloses := job.inputCloses+1, printer := .joining }
    else none
  | .join =>
    if job.printer=.joining ∧ job.output=.done then some { job with printer := .freed }
    else none
  | .leave => some { job with present := false }

/-- A step that is not possible changes nothing. -/
def stepJob (event : PrintEvent) (job : PrintJob) : Option PrintJob :=
  some ((job.next event).getD job)

/-! ## What is to hold -/

/-- The descriptors are closed once and the stream is freed once, at the latest when the job
is freed; no blob was sent after the state became CLOSED, which was not replaced. -/
structure JobKept (job : PrintJob) : Prop where
  input : job.inputCloses≤1 ∧ (job.printer=.freed → job.inputCloses=1)
  output : job.outputCloses≤1 ∧ (job.printer=.freed → job.outputCloses=1)
  stream : job.streamFrees≤1 ∧ (job.printer=.freed → job.streamFrees=1)
  blobs : .blob true ∉ job.sent
  closed : job.replaced=false

/-- No descriptor was closed so far. -/
def Untouched (job : PrintJob) : Prop := job.inputCloses=0 ∧ job.outputCloses=0

instance (job : PrintJob) : Decidable (Untouched job) := inferInstanceAs (Decidable (_ ∧ _))

/-- A step that closes descriptors is the first to do so, whether it kills the job, closes
the printer or is the last of the output thread; and once the state is CLOSED, no blob is
sent and no ack is successful. -/
def Harmless (event : PrintEvent) (job : PrintJob) : Prop :=
  match event with
  | .ack success => job.present=true ∧ job.streamFrees=0 →
    if success then job.state≠.closed else Untouched job
  | .sendBlob => job.output=.sending → if job.present then job.state≠.closed else Untouched job
  | .endStream => job.output=.ending → job.present=true ∨ Untouched job
  | .closeDescriptors => job.output=.closing→Untouched job
  | .write _ => job.printer=.active → job.bytesReceived≠0 ∨ job.present=true ∨ Untouched job
  | .close => job.printer=.active→Untouched job
  | .read _ | .waitForAck | .join | .leave => True

instance (event : PrintEvent) (job : PrintJob) : Decidable (Harmless event job) := by
  cases event <;> unfold Harmless <;> infer_instance

/-! ## Harmless steps -/

/-- Descriptors were closed in one step at most, the output thread and the printer having
closed them if they are done, and the state is CLOSED if it has ever been. -/
structure Good (job : PrintJob) : Prop where
  input : job.inputCloses≤1
  output : job.outputCloses≤job.inputCloses
  stream : job.streamFrees≤1 ∧ (job.output≠.closing → job.output≠.done → job.streamFrees=0)
  done : job.output=.done → job.outputCloses=1
  joining : job.printer≠.active → job.inputCloses=1 ∧ job.outputCloses=0
  freed : job.printer≠.freed
  blobs : .blob true ∉ job.sent
  closed : job.replaced=false
  wasClosed : job.wasClosed=decide (job.state=.closed)

variable {job : PrintJob}

theorem good_alloc : Good guacRdpPrintJobAlloc := by
  constructor <;> simp [guacRdpPrintJobAlloc]

theorem Good.kept (h : Good job) : JobKept job where
  input := ⟨h.input,fun hfreed => absurd hfreed h.freed⟩
  output := ⟨h.output.trans h.input,fun hfreed => absurd hfreed h.freed⟩
  stream := ⟨h.stream.1,fun hfreed => absurd hfreed h.freed⟩
  blobs := h.blobs
  closed := h.closed

theorem Good.untouched (h : Good job) (hfirst : job.inputCloses+1≤1) : Untouched job := by
  have houtput := h.output
  constructor <;> omega

/-- A state that is CLOSED is set to CLOSED only. -/
theorem Good.setState (h : Good job) {state : JobState}
    (hclosed : job.state=.closed → state=.closed) :
    Good (guacRdpPrintJobSetState state job) where
  input := h.input
  output := h.output
  stream := h.stream
  done := h.done
  joining := h.joining
  freed := h.freed
  blobs := h.blobs
  closed := by
    by_cases hstate : job.state=.closed
    · simp [guacRdpPrintJobSetState,h.closed,hclosed hstate]
    · simp [guacRdpPrintJobSetState,h.closed,hstate]
  wasClosed := by
    by_cases hstate : job.state=.closed
    · simp [guacRdpPrintJobSetState,hclosed hstate]
    · simp [guacRdpPrintJobSetState,h.wasClosed,hstate]

/-- Both descriptors are closed for the first time. -/
theorem Good.closeBoth (h : Good job) (huntouched : Untouched job) {next : OutputStage}
    (hstream : next≠.closing → next≠.done → job.streamFrees=0) :
    Good { job with
      inputCloses := job.inputCloses+1
      outputCloses := job.outputCloses+1
      output := next } where
  input := by simp [huntouched.1]
  output := Nat.add_le_add_right h.output 1
  stream := ⟨h.stream.1,hstream⟩
  done := fun _ => by simp [huntouched.2]
  joining := fun hprinter =>
    absurd ((h.joining hprinter).1.symm.trans huntouched.1) Nat.one_ne_zero
  freed := h.freed
  blobs := h.blobs
  closed := h.closed
  wasClosed := h.wasClosed

theorem Good.kill (h : Good job) (huntouched : Untouched job) : Good (guacRdpPrintJobKill job) :=
  (h.closeBoth huntouched h.stream.2).setState fun _ => rfl

/-- Something is sent to an owner who is there, or else the job is killed. -/
theorem Good.sendOwner (h : Good job) {instruction : PrintInstruction}
    (huntouched : job.present=false→Untouched job)
    (hblob : job.present=true → instruction≠.blob true) : Good (sendOwner instruction job) := by
  unfold PrintJobs.sendOwner
  cases hpresent : job.present with
  | false => exact h.kill (huntouched hpresent)
  | true =>
    have hblobs : PrintInstruction.blob true ∉ job.sent++[instruction] := by
      simp [h.blobs,(hblob hpresent).symm]
    exact ⟨h.input,h.output,h.stream,h.done,h.joining,h.freed,hblobs,h.closed,h.wasClosed⟩

/-- The output thread goes on before its end. -/
theorem Good.goOn (h : Good job) {next : OutputStage} (hclosing : job.output≠.closing)
    (hdone : job.output≠.done) (hnext : next≠.done) : Good { job with output := next } :=
  ⟨h.input,h.output,⟨h.stream.1,fun _ _ => h.stream.2 hclosing hdone⟩,
    fun hsame => absurd hsame hnext,h.joining,h.freed,h.blobs,h.closed,h.wasClosed⟩

/-- A message to the owner leaves printer and output alone. -/
theorem sendOwner_rest (instruction : PrintInstruction) (job : PrintJob) :
    (PrintJobs.sendOwner instruction job).printer=job.printer ∧
      (PrintJobs.sendOwner instruction job).output=job.output ∧
      job.inputCloses≤(PrintJobs.sendOwner instruction job).inputCloses := by
  unfold PrintJobs.sendOwner
  split_ifs
  · exact ⟨rfl,rfl,Nat.le_refl _⟩
  · exact ⟨rfl,rfl,Nat.le_succ _⟩

theorem Good.sendBlob (h : Good job) (hsending : job.output=.sending)
    (hharmless : Harmless .sendBlob job) :
    Good { guacRdpPrintJobSendBlob job with output := .reading } := by
  have hstate := hharmless hsending
  have hsent : Good (guacRdpPrintJobSendBlob job) := by
    refine h.sendOwner (fun hpresent => ?_) fun hpresent => ?_
    · simpa [hpresent] using hstate
    · have hnot : job.state≠.closed := by simpa [hpresent] using hstate
      simp [h.wasClosed,hnot]
  have houtput : (guacRdpPrintJobSendBlob job).output=.sending :=
    (sendOwner_rest _ job).2.1.trans hsending
  exact hsent.goOn (by simp [houtput]) (by simp [houtput]) nofun

theorem Good.endStream (h : Good job) (hending : job.output=.ending)
    (hharmless : Harmless .endStream job) :
    Good { guacRdpPrintJobEndStream job with output := .closing } := by
  have hsent : Good (PrintJobs.sendOwner .ended job) := by
    refine h.sendOwner (fun hpresent => ?_) fun _ => nofun
    simpa [hpresent] using hharmless hending
  have hfrees : job.streamFrees=0 := h.stream.2 (by simp [hending]) (by simp [hending])
  unfold guacRdpPrintJobEndStream
  cases hpresent : job.present with
  | false =>
    exact ⟨hsent.input,hsent.output,⟨hsent.stream.1,fun hclosing => absurd rfl hclosing⟩,nofun,
      hsent.joining,hsent.freed,hsent.blobs,hsent.closed,hsent.wasClosed⟩
  | true =>
    exact ⟨hsent.input,hsent.output,⟨by simp [hfrees],fun hclosing => absurd rfl hclosing⟩,
      nofun,hsent.joining,hsent.freed,hsent.blobs,hsent.closed,hsent.wasClosed⟩

theorem Good.waitForAck (h : Good job) (hwaiting : job.output=.waiting) :
    Good (guacRdpPrintJobWaitForAck job) := by
  unfold guacRdpPrintJobWaitForAck
  split_ifs with hack
  · have hset : Good (guacRdpPrintJobSetState .waitingForAck job) :=
      h.setState fun hclosed => absurd (hack.symm.trans hclosed) nofun
    have houtput : (guacRdpPrintJobSetState .waitingForAck job).output=.waiting := hwaiting
    exact hset.goOn (by simp [houtput]) (by simp [houtput]) nofun
  · exact h.goOn (by simp [hwaiting]) (by simp [hwaiting]) nofun

theorem Good.write (h : Good job) (hactive : job.printer=.active) {length : ℤ}
    (hharmless : Harmless (.write length) job) : Good (guacRdpPrintJobWrite length job) := by
  unfold guacRdpPrintJobWrite
  have hbegun : Good (if job.bytesReceived=0 then guacRdpPrintJobBeginStream job else job) := by
    split_ifs with hfirst
    · refine h.sendOwner (fun hpresent => ?_) fun _ => nofun
      have hcases := hharmless hactive
      simpa [hfirst,hpresent] using hcases
    · exact h
  exact ⟨hbegun.input,hbegun.output,hbegun.stream,hbegun.done,hbegun.joining,hbegun.freed,
    hbegun.blobs,hbegun.closed,hbegun.wasClosed⟩

/-- The printer is closed first of all. -/
theorem Good.close (h : Good job) (huntouched : Untouched job) :
    Good { job with inputCloses := job.inputCloses+1, printer := .joining } where
  input := by simp [huntouched.1]
  output := h.output.trans (Nat.le_succ _)
  stream := h.stream
  done := h.done
  joining := fun _ => ⟨by simp [huntouched.1],huntouched.2⟩
  freed := nofun
  blobs := h.blobs
  closed := h.closed
  wasClosed := h.wasClosed

variable {event : PrintEvent}

/-- A harmless step that is possible. -/
theorem Good.next {next : PrintJob} (h : Good job) (hharmless : Harmless event job)
    (hnext : job.next event=some next) : Good next := by
  unfold PrintJob.next at hnext
  cases event with
  | ack success =>
    dsimp only at hnext
    split_ifs at hnext with hopen
    cases hnext
    have hstate := hharmless hopen
    unfold guacRdpPrintFilterAckHandler
    cases success with
    | false => exact h.kill (by simpa using hstate)
    | true => exact h.setState fun hclosed => absurd hclosed (by simpa using hstate)
  | read data =>
    obtain ⟨hreading,hnext⟩ := Option.ite_none_right_eq_some.mp hnext
    cases hnext
    refine h.goOn (by simp [hreading]) (by simp [hreading]) ?_
    cases data <;> exact nofun
  | waitForAck =>
    dsimp only at hnext
    split_ifs at hnext with hwaiting
    cases hnext
    exact h.waitForAck hwaiting
  | sendBlob =>
    dsimp only at hnext
    split_ifs at hnext with hsending
    cases hnext
    exact h.sendBlob hsending hharmless
  | endStream =>
    dsimp only at hnext
    split_ifs at hnext with hending
    cases hnext
    exact h.endStream hending hharmless
  | closeDescriptors =>
    dsimp only at hnext
    split_ifs at hnext with hclosing
    cases hnext
    exact h.closeBoth (hharmless hclosing) fun _ hdone => absurd rfl hdone
  | write length =>
    dsimp only at hnext
    split_ifs at hnext with hactive
    cases hnext
    exact h.write hactive hharmless
  | close =>
    dsimp only at hnext
    split_ifs at hnext with hactive
    cases hnext
    exact h.close (hharmless hactive)
  | join =>
    dsimp only at hnext
    split_ifs at hnext with hjoined
    have hopen := (h.joining (by simp [hjoined.1])).2
    exact absurd ((h.done hjoined.2).symm.trans hopen) Nat.one_ne_zero
  | leave =>
    cases hnext
    exact ⟨h.input,h.output,h.stream,h.done,h.joining,h.freed,h.blobs,h.closed,h.wasClosed⟩

/-! ## Runs -/

theorem stepJob_of_next {next : PrintJob} (h : job.next event=some next) :
    stepJob event job=some next := by
  rw [stepJob,h,Option.getD_some]

theorem Good.step {next : PrintJob} (h : Good job) (hharmless : Harmless event job)
    (hnext : stepJob event job=some next) : Good next :=
  keeps_getD h (fun hpossible => h.next hharmless hpossible) hnext

theorem sendOwner_absent (h : job.present=false) (instruction : PrintInstruction) :
    (sendOwner instruction job).inputCloses=job.inputCloses+1 := by
  simp [sendOwner,h,guacRdpPrintJobKill,guacRdpPrintJobSetState]

/-- Only a harmless step keeps what is to hold. -/
theorem Good.harmless {next : PrintJob} (h : Good job) (hnext : stepJob event job=some next)
    (hkept : JobKept next) : Harmless event job := by
  have hstepped : ∀ {j}, job.next event=some j → next=j := fun hj =>
    Option.some.inj (hnext.symm.trans (stepJob_of_next hj))
  have hinput := hkept.input.1
  cases event with
  | ack success =>
    intro hopen
    have hj := hstepped (if_pos hopen)
    cases success with
    | false =>
      rw [hj] at hinput
      exact h.untouched hinput
    | true =>
      intro hstate
      have hreplaced := hkept.closed
      rw [hj] at hreplaced
      simp [guacRdpPrintFilterAckHandler,guacRdpPrintJobSetState,hstate] at hreplaced
  | sendBlob =>
    intro hsending
    have hj := hstepped (if_pos hsending)
    cases hpresent : job.present with
    | false =>
      rw [hj] at hinput
      exact h.untouched ((sendOwner_absent hpresent _).symm.trans_le hinput)
    | true =>
      intro hstate
      have hblobs := hkept.blobs
      rw [hj] at hblobs
      simp [guacRdpPrintJobSendBlob,PrintJobs.sendOwner,hpresent,h.wasClosed,hstate] at hblobs
  | endStream =>
    intro hending
    have hj := hstepped (if_pos hending)
    cases hpresent : job.present with
    | true => exact Or.inl rfl
    | false =>
      rw [hj] at hinput
      simp only [guacRdpPrintJobEndStream,hpresent,Bool.false_eq_true,if_false,
        sendOwner_absent hpresent] at hinput
      exact Or.inr (h.untouched hinput)
  | closeDescriptors =>
    intro hclosing
    rw [hstepped (if_pos hclosing)] at hinput
    exact h.untouched hinput
  | write length =>
    intro hactive
    have hj := hstepped (if_pos hactive)
    by_cases hfirst : job.bytesReceived=0
    · cases hpresent : job.present with
      | true => exact Or.inr (Or.inl rfl)
      | false =>
        rw [hj] at hinput
        simp only [guacRdpPrintJobWrite,hfirst,if_true,guacRdpPrintJobBeginStream,
          sendOwner_absent hpresent] at hinput
        exact Or.inr (Or.inr (h.untouched hinput))
    · exact Or.inl hfirst
  | close =>
    intro hactive
    rw [hstepped (if_pos hactive)] at hinput
    exact h.untouched hinput
  | read | waitForAck | join | leave => trivial

/-- How often the input descriptor was closed by the printer and at the end of the output
thread. -/
structure Closers (job : PrintJob) : Prop where
  closed : (if job.printer=.active then 0 else 1)+(if job.output=.done then 1 else 0)≤
    job.inputCloses
  freed : job.printer=.freed → job.output=.done

/-- What changes neither the printer nor the output thread, and closes no less. -/
theorem Closers.congr {next : PrintJob} (h : Closers job) (hprinter : next.printer=job.printer)
    (houtput : next.output=.done ↔ job.output=.done)
    (hcloses : job.inputCloses≤next.inputCloses) : Closers next := by
  constructor
  · simp only [hprinter,houtput]
    exact h.closed.trans hcloses
  · rw [hprinter,houtput]
    exact h.freed

theorem Closers.next {next : PrintJob} (h : Closers job) (hnext : job.next event=some next) :
    Closers next := by
  unfold PrintJob.next at hnext
  cases event with
  | ack success =>
    obtain ⟨-,hnext⟩ := Option.ite_none_right_eq_some.mp hnext
    cases hnext
    cases success with
    | true => exact h.congr rfl Iff.rfl (Nat.le_refl _)
    | false => exact h.congr rfl Iff.rfl (Nat.le_succ _)
  | read data =>
    obtain ⟨hreading,hnext⟩ := Option.ite_none_right_eq_some.mp hnext
    cases hnext
    refine h.congr rfl ?_ (Nat.le_refl _)
    cases data <;> simp [hreading]
  | waitForAck =>
    obtain ⟨hwaiting,hnext⟩ := Option.ite_none_right_eq_some.mp hnext
    cases hnext
    unfold guacRdpPrintJobWaitForAck
    split_ifs
    · exact h.congr rfl (by simp [hwaiting]) (Nat.le_refl _)
    · exact h.congr rfl (by simp [hwaiting]) (Nat.le_refl _)
  | sendBlob =>
    obtain ⟨hsending,hnext⟩ := Option.ite_none_right_eq_some.mp hnext
    cases hnext
    obtain ⟨hprinter,-,hcloses⟩ := sendOwner_rest (.blob job.wasClosed) job
    exact h.congr hprinter (by simp [hsending]) hcloses
  | endStream =>
    obtain ⟨hending,hnext⟩ := Option.ite_none_right_eq_some.mp hnext
    cases hnext
    obtain ⟨hprinter,-,hcloses⟩ := sendOwner_rest .ended job
    unfold guacRdpPrintJobEndStream
    dsimp only
    split_ifs
    · exact h.congr hprinter (by simp [hending]) hcloses
    · exact h.congr hprinter (by simp [hending]) hcloses
  | closeDescriptors =>
    obtain ⟨hclosing,hnext⟩ := Option.ite_none_right_eq_some.mp hnext
    cases hnext
    have hclosed := h.closed
    simp only [hclosing] at hclosed
    constructor
    · simp only [if_true]
      exact Nat.add_le_add_right hclosed 1
    · exact fun _ => rfl
  | write length =>
    obtain ⟨-,hnext⟩ := Option.ite_none_right_eq_some.mp hnext
    cases hnext
    obtain ⟨hprinter,houtput,hcloses⟩ := sendOwner_rest .file job
    unfold guacRdpPrintJobWrite guacRdpPrintJobBeginStream
    dsimp only
    split_ifs
    · exact h.congr hprinter (by rw [←houtput]) hcloses
    · exact h.congr rfl Iff.rfl (Nat.le_refl _)
  | close =>
    obtain ⟨hactive,hnext⟩ := Option.ite_none_right_eq_some.mp hnext
    cases hnext
    have hclosed := h.closed
    simp only [hactive,if_true,Nat.zero_add] at hclosed
    constructor
    · simp only [reduceCtorEq,if_false,Nat.add_comm 1]
      exact Nat.add_le_add_right hclosed 1
    · exact nofun
  | join =>
    obtain ⟨⟨hjoining,hdone⟩,hnext⟩ := Option.ite_none_right_eq_some.mp hnext
    cases hnext
    have hclosed := h.closed
    constructor
    · simpa [hjoining] using hclosed
    · exact fun _ => hdone
  | leave =>
    cases hnext
    exact h.congr rfl Iff.rfl (Nat.le_refl _)

theorem Closers.step {next : PrintJob} (h : Closers job) (hnext : stepJob event job=some next) :
    Closers next :=
  keeps_getD h (fun hpossible => h.next hpossible) hnext

/-- A job that was freed has closed its input descriptor twice. -/
theorem Closers.twice (h : Closers job) (hfreed : job.printer=.freed) : 2≤job.inputCloses := by
  have hclosed := h.closed
  rwa [if_neg (by simp [hfreed]),if_pos (h.freed hfreed)] at hclosed

theorem closers_alloc : Closers guacRdpPrintJobAlloc := by
  constructor <;> simp [guacRdpPrintJobAlloc]

/-- In every order of steps, descriptors, stream and state are kept exactly as long as every
step is harmless; and no job is kept until it is freed. -/
theorem print_job_kept_iff (events : List PrintEvent) :
    ((∀ made, made <+: events→∀ job, run stepJob made guacRdpPrintJobAlloc=some job →
        JobKept job) ↔ Along stepJob Harmless events guacRdpPrintJobAlloc) ∧
      ∀ job, run stepJob events guacRdpPrintJobAlloc=some job → job.printer=.freed →
        ¬JobKept job := by
  constructor
  · exact visits_iff_along Good.kept (fun _ _ => rfl) Good.step Good.harmless events good_alloc
  · intro job hrun hfreed hkept
    have hclosers := run_keeps (fun h hnext => Closers.step h hnext) closers_alloc hrun
    have htwice := (hclosers.twice hfreed).trans hkept.input.1
    exact absurd htwice (by decide)

/-- A job without data: the output thread ends, and the printer is closed. -/
theorem not_print_job_kept : ¬∀ (events : List PrintEvent) (job : PrintJob),
      run stepJob events guacRdpPrintJobAlloc=some job→JobKept job := by
  intro h
  have hkept := h [.close,.read false,.endStream,.closeDescriptors,.join] _ rfl
  exact absurd hkept.input.1 (by decide)

end GuacServer.PrintJobs
