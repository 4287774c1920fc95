import GuacServer.StateRuns

/-!
# The record of a process

The thread of guacd that creates a process manages its record until the process
has ended. Other threads find the record in the map and send over its fd_socket,
and the process itself has the other end of that socket, which its threads close
when no users are left. Threads alike are counted, and in which order the threads
take their steps is left open.
-/

namespace GuacServer.GuacdProcs

open StateRuns

/-- How far the thread that created the process has come in guacd_route_connection. -/
inductive OwnerStage where
  /-- guacd_create_proc has returned. -/
  | created
  | userAdded
  /-- The process was added to the map. -/
  | waiting
  /-- The process has ended. -/
  | reaped
  /-- The process was removed from the map, or its first user was not added. -/
  | ending
  /-- In guacd_proc_stop: the client was told to stop. -/
  | clientStopped
  /-- In guacd_proc_stop: the socket is shut down. -/
  | shutDown
  /-- guacd_proc_stop has returned. -/
  | stopped
  | clientFreed
  /-- fd_socket is closed. -/
  | closed
  /-- The record is freed. -/
  | freed
  deriving DecidableEq

/-- How far the process itself has come in guacd_exec_proc. -/
inductive ExecStage where
  | starting
  /-- The process group is set. -/
  | grouped
  /-- The plugin is loaded, and descriptors are received. -/
  | receiving
  /-- At cleanup_client. -/
  | cleanupClient
  /-- At cleanup_process. -/
  | cleanupProcess
  /-- fd_socket is closed. -/
  | closed
  deriving DecidableEq

/-- What the threads of guacd use of a process. -/
inductive Part where
  /-- The guacd_proc. -/
  | record
  | client
  /-- Its fd_socket. -/
  | socket
  deriving DecidableEq

/-- A process, in guacd and on its own. -/
structure Process where
  /-- The thread that created it. -/
  owner : OwnerStage
  /-- Whether the map has it. -/
  mapped : Bool
  /-- The threads that have retrieved it from the map and not used it yet. -/
  joining : ℕ
  /-- How often guacd has closed fd_socket. -/
  closes : ℕ
  clientFreed : Bool
  recordFreed : Bool
  /-- Whether something was used after it was freed or closed. -/
  misused : Bool
  /-- Whether the socket is shut down. -/
  shut : Bool
  /-- Whether the process has not exited. -/
  alive : Bool
  /-- Its main thread. -/
  exec : ExecStage
  /-- The user threads in the handshake. -/
  handshaking : ℕ
  /-- connected_users, the user threads behind the handshake. -/
  connectedUsers : ℕ
  /-- The user threads behind guac_user_handle_connection. -/
  left : ℕ
  /-- The user threads that have found no user connected. -/
  stopping : ℕ
  /-- The user threads that have shut down the socket. -/
  closing : ℕ
  /-- How often the process has closed fd_socket. -/
  childCloses : ℕ
  deriving DecidableEq

/-- What guacd_create_proc returns, and the process that it has forked. -/
def guacdCreateProc : Process where
  owner := .created
  mapped := false
  joining := 0
  closes := 0
  clientFreed := false
  recordFreed := false
  misused := false
  shut := false
  alive := true
  exec := .starting
  handshaking := 0
  connectedUsers := 0
  left := 0
  stopping := 0
  closing := 0
  childCloses := 0

/-- Whether something can be used. -/
def Process.usable (process : Process) : Part→Bool
  | .record => !process.recordFreed
  | .client => !process.clientFreed
  | .socket => process.closes == 0

/-- A thread of guacd uses the record and something that it refers to. -/
def Process.use (process : Process) (part : Part) : Process :=
  { process with
    misused := process.misused || !(process.usable .record && process.usable part) }

/-- What the thread that created the process does. -/
inductive OwnerEvent where
  /-- guacd_add_user, where socketpair and guacd_send_fd may fail. -/
  | addUser (paired sent : Bool)
  /-- guacd_proc_map_add, which fails if the connection ID is in use. -/
  | mapAdd (added : Bool)
  /-- waitpid. -/
  | waitpid
  /-- guacd_proc_map_remove. -/
  | mapRemove
  /-- guac_client_stop. -/
  | clientStop
  /-- shutdown of fd_socket. -/
  | shutdown
  /-- close of fd_socket in guacd_proc_stop. -/
  | stopClose
  /-- guac_client_free. -/
  | clientFree
  /-- close of fd_socket in guacd_route_connection. -/
  | close
  /-- free of the record. -/
  | free
  deriving DecidableEq

/-- What a thread that joins does. -/
inductive JoinEvent where
  /-- guacd_proc_map_retrieve. -/
  | retrieve
  /-- guacd_add_user, where socketpair may fail. -/
  | addUser (paired : Bool)
  deriving DecidableEq

/-- What the threads of the process do. -/
inductive ChildEvent where
  /-- setpgid, which may fail. -/
  | setpgid (success : Bool)
  /-- guac_client_load_plugin, which may fail. -/
  | loadPlugin (success : Bool)
  /-- guacd_recv_fd, which may fail, and a new user thread. -/
  | receive (success : Bool)
  /-- guac_client_stop and guacd_timed_client_free. -/
  | clientFree
  /-- close of fd_socket in guacd_exec_proc. -/
  | close
  /-- The handshake of a user succeeds. -/
  | connect
  /-- The handshake of a user fails. -/
  | refuse
  /-- A user disconnects. -/
  | disconnect
  /-- A user thread looks at connected_users. -/
  | check
  /-- It shuts down fd_socket in guacd_proc_stop. -/
  | shutdown
  /-- It closes fd_socket in guacd_proc_stop. -/
  | userClose
  /-- The process exits. -/
  | exit
  deriving DecidableEq

/-- What happens next. -/
inductive ProcEvent where
  | owner (event : OwnerEvent)
  | join (event : JoinEvent)
  | child (event : ChildEvent)
  deriving DecidableEq

/-- A step of the thread that created the process, if it has come to that. -/
def Process.ownerNext (process : Process) : OwnerEvent→Option Process
  | .addUser paired sent =>
    if process.owner=.created then
      if paired=true then
        some { process.use .socket with owner := if sent=true then .userAdded else .ending }
      else some { process with owner := .ending }
    else none
  | .mapAdd added =>
    if process.owner=.userAdded then
      some { process.use .client with owner := .waiting, mapped := added }
    else none
  | .waitpid =>
    if process.owner=.waiting ∧ process.alive=false then
      some { process.use .record with owner := .reaped }
    else none
  | .mapRemove =>
    if process.owner=.reaped then
      some { process.use .client with owner := .ending, mapped := false }
    else none
  | .clientStop =>
    if process.owner=.ending then some { process.use .client with owner := .clientStopped }
    else none
  | .shutdown =>
    if process.owner=.clientStopped then
      some { process.use .socket with owner := .shutDown, shut := true }
    else none
  | .stopClose =>
    if process.owner=.shutDown then
      some { process.use .socket with owner := .stopped, closes := process.closes+1 }
    else none
  | .clientFree =>
    if process.owner=.stopped then
      some { process.use .client with owner := .clientFreed, clientFreed := true }
    else none
  | .close =>
    if process.owner=.clientFreed then
      some { process.use .socket with owner := .closed, closes := process.closes+1 }
    else none
  | .free =>
    if process.owner=.closed then
      some { process.use .record with owner := .freed, recordFreed := true }
    else none

/-- A step of a thread that joins, if there is one that has come to that. -/
def Process.joinNext (process : Process) : JoinEvent→Option Process
  | .retrieve =>
    if process.mapped=true then some { process with joining := process.joining+1 } else none
  | .addUser paired =>
    if 0<process.joining then
      let joined := { process with joining := process.joining-1 }
      some (if paired=true then joined.use .socket else joined)
    else none

/-- A step of a thread of the process, if there is one that has come to that. -/
def Process.childNext (process : Process) : ChildEvent→Option Process
  | .setpgid success =>
    if process.exec=.starting then
      some { process with exec := if success=true then .grouped else .cleanupProcess }
    else none
  | .loadPlugin success =>
    if process.exec=.grouped then
      some { process with exec := if success=true then .receiving else .cleanupClient }
    else none
  | .receive success =>
    if process.exec=.receiving then
      if success=true then
        if process.shut=true then none
        else some { process with handshaking := process.handshaking+1 }
      else some { process with exec := .cleanupClient }
    else none
  | .clientFree =>
    if process.exec=.cleanupClient then some { process with exec := .cleanupProcess } else none
  | .close =>
    if process.exec=.cleanupProcess then
      some { process with exec := .closed, childCloses := process.childCloses+1 }
    else none
  | .connect =>
    if 0<process.handshaking then
      some { process with
        handshaking := process.handshaking-1
        connectedUsers := process.connectedUsers+1 }
    else none
  | .refuse =>
    if 0<process.handshaking then
      some { process with
        handshaking := process.handshaking-1
        left := process.left+1 }
    else none
  | .disconnect =>
    if 0<process.connectedUsers then
      some { process with
        connectedUsers := process.connectedUsers-1
        left := process.left+1 }
    else none
  | .check =>
    if 0<process.left then
      some { process with
        left := process.left-1
        stopping := if process.connectedUsers=0 then process.stopping+1
          else process.stopping }
    else none
  | .shutdown =>
    if 0<process.stopping then
      some { process with
        stopping := process.stopping-1
        closing := process.closing+1
        shut := true }
    else none
  | .userClose =>
    if 0<process.closing then
      some { process with
        closing := process.closing-1
        childCloses := process.childCloses+1 }
    else none
  | .exit => some { process with alive := false }

/-- A step of any thread. -/
def Process.next (process : Process) : ProcEvent→Option Process
  | .owner event => process.ownerNext event
  | .join event => process.joinNext event
  | .child event => if process.alive=true then process.childNext event else none

/-- A step, which changes nothing where no thread has come to that. -/
def stepProcess (event : ProcEvent) (process : Process) : Option Process :=
  some ((process.next event).getD process)

/-! ## What is to hold -/

/-- Nothing is used after it was freed or closed, and fd_socket is closed once in guacd and
once in the process. -/
structure ProcKept (process : Process) : Prop where
  used : process.misused=false
  closed : process.closes≤1 ∧ (process.owner=.freed → process.closes=1)
  childClosed : process.childCloses≤1 ∧ (process.exec=.closed → process.childCloses=1)

/-- A thread that joins sends over fd_socket before guacd closes it, and where fd_socket is
closed, guacd or the process has not closed it before. -/
def Harmless (event : ProcEvent) (process : Process) : Prop :=
  match event with
  | .join (.addUser true) => 0<process.joining → process.closes=0
  | .owner .close => process.owner=.clientFreed → process.closes=0
  | .child .close => process.alive=true → process.exec=.cleanupProcess → process.childCloses=0
  | .child .userClose => process.alive=true→0<process.closing → process.childCloses=0
  | _ => True

/-- How often the thread that created the process has closed fd_socket. -/
def OwnerStage.closes : OwnerStage→ℕ
  | .stopped => 1
  | .clientFreed => 1
  | .closed => 2
  | .freed => 2
  | _ => 0

/-- What holds in every state: only the thread that created the process closes and frees. -/
structure Owned (process : Process) : Prop where
  closes : process.closes=process.owner.closes
  client : process.clientFreed=true →
    process.owner=.clientFreed ∨ process.owner=.closed ∨ process.owner=.freed
  record : process.recordFreed=true → process.owner=.freed

theorem owned_guacdCreateProc : Owned guacdCreateProc := by
  constructor <;> simp [guacdCreateProc,OwnerStage.closes]

variable {process after : Process}

/-- The thread that created the process comes further, and leaves the process alone. Until it
closes fd_socket for the second time, what it uses is neither freed nor closed. -/
theorem Owned.ownerNext (h : Owned process) {event : OwnerEvent}
    (hnext : process.ownerNext event=some after) :
    Owned after ∧ after.childCloses=process.childCloses ∧ after.exec=process.exec ∧
      (process.owner≠.closed→(event=.close → process.owner≠.clientFreed) →
        after.misused=process.misused ∧ after.owner≠.closed ∧ after.owner≠.freed) := by
  have hcloses := h.closes
  have hclient := h.client
  have hrecord := h.record
  cases event with simp only [Process.ownerNext,Option.ite_none_right_eq_some,
    Option.some.injEq] at hnext
  | addUser paired sent =>
    obtain ⟨hstage,hnext⟩ := hnext
    cases paired <;> cases sent <;> cases hnext <;> refine ⟨⟨?_,?_,?_⟩,rfl,rfl,?_⟩ <;>
      simp_all [OwnerStage.closes,Process.use,Process.usable]
  | _ =>
    obtain ⟨hstage,rfl⟩ := hnext
    refine ⟨⟨?_,?_,?_⟩,rfl,rfl,?_⟩ <;>
      simp_all [OwnerStage.closes,Process.use,Process.usable]

/-- A thread that joins changes nothing else, and uses what is neither freed nor closed
exactly if fd_socket is open. -/
theorem Owned.joinNext (h : Owned process) {event : JoinEvent}
    (hnext : process.joinNext event=some after) :
    Owned after ∧ after.owner=process.owner ∧ after.childCloses=process.childCloses ∧
      after.exec=process.exec ∧
      (event≠.addUser true ∧ after.misused=process.misused ∨
        event=.addUser true ∧ 0<process.joining ∧
          (process.closes=0 → after.misused=process.misused) ∧
          (after.misused=false → process.closes=0)) := by
  cases event with simp only [Process.joinNext,Option.ite_none_right_eq_some,
    Option.some.injEq] at hnext
  | retrieve =>
    obtain ⟨hmapped,rfl⟩ := hnext
    exact ⟨⟨h.closes,h.client,h.record⟩,rfl,rfl,rfl,Or.inl ⟨nofun,rfl⟩⟩
  | addUser paired =>
    obtain ⟨hjoining,rfl⟩ := hnext
    cases paired with
    | false => exact ⟨⟨h.closes,h.client,h.record⟩,rfl,rfl,rfl,Or.inl ⟨nofun,rfl⟩⟩
    | true =>
      refine ⟨⟨h.closes,h.client,h.record⟩,rfl,rfl,rfl,
        Or.inr ⟨rfl,hjoining,fun hopen => ?_,fun hused => ?_⟩⟩
      · have hrecord : process.recordFreed=false := by
          refine Bool.eq_false_iff.mpr fun hfreed => ?_
          have hcloses := h.closes
          rw [hopen,h.record hfreed] at hcloses
          cases hcloses
        simp [Process.use,Process.usable,hopen,hrecord]
      · simp only [if_true,Process.use,Process.usable,Bool.or_eq_false_iff,
          Bool.not_eq_false',Bool.and_eq_true,beq_iff_eq] at hused
        exact hused.2.2

/-- The threads of the process leave guacd alone, and two kinds of steps close fd_socket. -/
theorem childNext_cases {event : ChildEvent} (hnext : process.childNext event=some after) :
    (after.owner=process.owner ∧ after.closes=process.closes ∧
      after.clientFreed=process.clientFreed ∧ after.recordFreed=process.recordFreed ∧
      after.misused=process.misused) ∧
      (event=.close ∧ process.exec=.cleanupProcess ∧
          after.exec=.closed ∧ after.childCloses=process.childCloses+1 ∨
        event=.userClose ∧ 0<process.closing ∧
          after.exec=process.exec ∧ after.childCloses=process.childCloses+1 ∨
        event≠.close ∧ event≠.userClose ∧ after.childCloses=process.childCloses ∧
          (after.exec=.closed → process.exec=.closed)) := by
  cases event with simp only [Process.childNext,Option.ite_none_right_eq_some,
    Option.some.injEq] at hnext
  | close =>
    obtain ⟨hexec,rfl⟩ := hnext
    exact ⟨⟨rfl,rfl,rfl,rfl,rfl⟩,Or.inl ⟨rfl,hexec,rfl,rfl⟩⟩
  | userClose =>
    obtain ⟨hclosing,rfl⟩ := hnext
    exact ⟨⟨rfl,rfl,rfl,rfl,rfl⟩,Or.inr (Or.inl ⟨rfl,hclosing,rfl,rfl⟩)⟩
  | receive success =>
    obtain ⟨hexec,hnext⟩ := hnext
    split_ifs at hnext
    all_goals
      cases hnext
      simp
  | exit =>
    subst hnext
    simp
  | setpgid success =>
    obtain ⟨hexec,rfl⟩ := hnext
    cases success <;> simp
  | loadPlugin success =>
    obtain ⟨hexec,rfl⟩ := hnext
    cases success <;> simp
  | _ =>
    obtain ⟨hphase,rfl⟩ := hnext
    simp

/-- They close and free nothing of guacd. -/
theorem Owned.childNext (h : Owned process) {event : ChildEvent}
    (hnext : process.childNext event=some after) : Owned after := by
  obtain ⟨⟨howner,hcloses,hclient,hrecord,-⟩,-⟩ := childNext_cases hnext
  constructor
  · rw [hcloses,howner,h.closes]
  · rw [hclient,howner]
    exact h.client
  · rw [hrecord,howner]
    exact h.record

/-- What holds as long as every step is harmless. -/
structure Good (process : Process) : Prop extends Owned process where
  used : process.misused=false
  unclosed : process.owner≠.closed
  unfreed : process.owner≠.freed
  childOnce : process.childCloses≤1
  childClosed : process.exec=.closed → process.childCloses=1

theorem good_guacdCreateProc : Good guacdCreateProc where
  toOwned := owned_guacdCreateProc
  used := rfl
  unclosed := nofun
  unfreed := nofun
  childOnce := Nat.zero_le 1
  childClosed := nofun

theorem Good.kept (h : Good process) : ProcKept process where
  used := h.used
  closed := by
    refine ⟨?_,fun hfreed => absurd hfreed h.unfreed⟩
    have hcloses := h.closes
    have hunclosed := h.unclosed
    have hunfreed := h.unfreed
    rw [hcloses]
    cases hstage : process.owner <;> simp_all [OwnerStage.closes]
  childClosed := ⟨h.childOnce,h.childClosed⟩

variable {event : ProcEvent}

/-- A harmless step keeps what holds. -/
theorem Good.next (h : Good process) (hharmless : Harmless event process)
    (hnext : process.next event=some after) : Good after := by
  cases event with
  | owner event =>
    obtain ⟨howned,hcloses,hexec,hused⟩ := h.toOwned.ownerNext hnext
    have hclose : event=.close → process.owner≠.clientFreed := by
      rintro rfl hstage
      have hopen := hharmless hstage
      rw [h.closes,hstage] at hopen
      cases hopen
    obtain ⟨hmisused,hunclosed,hunfreed⟩ := hused h.unclosed hclose
    exact ⟨howned,hmisused.trans h.used,hunclosed,hunfreed,hcloses ▸ h.childOnce,
      hcloses ▸ hexec ▸ h.childClosed⟩
  | join event =>
    obtain ⟨howned,howner,hcloses,hexec,hused⟩ := h.toOwned.joinNext hnext
    have hmisused : after.misused=process.misused := by
      rcases hused with ⟨-,hsame⟩ | ⟨rfl,hjoining,hsame,-⟩
      · exact hsame
      · exact hsame (hharmless hjoining)
    exact ⟨howned,hmisused.trans h.used,howner ▸ h.unclosed,howner ▸ h.unfreed,
      hcloses ▸ h.childOnce,hcloses ▸ hexec ▸ h.childClosed⟩
  | child event =>
    simp only [Process.next] at hnext
    split at hnext
    next halive =>
      obtain ⟨⟨howner,-,-,-,hmisused⟩,hchild⟩ := childNext_cases hnext
      have hclosed : after.childCloses≤1 ∧ (after.exec=.closed → after.childCloses=1) := by
        rcases hchild with ⟨rfl,hexec,-,hmore⟩ | ⟨rfl,hclosing,-,hmore⟩ | ⟨-,-,hsame,hexec⟩
        · rw [hmore,hharmless halive hexec]
          exact ⟨Nat.le_refl 1,fun _ => rfl⟩
        · rw [hmore,hharmless halive hclosing]
          exact ⟨Nat.le_refl 1,fun _ => rfl⟩
        · rw [hsame]
          exact ⟨h.childOnce,fun hafter => h.childClosed (hexec hafter)⟩
      exact ⟨h.toOwned.childNext hnext,hmisused.trans h.used,howner ▸ h.unclosed,
        howner ▸ h.unfreed,hclosed.1,hclosed.2⟩
    next => cases hnext

/-- Only a harmless step leads to a state in which everything is kept. -/
theorem Good.harmless (h : Good process) (hnext : stepProcess event process=some after)
    (hkept : ProcKept after) :
    Harmless event process := by
  cases hnext
  cases event with
  | owner event =>
    cases event with
    | close =>
      intro hstage
      have hcloses := hkept.closed.1
      simp only [Process.next,Process.ownerNext,if_pos hstage,Option.getD_some] at hcloses
      omega
    | _ => trivial
  | join event =>
    cases event with
    | retrieve => trivial
    | addUser paired =>
      cases paired with
      | false => trivial
      | true =>
        intro hjoining
        cases hnext : process.joinNext (.addUser true) with
        | none =>
          simp only [Process.joinNext,if_pos hjoining] at hnext
          cases hnext
        | some after =>
          have hused := hkept.used
          simp only [Process.next,hnext,Option.getD_some] at hused
          obtain ⟨-,-,-,-,hsend⟩ := h.toOwned.joinNext hnext
          rcases hsend with ⟨hne,-⟩ | ⟨-,-,-,hopen⟩
          · exact absurd rfl hne
          · exact hopen hused
  | child event =>
    have hclosed := hkept.childClosed.1
    cases event with
    | close =>
      intro halive hexec
      simp only [Process.next,if_pos halive,Process.childNext,if_pos hexec,
        Option.getD_some] at hclosed
      omega
    | userClose =>
      intro halive hclosing
      simp only [Process.next,if_pos halive,Process.childNext,if_pos hclosing,
        Option.getD_some] at hclosed
      omega
    | _ => trivial

/-- A harmless step, or none. -/
theorem Good.step (h : Good process) (hharmless : Harmless event process)
    (hnext : stepProcess event process=some after) : Good after :=
  keeps_getD h (fun hpossible => h.next hharmless hpossible) hnext

/-- Who closes and frees does not depend on the steps. -/
theorem Owned.step (h : Owned process) (hnext : stepProcess event process=some after) :
    Owned after := by
  refine keeps_getD h (fun hpossible => ?_) hnext
  cases event with
  | owner event => exact (h.ownerNext hpossible).1
  | join event => exact (h.joinNext hpossible).1
  | child event =>
    simp only [Process.next] at hpossible
    split at hpossible
    next => exact h.childNext hpossible
    next => cases hpossible

/-- In every order of steps, everything is kept exactly as long as every step is harmless;
and no process whose record is freed was kept, since guacd has closed its fd_socket twice. -/
theorem process_kept_iff (events : List ProcEvent) :
    ((∀ made, made <+: events→∀ process, run stepProcess made guacdCreateProc=some process →
        ProcKept process) ↔ Along stepProcess Harmless events guacdCreateProc) ∧
      ∀ process, run stepProcess events guacdCreateProc=some process → process.owner=.freed →
        process.closes=2 ∧ ¬ProcKept process := by
  constructor
  · exact visits_iff_along Good.kept (fun _ _ => rfl)
      (fun h hharmless hnext => h.step hharmless hnext)
      (fun h hnext hkept => h.harmless hnext hkept) events good_guacdCreateProc
  · intro process hrun hfreed
    have howned := run_keeps (fun h hnext => Owned.step h hnext) owned_guacdCreateProc hrun
    have htwice : process.closes=2 := by rw [howned.closes,hfreed]; rfl
    refine ⟨htwice,fun hkept => ?_⟩
    have honce := hkept.closed.1
    omega

/-- A process of one user that another one is about to join as it ends: its user thread and
its main thread both close fd_socket, guacd closes it twice, and the other user is sent over
it after that. -/
theorem not_process_kept : ¬∀ (events : List ProcEvent) (process : Process),
      run stepProcess events guacdCreateProc=some process→ProcKept process := by
  intro h
  have hkept := h [.owner (.addUser true true),.owner (.mapAdd true),.child (.setpgid true),
    .child (.loadPlugin true),.child (.receive true),.child .connect,.join .retrieve,
    .child .disconnect,.child .check,.child .shutdown,.child .userClose,
    .child (.receive false),.child .clientFree,.child .close,.child .exit,.owner .waitpid,
    .owner .mapRemove,.owner .clientStop,.owner .shutdown,.owner .stopClose,
    .join (.addUser true),.owner .clientFree,.owner .close] _ rfl
  have hviolated : 2≤1 := hkept.closed.1
  exact absurd hviolated (by decide)

end GuacServer.GuacdProcs
