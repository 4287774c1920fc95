import GuacServer.GuacdProcs
import GuacServer.GuacdRouting
import GuacServer.GuacdTransfer

/-!
# Connections and their processes

guacd_route_connection is looked at in three ways: by the calls of its thread, by
the bytes that are handed over, and by the state of the process that it creates.
The first decides the others: data is transferred where the thread starts the
transfer, and the thread that a process belongs to makes the same calls in the
same order, whatever the other threads do in between.
-/

namespace GuacServer.GuacdConnections

open GuacdRouting GuacdProcs StateRuns Unicode

/-- The instruction that guac_parser_expect finds at a socket is that of an outcome. -/
structure Reads (outcome : Outcome) (socket : List Parser.SocketEvent) : Prop where
  select : outcome.select=true ↔
    (GuacdTransfer.guacParserExpect Parser.guacBufferedParserAlloc socket (ascii "select")).1=0
  argc : outcome.argv.length=(GuacdTransfer.guacParserExpect Parser.guacBufferedParserAlloc socket
    (ascii "select")).2.parser.argc

/-- Where a process can be routed to, it gets the data of a connection exactly if the
thread of the connection starts the transfer. -/
theorem transfer_iff_handedOver {outcome : Outcome} {socket : List Parser.SocketEvent}
    (h : Reads outcome socket) (hproc : outcome.hasProc=true) (hpair : outcome.socketpair=true)
    (hsend : outcome.sendFd=true) (writes : List (Option ℕ)) :
    (guacdRouteConnection outcome).transfer=
      if (GuacdTransfer.guacdRouteConnection socket writes).isSome=true
        then guacdConnectionIoThread else [] := by
  have hadded : (guacdAddUser outcome).transfer=guacdConnectionIoThread := by
    rw [guacdAddUser,if_pos hpair,if_pos hsend]
  have hargc := h.argc
  unfold guacdRouteConnection GuacdTransfer.guacdRouteConnection
  dsimp only
  by_cases hselect : outcome.select=true
  · rw [if_pos hselect,if_neg (not_not.mpr (h.select.mp hselect))]
    by_cases hone : outcome.argv.length=1
    · rw [if_pos hone,if_pos hproc,if_neg (not_not.mpr (hargc.symm.trans hone))]
      exact hadded
    · rw [if_neg hone,if_pos fun hone' => hone (hargc.trans hone')]
      rfl
  · rw [if_neg hselect,if_pos fun hzero => hselect (h.select.mpr hzero)]
    rfl

/-! ## The thread that a process belongs to -/

/-- The calls that a step of the thread stands for. -/
def callsOf : ProcEvent→List Call
  | .owner (.addUser true true) => [.socketpair,.closeProcFd]
  | .owner (.addUser true false) => [.socketpair,.parserFree]
  | .owner (.addUser false _) => [.parserFree]
  | .owner (.mapAdd _) => [.mapAdd]
  | .owner .waitpid => [.waitpid]
  | .owner .mapRemove => [.mapRemove]
  | .owner .clientStop => [.procStop]
  | .owner .clientFree => [.clientFree]
  | .owner .close => [.closeFdSocket]
  | .owner .free => [.procFree]
  | _ => []

/-- The calls behind those that add the first user. -/
def managing : List Call :=
  [.mapAdd,.waitpid,.mapRemove,.procStop,.clientFree,.closeFdSocket,.procFree]

/-- The calls that are still to be made from a stage on. -/
def remaining (outcome : Outcome) : OwnerStage→List Call
  | .created => callsOf (.owner (.addUser outcome.socketpair outcome.sendFd))++
    if outcome.socketpair=true ∧ outcome.sendFd=true then managing else managing.drop 3
  | .userAdded => managing
  | .waiting => managing.drop 1
  | .reaped => managing.drop 2
  | .ending => managing.drop 3
  | .clientStopped | .shutDown | .stopped => managing.drop 4
  | .clientFreed => managing.drop 5
  | .closed => managing.drop 6
  | .freed => []

/-- The calls that are made by the steps which threads have come to. -/
def made : List ProcEvent→Process→List Call
  | [], _ => []
  | event::events, process =>
    (if (process.next event).isSome=true then callsOf event else [])++
      made events ((process.next event).getD process)

/-- The first user is added as in an outcome. -/
def Adds (outcome : Outcome) (event : ProcEvent) : Prop :=
  ∀ paired sent, event = .owner (.addUser paired sent) →
    paired=outcome.socketpair ∧ sent=outcome.sendFd

/-- The thread of the connection that creates a process makes all calls of the stages. -/
theorem routeConnection_calls {outcome : Outcome} (hselect : outcome.select=true)
    (hargc : outcome.argv.length=1) (hnew : outcome.joins=false) (hcreated : outcome.created=true) :
    (guacdRouteConnection outcome).calls = .parserAlloc::remaining outcome .created := by
  have hproc : outcome.hasProc=true := by
    rw [Outcome.hasProc,hnew]
    exact hcreated
  rw [guacdRouteConnection,if_pos hselect,if_pos hargc,if_pos hproc,hnew,remaining]
  rcases guacdAddUser_cases outcome with ⟨hpair,hadd⟩ | ⟨hpair,hsend,hadd⟩ | ⟨hpair,hsend,hadd⟩
  · rw [hadd,hpair]
    rfl
  · rw [hadd,hpair,hsend]
    rfl
  · rw [hadd,hpair,hsend]
    rfl

variable {outcome : Outcome} {process after : Process}

/-- A step makes the calls that remain no longer. -/
theorem remaining_next {event : ProcEvent} (hadds : Adds outcome event)
    (hnext : process.next event=some after) :
    callsOf event++remaining outcome after.owner=remaining outcome process.owner := by
  cases event with
  | owner event =>
    cases event with simp only [Process.next,Process.ownerNext,Option.ite_none_right_eq_some,
      Option.some.injEq] at hnext
    | addUser paired sent =>
      obtain ⟨hpaired,hsent⟩ := hadds paired sent rfl
      obtain ⟨hstage,hnext⟩ := hnext
      rw [hstage,remaining,←hpaired,←hsent]
      cases paired <;> cases sent <;> cases hnext <;> rfl
    | waitpid =>
      obtain ⟨⟨hstage,-⟩,rfl⟩ := hnext
      rw [hstage]
      rfl
    | _ =>
      obtain ⟨hstage,rfl⟩ := hnext
      rw [hstage]
      rfl
  | join event =>
    cases event with simp only [Process.next,Process.joinNext,Option.ite_none_right_eq_some,
      Option.some.injEq] at hnext
    | retrieve =>
      obtain ⟨-,rfl⟩ := hnext
      rfl
    | addUser paired =>
      obtain ⟨-,rfl⟩ := hnext
      cases paired <;> rfl
  | child event =>
    obtain ⟨-,hnext⟩ := Option.ite_none_right_eq_some.mp hnext
    rw [(childNext_cases hnext).1.1]
    rfl

/-- The calls that the thread has made, and those that remain, are those of the connection,
whatever the threads of the process and those that join do in between. -/
theorem made_remaining (events : List ProcEvent) (hadds : ∀ event∈events, Adds outcome event) :
    ∃ after, run stepProcess events process=some after ∧
      made events process++remaining outcome after.owner=remaining outcome process.owner := by
  induction events generalizing process with
  | nil => exact ⟨process,rfl,rfl⟩
  | cons event events ih =>
    obtain ⟨hadd,hadds⟩ := List.forall_mem_cons.mp hadds
    obtain ⟨after,hrun,hmade⟩ := @ih ((process.next event).getD process) hadds
    refine ⟨after,hrun,?_⟩
    rw [made,List.append_assoc,hmade]
    cases hnext : process.next event with
    | none => rfl
    | some next => exact remaining_next hadd hnext

/-- Of a process that a connection creates the thread of the connection has made all its
calls, in their order, once it has freed the record. -/
theorem made_of_freed (hselect : outcome.select=true) (hargc : outcome.argv.length=1)
    (hnew : outcome.joins=false) (hcreated : outcome.created=true) {events : List ProcEvent}
    (hadds : ∀ event∈events, Adds outcome event)
    (hrun : run stepProcess events guacdCreateProc=some after) (hfreed : after.owner=.freed) :
    (guacdRouteConnection outcome).calls = .parserAlloc::made events guacdCreateProc := by
  obtain ⟨after',hrun',hmade⟩ := @made_remaining _ guacdCreateProc events hadds
  obtain rfl := Option.some.inj (hrun.symm.trans hrun')
  rw [hfreed,remaining,List.append_nil] at hmade
  rw [routeConnection_calls hselect hargc hnew hcreated,hmade]
  rfl

end GuacServer.GuacdConnections
