import Mathlib.Data.List.Perm.Basic
import GuacServer.Unicode

/-!
# Routing of connections

guacd_connection_thread hands a new connection to a process, and two more
threads transfer its data from then on. Who releases the parser, the socket and
the descriptors of the transfer changes with the outcome. The calls of each
thread are listed in their order, and every order in which the threads may take
turns is a permutation of all calls.
-/

namespace GuacServer.GuacdRouting

open Unicode

/-- The calls that acquire and release, and those that manage a process. -/
inductive Call where
  /-- guac_parser_alloc. -/
  | parserAlloc
  /-- guac_parser_free. -/
  | parserFree
  /-- guac_socket_open or guac_socket_open_secure. -/
  | socketOpen
  /-- guac_socket_free. -/
  | socketFree
  /-- socketpair, which creates user_fd and proc_fd. -/
  | socketpair
  /-- close of user_fd. -/
  | closeUserFd
  /-- close of proc_fd. -/
  | closeProcFd
  /-- close of the descriptor of the connection. -/
  | closeConnected
  /-- guacd_proc_map_add. -/
  | mapAdd
  /-- waitpid. -/
  | waitpid
  /-- guacd_proc_map_remove. -/
  | mapRemove
  /-- guacd_proc_stop. -/
  | procStop
  /-- guac_client_free. -/
  | clientFree
  /-- close of fd_socket. -/
  | closeFdSocket
  /-- free of the process. -/
  | procFree
  deriving DecidableEq

/-- GUAC_CLIENT_ID_PREFIX. -/
def guacClientIdPrefix : UInt8 := 36

/-- What a connection asks for, and how the calls made for it turn out. -/
structure Outcome where
  /-- Whether guac_socket_open_secure succeeds, if TLS is used. -/
  secure : Option Bool
  /-- Whether guac_parser_expect finds a select instruction. -/
  select : Bool
  /-- The arguments of the instruction. -/
  argv : List (List UInt8)
  /-- Whether guacd_proc_map_retrieve finds a process. -/
  retrieved : Bool
  /-- Whether guacd_create_proc succeeds. -/
  created : Bool
  /-- Whether socketpair succeeds. -/
  socketpair : Bool
  /-- Whether guacd_send_fd succeeds. -/
  sendFd : Bool

/-- What a function returned, the calls of its thread, and those of threads it starts. -/
structure Handling where
  /-- Whether the value returned is not zero. -/
  failed : Bool
  /-- The calls of the thread itself. -/
  calls : List Call
  /-- The calls of the threads that transfer data. -/
  transfer : List Call

/-- guacd_connection_write_thread: the parser is freed once its buffers are empty. -/
def guacdConnectionWriteThread : List Call := [.parserFree]

/-- guacd_connection_io_thread, which cleans up when the write thread has ended. -/
def guacdConnectionIoThread : List Call := guacdConnectionWriteThread++[.socketFree,.closeUserFd]

/-- guacd_add_user. -/
def guacdAddUser (outcome : Outcome) : Handling :=
  if outcome.socketpair=true then
    if outcome.sendFd=true then
      ⟨false,[.socketpair,.closeProcFd],guacdConnectionIoThread⟩
    else ⟨true,[.socketpair],[]⟩
  else ⟨true,[],[]⟩

/-- Whether the identifier is that of an existing connection. -/
def Outcome.joins (outcome : Outcome) : Bool :=
  decide ((outcome.argv.headD []).head? = some guacClientIdPrefix)

/-- Whether there is a process to route to. -/
def Outcome.hasProc (outcome : Outcome) : Bool :=
  if outcome.joins then outcome.retrieved else outcome.created

/-- guacd_route_connection. -/
def guacdRouteConnection (outcome : Outcome) : Handling :=
  if outcome.select=true then
    if outcome.argv.length=1 then
      if outcome.hasProc=true then
        let added := guacdAddUser outcome
        let managed :=
          if outcome.joins=true then []
          else if added.failed=true then
            [.parserFree,.procStop,.clientFree,.closeFdSocket,.procFree]
          else
            [.mapAdd,.waitpid,.mapRemove,.procStop,.clientFree,.closeFdSocket,.procFree]
        ⟨added.failed,.parserAlloc::(added.calls++managed),added.transfer⟩
      else ⟨true,[.parserAlloc,.parserFree],[]⟩
    else ⟨true,[.parserAlloc,.parserFree],[]⟩
  else ⟨true,[.parserAlloc,.parserFree],[]⟩

/-- guacd_connection_thread. -/
def guacdConnectionThread (outcome : Outcome) : Handling :=
  if outcome.secure=some false then ⟨true,[.closeConnected],[]⟩
  else
    let routed := guacdRouteConnection outcome
    ⟨routed.failed,.socketOpen::(routed.calls++if routed.failed=true then [.socketFree] else []),
      routed.transfer⟩

/-- What is acquired is released exactly once. -/
def Once (acquire release : Call) (calls : List Call) : Prop :=
  calls.count acquire≤1 ∧ calls.count release=calls.count acquire

instance (acquire release : Call) (calls : List Call) : Decidable (Once acquire release calls) :=
  inferInstanceAs (Decidable (_ ∧ _))

/-- Everything that is acquired for a connection is released exactly once. -/
structure Released (calls : List Call) : Prop where
  parser : Once .parserAlloc .parserFree calls
  socket : Once .socketOpen .socketFree calls
  /-- The descriptor of the user. -/
  userFd : Once .socketpair .closeUserFd calls
  /-- The descriptor that is sent to the process. -/
  procFd : Once .socketpair .closeProcFd calls

/-- Where there is a process to route to, its descriptor is sent if there is one, and an
existing process gets one. -/
def Outcome.Sends (outcome : Outcome) : Prop :=
  outcome.secure≠some false → outcome.select=true → outcome.argv.length=1 → outcome.hasProc=true →
      (outcome.joins=true → outcome.socketpair=true) ∧
      (outcome.socketpair=true → outcome.sendFd=true)

/-- Only how often calls are made matters, and not in which order the threads make them. -/
theorem Released.perm {calls calls' : List Call} (h : calls.Perm calls') :
    Released calls ↔ Released calls' := by
  have honce : ∀ acquire release, Once acquire release calls ↔ Once acquire release calls' := by
    intro acquire release
    rw [Once,Once,h.count_eq,h.count_eq]
  constructor
  · rintro ⟨hparser,hsocket,huser,hproc⟩
    exact ⟨(honce _ _).mp hparser,(honce _ _).mp hsocket,(honce _ _).mp huser,(honce _ _).mp hproc⟩
  · rintro ⟨hparser,hsocket,huser,hproc⟩
    exact ⟨(honce _ _).mpr hparser,(honce _ _).mpr hsocket,(honce _ _).mpr huser,
      (honce _ _).mpr hproc⟩

/-- Routing fails before any process is found. -/
theorem released_unrouted {outcome : Outcome} (hsecure : outcome.secure≠some false)
    (hrouted : guacdRouteConnection outcome=⟨true,[.parserAlloc,.parserFree],[]⟩) :
    Released ((guacdConnectionThread outcome).calls++(guacdConnectionThread outcome).transfer) := by
  rw [guacdConnectionThread,if_neg hsecure,hrouted]
  constructor <;> decide

instance (calls : List Call) : Decidable (Released calls) :=
  decidable_of_iff (Once .parserAlloc .parserFree calls ∧ Once .socketOpen .socketFree calls ∧
      Once .socketpair .closeUserFd calls ∧ Once .socketpair .closeProcFd calls)
    ⟨fun h => ⟨h.1,h.2.1,h.2.2.1,h.2.2.2⟩,fun h => ⟨h.parser,h.socket,h.userFd,h.procFd⟩⟩

/-- The outcomes of adding a user. -/
theorem guacdAddUser_cases (outcome : Outcome) :
    (outcome.socketpair=false ∧ guacdAddUser outcome=⟨true,[],[]⟩) ∨
      (outcome.socketpair=true ∧ outcome.sendFd=false ∧
        guacdAddUser outcome=⟨true,[.socketpair],[]⟩) ∨
      (outcome.socketpair=true ∧ outcome.sendFd=true ∧
        guacdAddUser outcome=⟨false,[.socketpair,.closeProcFd],guacdConnectionIoThread⟩) := by
  rw [guacdAddUser]
  cases outcome.socketpair <;> cases outcome.sendFd <;> simp

/-- There is a process to route to. -/
theorem released_routed_iff {outcome : Outcome} (hsecure : outcome.secure≠some false)
    (hselect : outcome.select=true) (hargv : outcome.argv.length=1)
    (hproc : outcome.hasProc=true) :
    Released ((guacdConnectionThread outcome).calls++(guacdConnectionThread outcome).transfer) ↔
      (outcome.joins=true → outcome.socketpair=true) ∧
        (outcome.socketpair=true → outcome.sendFd=true) := by
  simp only [guacdConnectionThread,if_neg hsecure,guacdRouteConnection,if_pos hselect,
    if_pos hargv,if_pos hproc]
  rcases guacdAddUser_cases outcome with ⟨hpair,hadd⟩ | ⟨hpair,hsend,hadd⟩ | ⟨hpair,hsend,hadd⟩
  · -- A new process frees the parser where no descriptors are created; a join does not.
    rw [hadd,hpair]
    cases outcome.joins <;> cases outcome.sendFd <;> decide
  · -- The descriptors are left open either way.
    rw [hadd,hpair,hsend]
    cases outcome.joins <;> decide
  · -- The threads that transfer data release everything.
    rw [hadd,hpair,hsend]
    cases outcome.joins <;> decide

/-- However a connection turns out and in whichever order its threads make their calls, the
parser, the socket and both descriptors are released exactly once if and only if, where
there is a process to route to, its descriptor is sent. -/
theorem connectionThread_releases_iff (outcome : Outcome) {calls : List Call}
    (h : calls.Perm ((guacdConnectionThread outcome).calls++
      (guacdConnectionThread outcome).transfer)) :
    Released calls ↔ outcome.Sends := by
  rw [Released.perm h,Outcome.Sends]
  by_cases hsecure : outcome.secure=some false
  · rw [guacdConnectionThread,if_pos hsecure]
    exact ⟨fun _ hnot => absurd hsecure hnot,fun _ => by constructor <;> decide⟩
  by_cases hselect : outcome.select=true
  · by_cases hargv : outcome.argv.length=1
    · by_cases hproc : outcome.hasProc=true
      · rw [released_routed_iff hsecure hselect hargv hproc]
        exact ⟨fun hsends _ _ _ _ => hsends,fun hsends => hsends hsecure hselect hargv hproc⟩
      · refine ⟨fun _ _ _ _ hnot => absurd hnot hproc,fun _ => released_unrouted hsecure ?_⟩
        rw [guacdRouteConnection,if_pos hselect,if_pos hargv,if_neg hproc]
    · refine ⟨fun _ _ _ hnot => absurd hnot hargv,fun _ => released_unrouted hsecure ?_⟩
      rw [guacdRouteConnection,if_pos hselect,if_neg hargv]
  · refine ⟨fun _ _ hnot => absurd hnot hselect,fun _ => released_unrouted hsecure ?_⟩
    rw [guacdRouteConnection,if_neg hselect]

/-- A connection that joins another one. -/
def joining : Outcome := ⟨none,true,[ascii "$1"], true, false, true, true⟩

/-- It is released by the threads that transfer its data. -/
theorem connectionThread_releases_joining :
    Released ([.socketOpen,.parserAlloc,.socketpair,.closeProcFd]++guacdConnectionIoThread) :=
  (connectionThread_releases_iff joining (List.Perm.refl _)).mpr fun _ _ _ _ =>
    ⟨fun _ => rfl,fun _ => rfl⟩

/-- A connection that fails to join another one, since its descriptor is not sent. -/
theorem not_connectionThread_releases :
    ¬∀ outcome : Outcome, Released ((guacdConnectionThread outcome).calls++
      (guacdConnectionThread outcome).transfer) := by
  intro h
  have hreleased := h ⟨none,true,[ascii "$1"],true,false,true,false⟩
  exact absurd hreleased.parser (by decide)

end GuacServer.GuacdRouting
