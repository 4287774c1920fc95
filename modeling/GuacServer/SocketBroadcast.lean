import Mathlib.Data.Int.Notation
import Mathlib.Data.List.Nodup
import GuacServer.StateRuns

/-!
# Instructions broadcast to all users

The broadcast socket locks, writes to and unlocks the sockets of all users,
going through the list of users anew each time. Users that join and leave
between instructions receive whole instructions under a lock of their own;
within an instruction the list must not change.
-/

namespace GuacServer.SocketBroadcast

open List StateRuns

/-- What happens to the lock of a user's socket. -/
inductive LockEvent
  /-- guac_socket_instruction_begin on the socket of the user. -/
  | acquired
  /-- guac_socket_instruction_end on the socket of the user. -/
  | released
  deriving DecidableEq

/-- guac_user, as far as the broadcast socket is concerned. -/
structure GuacUser where
  /-- The bytes passed to the socket of the user by the broadcast. -/
  received : List UInt8
  /-- What the broadcast has done to the lock of that socket. -/
  locks : List LockEvent
  /-- Cleared by guac_user_stop. -/
  active : Bool
  deriving DecidableEq

/-- A user that has not joined yet. -/
def guacUserAlloc : GuacUser := ⟨[],[],true⟩

/-- A callback for guac_client_foreach_user, given the address of the user. -/
abbrev GuacUserCallback := ℕ→GuacUser→GuacUser

/-- The loop of guac_client_foreach_user over the addresses in the list. -/
def guacClientForeachUser (callback : GuacUserCallback) : List ℕ→(ℕ→GuacUser)→ℕ→GuacUser
  | [], memory => memory
  | user::users, memory =>
    guacClientForeachUser callback users (Function.update memory user (callback user (memory user)))

/-- __lock_callback. -/
def lockCallback : GuacUserCallback := fun _ user =>
  { user with locks := user.locks++[.acquired] }

/-- __unlock_callback. -/
def unlockCallback : GuacUserCallback := fun _ user =>
  { user with locks := user.locks++[.released] }

/-- __write_chunk_callback, where the write fails for the given users. -/
def writeChunkCallback (buffer : List UInt8) (failing : List ℕ) : GuacUserCallback :=
  fun address user =>
    { user with
      received := user.received++buffer
      active := if address∈failing then false else user.active }

/-- A client, its users, and the instruction that is being sent over its
socket while the lock of that socket is held. -/
structure BroadcastState where
  /-- The addresses in the list of users, from its head. -/
  users : List ℕ
  /-- The users by their addresses. -/
  memory : ℕ→GuacUser
  /-- The bytes of the current instruction written so far. -/
  current : Option (List UInt8)
  /-- All instructions sent completely. -/
  sent : List (List UInt8)

/-- A client without users. -/
def freshBroadcast : BroadcastState := ⟨[],fun _ => guacUserAlloc,none,[]⟩

/-- What the sending thread and other threads do to a client. -/
inductive BroadcastAction
  /-- guac_socket_instruction_begin on the socket of the client. -/
  | instructionBegin
  /-- A write to that socket, which fails on the sockets of some users. -/
  | write (buffer : List UInt8) (failing : List ℕ)
  /-- guac_socket_instruction_end on the socket of the client. -/
  | instructionEnd
  /-- guac_client_add_user, where the join handler returns the value. -/
  | addUser (user : ℕ) (retval : ℤ)
  /-- guac_client_remove_user. -/
  | removeUser (user : ℕ)
  deriving DecidableEq

/-- One action. The sender writes within its instructions only, and users are
added once and removed while they are in the list. -/
def broadcastStep : BroadcastAction→BroadcastState→Option BroadcastState
  | .instructionBegin, state =>
    match state.current with
    | some _ => none
    | none => some { state with
        memory := guacClientForeachUser lockCallback state.users state.memory
        current := some [] }
  | .write buffer failing, state =>
    match state.current with
    | none => none
    | some bytes => some { state with
        memory := guacClientForeachUser (writeChunkCallback buffer failing) state.users state.memory
        current := some (bytes++buffer) }
  | .instructionEnd, state =>
    match state.current with
    | none => none
    | some bytes => some { state with
        memory := guacClientForeachUser unlockCallback state.users state.memory
        current := none
        sent := state.sent++[bytes] }
  | .addUser user retval, state =>
    if user∈state.users then none
    else some { state with users := if retval=0 then user::state.users else state.users }
  | .removeUser user, state =>
    if user∈state.users then some { state with users := state.users.erase user } else none

/-- The condition of an action: users join and leave between instructions. A
user whose join handler fails does not join. -/
def BroadcastAction.Between : BroadcastAction→BroadcastState→Prop
  | .addUser _ retval, state => retval=0 → state.current=none
  | .removeUser _, state => state.current=none
  | .instructionBegin, _ => True
  | .write _ _, _ => True
  | .instructionEnd, _ => True

instance (action : BroadcastAction) (state : BroadcastState) : Decidable (action.Between state) :=
  match action with
  | .addUser _ retval => inferInstanceAs (Decidable (retval=0 → state.current=none))
  | .removeUser _ => inferInstanceAs (Decidable (state.current=none))
  | .instructionBegin => inferInstanceAs (Decidable True)
  | .write _ _ => inferInstanceAs (Decidable True)
  | .instructionEnd => inferInstanceAs (Decidable True)

/-- The callback is applied once to every user in the list and to no other. -/
theorem guacClientForeachUser_apply {users : List ℕ} (h : users.Nodup) (callback : GuacUserCallback)
    (memory : ℕ→GuacUser) (user : ℕ) :
    guacClientForeachUser callback users memory user=
      if user∈users then callback user (memory user) else memory user := by
  induction users generalizing memory with
  | nil => rw [guacClientForeachUser,if_neg not_mem_nil]
  | cons first users ih =>
    obtain ⟨hfirst,hnodup⟩ := nodup_cons.mp h
    rw [guacClientForeachUser,ih hnodup]
    by_cases heq : user=first
    · subst heq
      rw [if_neg hfirst,if_pos (mem_cons_self ..),Function.update_self]
    · rw [Function.update_of_ne heq]
      simp only [mem_cons,heq,false_or]

/-- Acquired and released in turn, so many times. -/
def lockPairs (n : ℕ) : List LockEvent := (List.replicate n [.acquired,.released]).flatten

/-- One more pair. -/
theorem lockPairs_succ (n : ℕ) : lockPairs (n+1)=lockPairs n++[.acquired,.released] := by
  rw [lockPairs,replicate_succ',flatten_append,flatten_singleton]
  rfl

/-- What a user has received, in order: complete instructions, and the current
one while the user is in the list. -/
def UserWhole (state : BroadcastState) (user : ℕ) : Prop :=
  ∃ instructions : List (List UInt8), instructions.Sublist state.sent ∧
    (state.memory user).received=
      instructions.flatten++if user∈state.users then state.current.getD [] else []

/-- What was done to the lock of a user: it was acquired and released in turn,
and is held for the current instruction while the user is in the list. -/
def UserLocked (state : BroadcastState) (user : ℕ) : Prop :=
  ∃ n, (state.memory user).locks=
    lockPairs n++if user∈state.users ∧ state.current.isSome then [.acquired] else []

/-- All users receive whole instructions, each under its own lock. -/
structure Delivered (state : BroadcastState) : Prop where
  /-- No user is in the list twice. -/
  nodup : state.users.Nodup
  /-- Whole instructions are received. -/
  whole (user : ℕ) : UserWhole state user
  /-- Locks are acquired and released in turn. -/
  locked (user : ℕ) : UserLocked state user

/-- Nothing has been received from a fresh client. -/
theorem freshBroadcast_delivered : Delivered freshBroadcast :=
  ⟨nodup_nil,fun _ => ⟨[],List.Sublist.refl _,rfl⟩,fun _ => ⟨0,rfl⟩⟩

variable {state : BroadcastState}

/-- The beginning of an instruction locks the socket of every user. -/
theorem Delivered.instructionBegin (h : Delivered state) (hidle : state.current=none) :
    Delivered { state with
      memory := guacClientForeachUser lockCallback state.users state.memory
      current := some [] } := by
  refine ⟨h.nodup,fun user => ?_,fun user => ?_⟩
  · obtain ⟨instructions,hsublist,hreceived⟩ := h.whole user
    refine ⟨instructions,hsublist,?_⟩
    rw [hidle] at hreceived
    simp only [guacClientForeachUser_apply h.nodup]
    split <;> simpa [lockCallback] using hreceived
  · obtain ⟨n,hlocks⟩ := h.locked user
    refine ⟨n,?_⟩
    rw [hidle] at hlocks
    simp only [guacClientForeachUser_apply h.nodup]
    by_cases hmem : user∈state.users
    · simp only [hmem,if_true] at hlocks ⊢
      simpa [lockCallback] using hlocks
    · simp only [hmem,if_false] at hlocks ⊢
      simpa using hlocks

/-- A write within an instruction reaches every user. -/
theorem Delivered.write (h : Delivered state) {bytes : List UInt8}
    (hcurrent : state.current=some bytes) (buffer : List UInt8) (failing : List ℕ) :
    Delivered { state with
      memory := guacClientForeachUser (writeChunkCallback buffer failing) state.users state.memory
      current := some (bytes++buffer) } := by
  refine ⟨h.nodup,fun user => ?_,fun user => ?_⟩
  · obtain ⟨instructions,hsublist,hreceived⟩ := h.whole user
    refine ⟨instructions,hsublist,?_⟩
    rw [hcurrent] at hreceived
    simp only [guacClientForeachUser_apply h.nodup]
    by_cases hmem : user∈state.users
    · simp only [hmem,if_true] at hreceived ⊢
      simp [writeChunkCallback,hreceived]
    · simp only [hmem,if_false] at hreceived ⊢
      exact hreceived
  · obtain ⟨n,hlocks⟩ := h.locked user
    refine ⟨n,?_⟩
    rw [hcurrent] at hlocks
    simp only [guacClientForeachUser_apply h.nodup]
    by_cases hmem : user∈state.users
    · simp only [hmem,if_true] at hlocks ⊢
      simpa [writeChunkCallback] using hlocks
    · simp only [hmem,if_false] at hlocks ⊢
      exact hlocks

/-- The end of an instruction completes it for every user. -/
theorem Delivered.instructionEnd (h : Delivered state) {bytes : List UInt8}
    (hcurrent : state.current=some bytes) :
    Delivered { state with
      memory := guacClientForeachUser unlockCallback state.users state.memory
      current := none
      sent := state.sent++[bytes] } := by
  refine ⟨h.nodup,fun user => ?_,fun user => ?_⟩
  · obtain ⟨instructions,hsublist,hreceived⟩ := h.whole user
    rw [hcurrent] at hreceived
    unfold UserWhole
    simp only [guacClientForeachUser_apply h.nodup]
    by_cases hmem : user∈state.users
    · simp only [hmem,if_true] at hreceived ⊢
      refine ⟨instructions++[bytes],hsublist.append (List.Sublist.refl _),?_⟩
      simpa [unlockCallback] using hreceived
    · simp only [hmem,if_false] at hreceived ⊢
      exact ⟨instructions,hsublist.trans (sublist_append_left _ _),hreceived⟩
  · obtain ⟨n,hlocks⟩ := h.locked user
    rw [hcurrent] at hlocks
    unfold UserLocked
    simp only [guacClientForeachUser_apply h.nodup]
    by_cases hmem : user∈state.users
    · refine ⟨n+1,?_⟩
      simp only [hmem,if_true] at hlocks ⊢
      simp [unlockCallback,lockPairs_succ,hlocks]
    · refine ⟨n,?_⟩
      simp only [hmem,if_false] at hlocks ⊢
      simpa using hlocks

/-- Between instructions the list of users may change. -/
theorem Delivered.users (h : Delivered state) (hidle : state.current=none) {users : List ℕ}
    (hnodup : users.Nodup) : Delivered { state with users := users } := by
  refine ⟨hnodup,fun user => ?_,fun user => ?_⟩
  · obtain ⟨instructions,hsublist,hreceived⟩ := h.whole user
    refine ⟨instructions,hsublist,?_⟩
    simpa [hidle] using hreceived
  · obtain ⟨n,hlocks⟩ := h.locked user
    refine ⟨n,?_⟩
    simpa [hidle] using hlocks

/-- Every action that meets its condition delivers. -/
theorem broadcastStep_delivered {action : BroadcastAction} {state' : BroadcastState}
    (h : Delivered state) (hbetween : action.Between state)
    (hstep : broadcastStep action state=some state') : Delivered state' := by
  cases action with
  | instructionBegin =>
    cases hcurrent : state.current with
    | some bytes => simp [broadcastStep,hcurrent] at hstep
    | none =>
      simp only [broadcastStep,hcurrent,Option.some.injEq] at hstep
      exact hstep ▸ h.instructionBegin hcurrent
  | write buffer failing =>
    cases hcurrent : state.current with
    | none => simp [broadcastStep,hcurrent] at hstep
    | some bytes =>
      simp only [broadcastStep,hcurrent,Option.some.injEq] at hstep
      exact hstep ▸ h.write hcurrent buffer failing
  | instructionEnd =>
    cases hcurrent : state.current with
    | none => simp [broadcastStep,hcurrent] at hstep
    | some bytes =>
      simp only [broadcastStep,hcurrent,Option.some.injEq] at hstep
      exact hstep ▸ h.instructionEnd hcurrent
  | addUser user retval =>
    rw [broadcastStep] at hstep
    split at hstep
    · cases hstep
    · next hnew =>
      cases hstep
      split
      · next hretval => exact h.users (hbetween hretval) (nodup_cons.mpr ⟨hnew,h.nodup⟩)
      · exact h
  | removeUser user =>
    rw [broadcastStep] at hstep
    split at hstep
    · cases hstep
      exact h.users hbetween (h.nodup.erase user)
    · cases hstep

/-- In every run from a client without users in which users join and leave
only between instructions, every user receives whole instructions, and the
lock of its socket is acquired and released in turn. -/
theorem guacSocketBroadcast_delivered {actions : List BroadcastAction} {state : BroadcastState}
    (hbetween : Along broadcastStep BroadcastAction.Between actions freshBroadcast)
    (hrun : run broadcastStep actions freshBroadcast=some state) : Delivered state :=
  run_invariant (fun h => broadcastStep_delivered h) freshBroadcast_delivered hbetween hrun

/-- Two users, one of which leaves after the first instruction, and a third
that is refused within it. -/
theorem guacSocketBroadcast_delivered_two :
    ∃ state, run broadcastStep [.addUser 1 0,.addUser 2 0,.instructionBegin,.write [49,46] [2],
        .addUser 3 1,.write [97,59] [],.instructionEnd,.removeUser 2,.instructionBegin,
        .write [48] []] freshBroadcast=some state ∧ Delivered state :=
  ⟨_,rfl,guacSocketBroadcast_delivered (by decide : Along broadcastStep BroadcastAction.Between
    [.addUser 1 0,.addUser 2 0,.instructionBegin,.write [49,46] [2],.addUser 3 1,
      .write [97,59] [],.instructionEnd,.removeUser 2,.instructionBegin,
      .write [48] []] freshBroadcast) rfl⟩

/-- Pairs are even in number. -/
theorem length_lockPairs (n : ℕ) : (lockPairs n).length=2*n := by
  induction n with
  | zero => rfl
  | succ n ih =>
    rw [lockPairs_succ,length_append,ih]
    rfl

/-- A lock left held, or released without having been acquired, is not in
turn. -/
theorem not_userLocked_of_odd {user : ℕ} (hidle : state.current=none)
    (hodd : (state.memory user).locks.length=1) : ¬UserLocked state user := by
  rintro ⟨n,hlocks⟩
  have hlength := congrArg List.length hlocks
  rw [hodd,hidle,if_neg (fun h => Bool.noConfusion h.2),append_nil,length_lockPairs] at hlength
  omega

/-- A user that joins within an instruction receives a part of it, and its
lock is released without having been acquired. A user that leaves keeps its
lock. -/
theorem guacSocketBroadcast_divided :
    (∃ state, run broadcastStep [.instructionBegin,.write [49,46] [],.addUser 1 0,
        .write [97,59] [],.instructionEnd] freshBroadcast=some state ∧
      1∈state.users ∧ ¬UserWhole state 1 ∧ ¬UserLocked state 1) ∧
    ∃ state, run broadcastStep [.addUser 1 0,.instructionBegin,.removeUser 1,.instructionEnd]
        freshBroadcast=some state ∧ ¬UserLocked state 1 := by
  refine ⟨⟨_,rfl,by decide,?_,not_userLocked_of_odd rfl rfl⟩,_,rfl,not_userLocked_of_odd rfl rfl⟩
  rintro ⟨instructions,hsublist,hreceived⟩
  rcases sublist_singleton.mp hsublist with rfl | rfl
  · exact absurd hreceived (by decide)
  · exact absurd hreceived (by decide)

end GuacServer.SocketBroadcast
