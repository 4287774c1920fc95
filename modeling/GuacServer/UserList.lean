import Mathlib.Data.Int.Notation
import GuacServer.LinkedLists
import GuacServer.StateRuns

/-!
# The users of a client

A client links the users that joined in a list, counts them, and remembers the
owner among them. Users are added at the head unless their join handler fails,
and are removed from any place. Every user has a descriptor of its own, so that
their number is an int.
-/

namespace GuacServer.UserList

open LinkedLists List StateRuns

variable {υ : Type*} [DecidableEq υ]

/-- The users of guac_client, given by their addresses. -/
structure GuacClient (υ : Type*) where
  /-- The first user and the links of all users. -/
  users : Links υ
  /-- The number of users. -/
  connectedUsers : ℤ
  /-- The owner, if it is connected. -/
  owner : Option υ

/-- A client without users. -/
def guacClientAlloc (prev next : υ→Option υ) : GuacClient υ := ⟨Links.empty prev next,0,none⟩

/-- guac_client_add_user, where the join handler of the client, if it has one,
returns the given value. -/
def guacClientAddUser (isOwner : υ→Bool) (joinHandler : Option ℤ) (user : υ)
    (client : GuacClient υ) : ℤ×GuacClient υ :=
  let retval := joinHandler.getD 0
  if retval=0 then
    (retval,
      { users := client.users.pushFront user
        connectedUsers := client.connectedUsers+1
        owner := if isOwner user then some user else client.owner })
  else (retval,client)

/-- guac_client_remove_user. -/
def guacClientRemoveUser (isOwner : υ→Bool) (user : υ) (client : GuacClient υ) : GuacClient υ where
  users := client.users.unlink user
  connectedUsers := client.connectedUsers-1
  owner := if isOwner user then none else client.owner

/-- A client with the users that joined and were not removed, the last one
first. -/
structure UserSession (υ : Type*) where
  client : GuacClient υ
  /-- The users that joined. -/
  joined : List υ

/-- Calls for users. -/
inductive UserCall (υ : Type*)
  /-- guac_client_add_user, with what the join handler returns. -/
  | add (user : υ) (joinHandler : Option ℤ)
  /-- guac_client_remove_user. -/
  | remove (user : υ)

/-- One call. A user is handed to guac_client_add_user while it is not
connected, and to guac_client_remove_user while it is. -/
def userStep (isOwner : υ→Bool) : UserCall υ→UserSession υ→Option (UserSession υ)
  | .add user joinHandler, session =>
    if user∈session.joined then none
    else
      let (retval,client) := guacClientAddUser isOwner joinHandler user session.client
      some ⟨client,if retval=0 then user::session.joined else session.joined⟩
  | .remove user, session =>
    if user∈session.joined then
      some ⟨guacClientRemoveUser isOwner user session.client,session.joined.erase user⟩
    else none

/-- What a client promises about its users. -/
structure UserListLaw (isOwner : υ→Bool) (session : UserSession υ) : Prop where
  /-- The list is that of the users that joined. -/
  linked : Represents session.client.users session.joined
  counted : session.client.connectedUsers=session.joined.length
  /-- A known owner is one of them. -/
  owner : ∀ user, session.client.owner=some user → user∈session.joined ∧ isOwner user=true

/-- The owner is known while it is one of the users. -/
def OwnerKnown (isOwner : υ→Bool) (session : UserSession υ) : Prop :=
  ∀ user∈session.joined, isOwner user=true → session.client.owner=some user

variable {isOwner : υ→Bool} {session session' : UserSession υ} {user : υ} {call : UserCall υ}

/-- A user that joins keeps the promise. -/
theorem UserListLaw.add (h : UserListLaw isOwner session) (hnew : user ∉ session.joined) :
    UserListLaw isOwner ⟨(guacClientAddUser isOwner none user session.client).2,
      user::session.joined⟩ where
  linked := h.linked.pushFront hnew
  counted := by
    have hcounted := h.counted
    show session.client.connectedUsers+1=_
    rw [length_cons]
    omega
  owner other := by
    show (if isOwner user then some user else session.client.owner)=some other → _
    split
    · next huser =>
      rintro ⟨⟩
      exact ⟨mem_cons_self ..,huser⟩
    · exact fun heq => (h.owner other heq).imp_left (mem_cons_of_mem _)

/-- A user that is removed keeps the promise. -/
theorem UserListLaw.remove (h : UserListLaw isOwner session) (hmem : user∈session.joined) :
    UserListLaw isOwner ⟨guacClientRemoveUser isOwner user session.client,
      session.joined.erase user⟩ where
  linked := h.linked.unlink hmem
  counted := by
    have hcounted := h.counted
    have hlength := length_erase_of_mem hmem
    have hpos := length_pos_of_mem hmem
    show session.client.connectedUsers-1=_
    dsimp only
    omega
  owner other := by
    show (if isOwner user then none else session.client.owner)=some other → _
    split
    · rintro ⟨⟩
    · next huser =>
      intro heq
      obtain ⟨hother,howner⟩ := h.owner other heq
      have hne : other≠user := fun heq => huser (heq ▸ howner)
      exact ⟨(mem_erase_of_ne hne).mpr hother,howner⟩

/-- What can be taken is a user that joins, one that does not, or one that leaves. -/
theorem userStep_cases (hstep : userStep isOwner call session=some session') :
    (∃ user, user ∉ session.joined ∧
      session' = ⟨(guacClientAddUser isOwner none user session.client).2,user::session.joined⟩) ∨
    session' = session ∨
    ∃ user∈session.joined, session'=
      ⟨guacClientRemoveUser isOwner user session.client,session.joined.erase user⟩ := by
  cases call with
  | add user joinHandler =>
    by_cases hmem : user∈session.joined
    · rw [userStep,if_pos hmem] at hstep
      cases hstep
    · rw [userStep,if_neg hmem] at hstep
      by_cases hretval : joinHandler.getD 0=0
      · simp only [guacClientAddUser,hretval,if_true] at hstep
        cases hstep
        exact Or.inl ⟨user,hmem,rfl⟩
      · simp only [guacClientAddUser,hretval,if_false] at hstep
        cases hstep
        exact Or.inr (Or.inl rfl)
  | remove user =>
    by_cases hmem : user∈session.joined
    · rw [userStep,if_pos hmem] at hstep
      cases hstep
      exact Or.inr (Or.inr ⟨user,hmem,rfl⟩)
    · rw [userStep,if_neg hmem] at hstep
      cases hstep

/-- Every call keeps the promise. -/
theorem userStep_law (h : UserListLaw isOwner session)
    (hstep : userStep isOwner call session=some session') : UserListLaw isOwner session' := by
  obtain ⟨user,hnew,rfl⟩ | rfl | ⟨user,hmem,rfl⟩ := userStep_cases hstep
  · exact h.add hnew
  · exact h
  · exact h.remove hmem

/-- If there is one owner, it is known after every call while it is one of the users. -/
theorem userStep_owner (howner : ∀ user other, isOwner user=true → isOwner other=true → user=other)
    (h : UserListLaw isOwner session) (hknown : OwnerKnown isOwner session)
    (hstep : userStep isOwner call session=some session') : OwnerKnown isOwner session' := by
  obtain ⟨user,hnew,rfl⟩ | rfl | ⟨user,hmem,rfl⟩ := userStep_cases hstep
  · intro other hother hisOwner
    show (if isOwner user then some user else session.client.owner)=some other
    split
    · next huser => rw [howner user other huser hisOwner]
    · next huser =>
      exact hknown other ((mem_cons.mp hother).resolve_left
        fun heq => huser (heq ▸ hisOwner)) hisOwner
  · exact hknown
  · intro other hother hisOwner
    obtain ⟨hne,hother⟩ := h.linked.nodup.mem_erase_iff.mp hother
    show (if isOwner user then none else session.client.owner)=some other
    rw [if_neg fun huser => hne (howner other user hisOwner huser)]
    exact hknown other hother hisOwner

omit [DecidableEq υ] in
/-- A client without users keeps the promise. -/
theorem guacClientAlloc_law (isOwner : υ→Bool) (prev next : υ→Option υ) :
    UserListLaw isOwner ⟨guacClientAlloc prev next,[]⟩ where
  linked := Represents.empty prev next
  counted := rfl
  owner _ := nofun

/-- In every state that calls can reach, the users that joined and were not
removed are linked in both directions and counted, and the client has an owner
exactly while the owner is one of them. -/
theorem userList_wellFormed {isOwner : υ→Bool}
    (howner : ∀ user other, isOwner user=true → isOwner other=true → user=other)
    (prev next : υ→Option υ) (calls : List (UserCall υ)) {session : UserSession υ}
    (hrun : run (userStep isOwner) calls ⟨guacClientAlloc prev next,[]⟩=some session) :
    Represents session.client.users session.joined ∧ (∀ head, session.client.users.head=some head →
        session.client.users.prev head=none) ∧
      (∀ user∈session.joined, ∀ other, session.client.users.next user=some other →
        session.client.users.prev other=some user) ∧
      session.client.connectedUsers=session.joined.length ∧
      (session.client.owner≠none ↔ ∃ user∈session.joined, isOwner user=true) := by
  obtain ⟨hlaw,hknown⟩ : UserListLaw isOwner session ∧ OwnerKnown isOwner session :=
    run_keeps (I := fun session => UserListLaw isOwner session ∧ OwnerKnown isOwner session)
      (fun h hstep => ⟨userStep_law h.1 hstep,userStep_owner howner h.1 h.2 hstep⟩)
      ⟨guacClientAlloc_law isOwner prev next,nofun⟩ hrun
  refine ⟨hlaw.linked,fun head => hlaw.linked.prev_head,fun user hmem other =>
    hlaw.linked.prev_next hmem,hlaw.counted,?_⟩
  rw [Option.ne_none_iff_exists']
  exact exists_congr fun user => ⟨hlaw.owner user,fun h => hknown user h.1 h.2⟩

/-- The owner and two others join, and one leaves from the middle. -/
theorem userList_wellFormed_three : ∃ session : UserSession ℕ,
      run (userStep (fun user => decide (user=0)))
        [.add 0 none,.add 1 (some 0),.add 2 (some (-1)),.add 3 (some 0),.remove 1]
        ⟨guacClientAlloc (fun _ => none) (fun _ => none),[]⟩=some session ∧
      session.joined=[3,0] ∧ Represents session.client.users session.joined :=
  ⟨_,rfl,by decide,(userList_wellFormed
    (fun _ _ huser hother => (of_decide_eq_true huser).trans (of_decide_eq_true hother).symm)
    (fun _ => none) (fun _ => none)
    [.add 0 none,.add 1 (some 0),.add 2 (some (-1)),.add 3 (some 0),.remove 1] rfl).1⟩

/-! ## Loops over the users -/

/-- The while loop of guac_client_foreach_user from a user on, for at most so many turns. -/
def foreachUser {σ : Type*} (users : Links υ) (callback : υ→σ→σ) : ℕ→Option υ→σ→Option σ
  | _, none, data => some data
  | 0, some _, _ => none
  | fuel+1, some current, data =>
    foreachUser users callback fuel (users.next current) (callback current data)

/-- The while loop of guac_client_free: the users that are removed, and the client. -/
def removeUsers (isOwner : υ→Bool) (fuel : ℕ) (client : GuacClient υ) :
    Option (List υ×GuacClient υ) :=
  match client.users.head, fuel with
  | none, _ => some ([],client)
  | some _, 0 => none
  | some user, fuel+1 =>
    (removeUsers isOwner fuel (guacClientRemoveUser isOwner user client)).map fun r =>
      (user::r.1,r.2)

omit [DecidableEq υ] in
/-- The loop visits all users that are linked. -/
theorem foreachUser_eq {σ : Type*} {users : Links υ} {before start : Option υ} {joined : List υ}
    (h : Chain users before start joined) {fuel : ℕ} (hfuel : joined.length≤fuel)
    (callback : υ→σ→σ) (data : σ) : foreachUser users callback fuel start data=
      some (joined.foldl (fun data user => callback user data) data) := by
  induction joined generalizing before start fuel data with
  | nil =>
    rw [h,foreachUser]
    rfl
  | cons user joined ih =>
    obtain ⟨rfl,-,hrest⟩ := h
    obtain ⟨fuel,rfl⟩ := Nat.exists_eq_add_of_lt hfuel
    exact ih hrest (Nat.le_add_right _ _) _

/-- The loop of guac_client_free removes every user and leaves none. -/
theorem UserListLaw.removeUsers {joined : List υ} {client : GuacClient υ}
    (h : UserListLaw isOwner ⟨client,joined⟩) {fuel : ℕ} (hfuel : joined.length≤fuel) :
    ∃ client', removeUsers isOwner fuel client=some (joined,client') ∧
      UserListLaw isOwner ⟨client',[]⟩ := by
  induction joined generalizing client fuel with
  | nil =>
    have hhead : client.users.head=none := h.linked.chain
    exact ⟨client,by simp [UserList.removeUsers,hhead],h⟩
  | cons user joined ih =>
    have hhead : client.users.head=some user := h.linked.chain.1
    have hrest := h.remove (mem_cons_self ..)
    rw [erase_cons_head] at hrest
    obtain ⟨fuel,rfl⟩ := Nat.exists_eq_add_of_lt hfuel
    obtain ⟨client',hremoved,hlaw⟩ := ih hrest (Nat.le_add_right _ fuel)
    exact ⟨client',by simp [UserList.removeUsers,hhead,hremoved],hlaw⟩

/-- In every state that calls can reach, callbacks are called once for each user that
joined, and freeing the client removes each of them and leaves neither a user nor an owner. -/
theorem users_visited {isOwner : υ→Bool} (prev next : υ→Option υ) (calls : List (UserCall υ))
    {session : UserSession υ}
    (hrun : run (userStep isOwner) calls ⟨guacClientAlloc prev next,[]⟩=some session) {fuel : ℕ}
    (hfuel : session.joined.length≤fuel) :
    session.joined.Nodup ∧ (∀ (σ : Type) (callback : υ→σ→σ) data,
        foreachUser session.client.users callback fuel session.client.users.head data=
          some (session.joined.foldl (fun data user => callback user data) data)) ∧
      ∃ client, removeUsers isOwner fuel session.client=some (session.joined,client) ∧
        client.users.head=none ∧ client.connectedUsers=0 ∧ client.owner=none := by
  have hlaw : UserListLaw isOwner session :=
    run_keeps userStep_law (guacClientAlloc_law isOwner prev next) hrun
  obtain ⟨client,hremoved,hempty⟩ := hlaw.removeUsers hfuel
  refine ⟨hlaw.linked.nodup,fun _ callback => foreachUser_eq hlaw.linked.chain hfuel callback,
    client,hremoved,hempty.linked.chain,hempty.counted,?_⟩
  exact Option.eq_none_iff_forall_ne_some.mpr fun user heq =>
    not_mem_nil (hempty.owner user heq).1

/-- The owner leaves before another user joins. -/
theorem users_visited_two : ∃ session : UserSession ℕ,
      run (userStep fun user => user == 0) [.add 0 none,.add 1 none,.remove 0,.add 2 none]
        ⟨guacClientAlloc (fun _ => none) (fun _ => none),[]⟩=some session ∧
      session.joined=[2,1] ∧ session.joined.Nodup ∧
      (∀ (σ : Type) (callback : ℕ→σ→σ) data,
        foreachUser session.client.users callback 2 session.client.users.head data=
          some (session.joined.foldl (fun data user => callback user data) data)) ∧
      ∃ client, removeUsers (fun user => user == 0) 2 session.client=some (session.joined,client) ∧
        client.users.head=none ∧ client.connectedUsers=0 ∧ client.owner=none :=
  ⟨_,rfl,rfl,users_visited (fun _ => none) (fun _ => none)
    [.add 0 none,.add 1 none,.remove 0,.add 2 none] rfl (Nat.le_refl 2)⟩

end GuacServer.UserList
