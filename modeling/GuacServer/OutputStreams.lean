import GuacServer.PoolRuns
import GuacServer.UserStreams

/-!
# Streams to users

A user and a client each keep an array of output streams, whose places they
take from a pool without a minimum size. Streams of users have even indices and
those of the client odd ones. A store outside the array has no result. The pool
reuses the place that was given back first and counts on only while none is, so
that the places stay inside the array as long as no more streams are live.
-/

namespace GuacServer.OutputStreams

open DecimalNumerals Pool PoolRuns StateRuns UserStreams Function

variable {H υ : Type} {size : ℕ}

/-- GUAC_CLIENT_MAX_STREAMS. -/
abbrev guacClientMaxStreams : ℕ := 64

/-- GUAC_CLIENT_CLOSED_STREAM_INDEX. -/
def guacClientClosedStreamIndex : ℤ := -1

/-- The output streams of a user or a client. -/
structure StreamOwner (H : Type) (size : ℕ) where
  /-- Where streams take their places. -/
  streamPool : GuacPool
  /-- All streams, open or closed. -/
  outputStreams : Vector (GuacStream H) size

/-- The output streams as guac_user_alloc and guac_client_alloc make them. -/
def freshOwner : StreamOwner H size := ⟨guacPoolAlloc 0,Vector.replicate _ closedStream⟩

/-- The form of functions that allocate a stream: the place of the stream or
NULL. -/
def allocStream (name : ℤ→ℤ) (owner : StreamOwner H size) :
    Option (Option (Fin size)×StreamOwner H size) :=
  if owner.streamPool.active=size then some (none,owner)
  else
    let next := guacPoolNextInt owner.streamPool
    match validIndex size next.1 with
    | none => none
    | some stream => some (some stream,
        ⟨next.2,owner.outputStreams.set stream ⟨name next.1,none,none,none⟩⟩)

/-- The form of functions that free a stream. -/
def freeStream (place : ℤ→ℤ) (closed : ℤ) (stream : Fin size) (owner : StreamOwner H size) :
    StreamOwner H size :=
  ⟨guacPoolFreeInt (place (owner.outputStreams.get stream).index) owner.streamPool,
    owner.outputStreams.set stream { owner.outputStreams.get stream with index := closed }⟩

/-- The index of a user-level stream. -/
def userStreamIndex (place : ℤ) : ℤ := place*2

/-- The index of a client-level stream. -/
def clientStreamIndex (place : ℤ) : ℤ := place*2+1

/-- guac_user_alloc_stream. -/
def guacUserAllocStream (user : StreamOwner H guacUserMaxStreams) :
    Option (Option (Fin guacUserMaxStreams)×StreamOwner H guacUserMaxStreams) :=
  allocStream userStreamIndex user

/-- guac_user_free_stream. -/
def guacUserFreeStream (stream : Fin guacUserMaxStreams)
    (user : StreamOwner H guacUserMaxStreams) : StreamOwner H guacUserMaxStreams :=
  freeStream (fun index => index.tdiv 2) guacUserClosedStreamIndex stream user

/-- guac_client_alloc_stream. -/
def guacClientAllocStream (client : StreamOwner H guacClientMaxStreams) :
    Option (Option (Fin guacClientMaxStreams)×StreamOwner H guacClientMaxStreams) :=
  allocStream clientStreamIndex client

/-- The output streams of an owner and those allocated and not freed. -/
structure OwnerSession (H : Type) (size : ℕ) where
  owner : StreamOwner H size
  /-- The live streams. -/
  live : List (Fin size)

/-- An owner without live streams. -/
def freshOwnerSession : OwnerSession H size := ⟨freshOwner,[]⟩

/-- The session after a stream was allocated, if its place is in the array. -/
def OwnerSession.alloc (name : ℤ→ℤ) (session : OwnerSession H size) :
    Option (OwnerSession H size) :=
  (allocStream name session.owner).map fun result =>
    match result.1 with
    | none => { session with owner := result.2 }
    | some stream => ⟨result.2,stream::session.live⟩

/-- The session after a live stream was freed. -/
def OwnerSession.free (place : ℤ→ℤ) (closed : ℤ) (stream : Fin size)
    (session : OwnerSession H size) : Option (OwnerSession H size) :=
  if stream∈session.live then
    some ⟨freeStream place closed stream session.owner,session.live.erase stream⟩
  else none

/-- A client and its users. -/
structure StreamSession (H υ : Type) where
  client : OwnerSession H guacClientMaxStreams
  /-- Every user. -/
  users : υ→OwnerSession H guacUserMaxStreams

/-- A client and users that have just been allocated. -/
def freshStreams : StreamSession H υ := ⟨freshOwnerSession,fun _ => freshOwnerSession⟩

/-- Calls on streams. -/
inductive StreamCall (υ : Type)
  /-- guac_user_alloc_stream. -/
  | userAlloc (user : υ)
  /-- guac_user_free_stream. -/
  | userFree (user : υ) (stream : Fin guacUserMaxStreams)
  /-- guac_client_alloc_stream. -/
  | clientAlloc
  /-- guac_client_free_stream. -/
  | clientFree (stream : Fin guacClientMaxStreams)

/-- One call; only live streams are freed. -/
def streamStep [DecidableEq υ] : StreamCall υ→StreamSession H υ→Option (StreamSession H υ)
  | .userAlloc user, session =>
    ((session.users user).alloc userStreamIndex).map fun owned =>
      { session with users := update session.users user owned }
  | .userFree user stream, session =>
    ((session.users user).free (fun index => index.tdiv 2) guacUserClosedStreamIndex stream).map
      fun owned => { session with users := update session.users user owned }
  | .clientAlloc, session =>
    (session.client.alloc clientStreamIndex).map fun owned => { session with client := owned }
  | .clientFree stream, session =>
    (session.client.free (fun index => (index-1).tdiv 2) guacClientClosedStreamIndex stream).map
      fun owned => { session with client := owned }

/-- What an owner promises about its streams. -/
structure OwnerLaw (name : ℤ→ℤ) (session : OwnerSession H size) : Prop where
  /-- The next stream has a place in the array, or there is none because all
  places are taken. -/
  next : ∃ stream owner, allocStream name session.owner=some (stream,owner) ∧
    (stream=none ↔ session.live.length=size)
  /-- A live stream has the index of its place. -/
  index : ∀ stream∈session.live, (session.owner.outputStreams.get stream).index=name stream.val
  /-- Live streams have distinct indices. -/
  nodup : (session.live.map fun stream => (session.owner.outputStreams.get stream).index).Nodup

/-- The pool has handed out the places of the live streams, and never more of
them than there are. -/
structure Allotted (name : ℤ→ℤ) (session : OwnerSession H size) (history : PoolHistory) :
    Prop where
  pool : history.pool=session.owner.streamPool
  /-- The live integers are the places of live streams. -/
  live : history.live=session.live.map fun stream => (stream.val : ℤ)
  /-- The pool has counted them. -/
  counted : PoolCounted history
  /-- Integers are reused from the beginning. -/
  minSize : history.pool.minSize=0
  /-- There are places for all of them. -/
  peak : history.peak ≤ size
  /-- A live stream has the index of its place. -/
  index : ∀ stream∈session.live, (session.owner.outputStreams.get stream).index=name stream.val

/-- A fresh owner has handed out nothing. -/
theorem freshOwnerSession_allotted (name : ℤ→ℤ) :
    Allotted name (freshOwnerSession : OwnerSession H size) (freshPool 0) where
  pool := rfl
  live := rfl
  counted := freshPool_counted (by omega)
  minSize := rfl
  peak := Nat.zero_le size
  index stream hstream := by cases hstream

variable {session : OwnerSession H size} {history : PoolHistory}

section

variable {name : ℤ→ℤ} (h : Allotted name session history)

include h

/-- As many integers are live as streams. -/
theorem Allotted.length_live : history.live.length=session.live.length := by
  rw [h.live,List.length_map]

/-- There are no more live streams than places. -/
theorem Allotted.length_le : session.live.length ≤ size := by
  rw [←h.length_live]
  exact h.counted.peak.trans h.peak

/-- The pool is found full when all places are taken. -/
theorem Allotted.active_iff : session.owner.streamPool.active=size ↔ session.live.length=size := by
  rw [←h.pool,h.counted.active,h.length_live]
  exact Nat.cast_inj

/-- While a place is free, the pool hands out one inside the array. -/
theorem Allotted.next (hsize : size<2^31) (hfree : session.live.length<size) :
    PoolCounted history.next ∧ ∃ stream : Fin size,
      (guacPoolNextInt session.owner.streamPool).1=stream.val ∧ stream ∉ session.live := by
  have hlength := h.length_live
  have hcounted : PoolCounted history.next := by
    refine (@poolStep_counted .next _ _ ⟨h.counted,?_⟩ rfl ?_).1
    · omega
    · rw [PoolHistory.next,List.length_cons]
      omega
  have haccounts := hcounted.accounts
  have hplace := haccounts.counted _ (List.mem_append_left _ (List.mem_cons_self ..))
  have hbound := hcounted.bound
  have hminSize := h.minSize
  have hpeak := h.peak
  simp only [PoolHistory.next,guacPoolNextInt_minSize,hminSize] at hplace hbound
  rw [h.pool] at hplace hbound
  have hlt : (guacPoolNextInt session.owner.streamPool).1<size := by omega
  refine ⟨hcounted,⟨(guacPoolNextInt session.owner.streamPool).1.toNat,by omega⟩,?_,fun hmem => ?_⟩
  · simp [hplace.1]
  · have hnodup := (List.nodup_append.mp haccounts.nodup).1
    simp only [PoolHistory.next,h.pool,h.live] at hnodup
    refine (List.nodup_cons.mp hnodup).1 (List.mem_map.mpr ⟨_,hmem,?_⟩)
    simp [hplace.1]

/-- While a place is free, a stream there is allocated. -/
theorem Allotted.allocates (hsize : size<2^31) (hfree : session.live.length<size) :
    ∃ stream owner history', allocStream name session.owner=some (some stream,owner) ∧
      stream ∉ session.live ∧
      owner.outputStreams=session.owner.outputStreams.set stream ⟨name stream.val,none,none,none⟩ ∧
      Allotted name ⟨owner,stream::session.live⟩ history' := by
  have hnotFull : session.owner.streamPool.active≠size :=
    fun hfull => hfree.ne (h.active_iff.mp hfull)
  obtain ⟨hcounted,stream,hstream,hfresh⟩ := h.next hsize hfree
  refine ⟨stream,⟨(guacPoolNextInt session.owner.streamPool).2,
    session.owner.outputStreams.set stream ⟨name stream.val,none,none,none⟩⟩,history.next,
    ?_,hfresh,rfl,?_⟩
  · rw [allocStream,if_neg hnotFull]
    simp only [hstream,validIndex_val]
  constructor
  · simp only [PoolHistory.next,h.pool]
  · simp only [PoolHistory.next,h.pool,h.live,hstream,List.map_cons]
  · exact hcounted
  · simp only [PoolHistory.next,guacPoolNextInt_minSize,h.minSize]
  · have hpeak := h.peak
    rw [PoolHistory.next,h.length_live]
    exact max_le hpeak (by omega)
  · intro other hother
    rcases List.mem_cons.mp hother with rfl | hother
    · exact congrArg GuacStream.index (get_set_self _ _ _)
    · have hne : other≠stream := fun heq => hfresh (heq ▸ hother)
      rw [get_set_of_ne hne]
      exact h.index other hother

/-- A stream that is allocated keeps the places allotted. -/
theorem Allotted.alloc (hsize : size<2^31) :
    ∃ session' history', session.alloc name=some session' ∧ Allotted name session' history' := by
  by_cases hfull : session.live.length=size
  · refine ⟨session,history,?_,h⟩
    rw [OwnerSession.alloc,allocStream,if_pos (h.active_iff.mpr hfull)]
    rfl
  · have hlength := h.length_le
    obtain ⟨stream,owner,history',halloc,-,-,hallotted⟩ := h.allocates hsize (by omega)
    refine ⟨_,history',?_,hallotted⟩
    rw [OwnerSession.alloc,halloc]
    rfl

/-- Only the pool and the indices matter. -/
theorem Allotted.congr {owner : StreamOwner H size}
    (hpool : owner.streamPool=session.owner.streamPool)
    (hindex : ∀ stream, (owner.outputStreams.get stream).index=
      (session.owner.outputStreams.get stream).index) :
    Allotted name ⟨owner,session.live⟩ history where
  pool := h.pool.trans hpool.symm
  live := h.live
  counted := h.counted
  minSize := h.minSize
  peak := h.peak
  index stream hstream := (hindex stream).trans (h.index stream hstream)

end

/-- A stream that is freed keeps the places allotted. -/
theorem Allotted.free {name place : ℤ→ℤ} (hplace : ∀ i, place (name i)=i) {closed : ℤ}
    {session' : OwnerSession H size} (h : Allotted name session history) (hsize : size<2^31)
    {stream : Fin size} (hfree : session.free place closed stream=some session') :
    ∃ history', Allotted name session' history' := by
  unfold OwnerSession.free at hfree
  by_cases hlive : stream∈session.live
  · rw [if_pos hlive,freeStream,h.index stream hlive,hplace] at hfree
    cases hfree
    have hlength := h.length_live
    have hle := h.length_le
    have hmem : (stream.val : ℤ)∈history.live := by
      rw [h.live]
      exact List.mem_map_of_mem hlive
    have hnodup : session.live.Nodup := by
      have hints := h.counted.law.nodup
      rw [h.live] at hints
      exact hints.of_map _
    refine ⟨_,?_,?_,h.counted.free hmem (by omega),h.minSize,h.peak,fun other hother => ?_⟩
    · simp only [h.pool]
    · dsimp only
      rw [h.live,List.map_erase]
      intro i j hij
      exact Fin.ext (Int.ofNat.inj hij)
    · have hne : other≠stream := fun heq => hnodup.not_mem_erase (heq ▸ hother)
      rw [get_set_of_ne hne]
      exact h.index other (List.mem_of_mem_erase hother)
  · rw [if_neg hlive] at hfree
    cases hfree

/-- An owner whose places are allotted keeps its promise. -/
theorem Allotted.law {name : ℤ→ℤ} (hname : Function.Injective name)
    (h : Allotted name session history) (hsize : size<2^31) : OwnerLaw name session where
  next := by
    unfold allocStream
    by_cases hfull : session.owner.streamPool.active=size
    · rw [if_pos hfull]
      exact ⟨_,_,rfl,iff_of_true rfl (h.active_iff.mp hfull)⟩
    · have hlength := h.length_le
      have hne : session.live.length≠size := fun heq => hfull (h.active_iff.mpr heq)
      obtain ⟨-,stream,hstream,-⟩ := h.next hsize (by omega)
      rw [if_neg hfull]
      dsimp only
      rw [hstream,validIndex_val]
      exact ⟨_,_,rfl,iff_of_false (Option.some_ne_none _) hne⟩
  index := h.index
  nodup := by
    have hints := h.counted.law.nodup
    rw [h.live] at hints
    have hindices : (session.live.map fun stream => name stream.val).Nodup := by
      have hmap := hints.map hname
      rwa [List.map_map] at hmap
    rwa [List.map_congr_left h.index]

/-- All places are allotted. -/
structure StreamsAllotted (session : StreamSession H υ) : Prop where
  /-- Those of the client. -/
  client : ∃ history, Allotted clientStreamIndex session.client history
  /-- Those of every user. -/
  users : ∀ user, ∃ history, Allotted userStreamIndex (session.users user) history

/-- The place of a user-level stream is found again. -/
theorem userStreamIndex_place (i : ℤ) : (userStreamIndex i).tdiv 2=i := by
  exact Int.mul_tdiv_cancel i (by decide)

/-- The place of a client-level stream is found again. -/
theorem clientStreamIndex_place (i : ℤ) : (clientStreamIndex i-1).tdiv 2=i := by
  rw [clientStreamIndex,Int.add_sub_cancel]
  exact Int.mul_tdiv_cancel i (by decide)

/-- A call for one user keeps the places allotted. -/
theorem StreamsAllotted.update [DecidableEq υ] {session : StreamSession H υ}
    (h : StreamsAllotted session) (user : υ) {owned : OwnerSession H guacUserMaxStreams}
    (howned : Allotted userStreamIndex owned history) :
    StreamsAllotted { session with users := update session.users user owned } where
  client := h.client
  users other := by
    by_cases heq : other=user
    · rw [heq]
      dsimp only
      rw [update_self]
      exact ⟨history,howned⟩
    · dsimp only
      rw [update_of_ne heq]
      exact h.users other

/-- Every call keeps the places allotted. -/
theorem streamStep_allotted [DecidableEq υ] {call : StreamCall υ}
    {session session' : StreamSession H υ} (h : StreamsAllotted session)
    (hstep : streamStep call session=some session') : StreamsAllotted session' := by
  obtain ⟨clientHistory,hclient⟩ := h.client
  cases call with
  | userAlloc user =>
    obtain ⟨history,huser⟩ := h.users user
    obtain ⟨owned,history',halloc,howned⟩ := huser.alloc (by decide)
    rw [streamStep,halloc] at hstep
    cases hstep
    exact h.update user howned
  | userFree user stream =>
    obtain ⟨history,huser⟩ := h.users user
    obtain ⟨owned,hfree,rfl⟩ := Option.map_eq_some_iff.mp hstep
    obtain ⟨history',howned⟩ := huser.free userStreamIndex_place (by decide) hfree
    exact h.update user howned
  | clientAlloc =>
    obtain ⟨owned,history',halloc,howned⟩ := hclient.alloc (by decide)
    rw [streamStep,halloc] at hstep
    cases hstep
    exact ⟨⟨history',howned⟩,h.users⟩
  | clientFree stream =>
    obtain ⟨owned,hfree,rfl⟩ := Option.map_eq_some_iff.mp hstep
    obtain ⟨history',howned⟩ := hclient.free clientStreamIndex_place (by decide) hfree
    exact ⟨⟨history',howned⟩,h.users⟩

/-- In every state that calls can reach, a stream is refused exactly when all
places of its owner are taken, and live streams of the client and of one user
have the distinct indices of their places, odd ones and even ones. -/
theorem outputStreams_distinct [DecidableEq υ] (calls : List (StreamCall υ))
    {session : StreamSession H υ} (hrun : run streamStep calls freshStreams=some session) :
    OwnerLaw clientStreamIndex session.client ∧
      ∀ user, OwnerLaw userStreamIndex (session.users user) ∧
        ∀ stream∈(session.users user).live, ∀ other∈session.client.live,
          ((session.users user).owner.outputStreams.get stream).index≠
            (session.client.owner.outputStreams.get other).index := by
  have hfresh : StreamsAllotted (freshStreams : StreamSession H υ) :=
    ⟨⟨_,freshOwnerSession_allotted _⟩,fun _ => ⟨_,freshOwnerSession_allotted _⟩⟩
  have hallotted : StreamsAllotted session :=
    run_visiting (fun h hstep _ => streamStep_allotted h hstep) hfresh (fun _ _ _ _ => trivial) hrun
  obtain ⟨_,hclient⟩ := hallotted.client
  have heven : Function.Injective userStreamIndex := fun i j hij => by
    unfold userStreamIndex at hij
    omega
  have hodd : Function.Injective clientStreamIndex := fun i j hij => by
    unfold clientStreamIndex at hij
    omega
  refine ⟨hclient.law hodd (by decide),fun user => ?_⟩
  obtain ⟨_,huser⟩ := hallotted.users user
  refine ⟨huser.law heven (by decide),fun stream hstream other hother => ?_⟩
  rw [huser.index stream hstream,hclient.index other hother,userStreamIndex,clientStreamIndex]
  omega

/-- Two users and a client with a stream each, after another was freed. -/
theorem outputStreams_distinct_two : ∃ session : StreamSession Empty Bool,
      run streamStep [.userAlloc true,.clientAlloc,.userAlloc false,.userAlloc true,
        .userFree true 0] freshStreams=some session ∧
      OwnerLaw clientStreamIndex session.client :=
  ⟨_,rfl,(outputStreams_distinct [.userAlloc true,.clientAlloc,.userAlloc false,
    .userAlloc true,.userFree true 0] rfl).1⟩

end GuacServer.OutputStreams
