import Mathlib.Data.Int.Notation
import GuacServer.StateRuns

/-!
# Freeing a client within a time limit

guacd frees the client of a connection in a thread of its own and waits for
that thread on a condition, once and only until a deadline. The wait is not
preceded by a test of the flag and not repeated, so that it tells the truth as
long as the thread signals no earlier than it is waited for, nothing else ends
the wait, and the deadline does not fall between the end of the free operation
and the signal.
-/

namespace GuacServer.TimedFree

open StateRuns

/-- The threads that lock the mutex of a free operation. -/
inductive Party where
  | waiter
  | freer
  deriving DecidableEq

/-- Where guacd_timed_client_free is. -/
inductive Waiter where
  /-- At its start. -/
  | starting
  /-- The deadline is calculated. -/
  | timed
  /-- The thread is created. -/
  | created
  /-- The mutex is locked. -/
  | locked
  /-- In pthread_cond_timedwait. -/
  | waiting
  /-- Woken, and about to lock the mutex again to return from pthread_cond_timedwait, with
  an error or not. -/
  | woken (error : Bool)
  | returned (value : ℤ)
  deriving DecidableEq

/-- Where guacd_client_free_thread is. -/
inductive Freer where
  /-- Not created. -/
  | absent
  /-- In guac_client_free. -/
  | freeing
  /-- Behind guac_client_free. -/
  | freed
  /-- The mutex is locked. -/
  | locked
  /-- The flag is set. -/
  | completed
  /-- The condition is signalled. -/
  | broadcast
  /-- The mutex is unlocked. -/
  | done
  deriving DecidableEq

/-- A free operation: the structure that the threads share, the threads and the time. -/
structure FreeOperation where
  /-- completed_mutex. -/
  mutex : Option Party
  /-- completed. -/
  completed : Bool
  /-- guacd_timed_client_free. -/
  waiter : Waiter
  /-- guacd_client_free_thread. -/
  freer : Freer
  /-- Whether the deadline has passed. -/
  expired : Bool
  /-- Whether guac_client_free returned before the deadline. -/
  freedInTime : Bool
  deriving DecidableEq

/-- What happens next. -/
inductive Event where
  /-- gettimeofday, which may fail. -/
  | getTime (success : Bool)
  /-- pthread_create, which may fail. -/
  | create (success : Bool)
  /-- guacd_timed_client_free locks the mutex. -/
  | lock
  /-- It begins to wait, which unlocks the mutex. -/
  | wait
  /-- It is woken though nothing was signalled. -/
  | wake
  /-- It is woken after the deadline. -/
  | timeout
  /-- It locks the mutex again and returns. -/
  | finish
  /-- guac_client_free returns. -/
  | free
  /-- guacd_client_free_thread locks the mutex. -/
  | freerLock
  /-- It sets the flag. -/
  | complete
  /-- pthread_cond_broadcast, which wakes who waits. -/
  | broadcast
  /-- It unlocks the mutex. -/
  | freerUnlock
  /-- The deadline passes. -/
  | expire
  deriving DecidableEq

/-- One step of a thread or of the time. -/
def step : Event→FreeOperation→Option FreeOperation
  | .getTime success, op =>
    if op.waiter=.starting then
      some { op with waiter := if success then .timed else .returned 1 }
    else none
  | .create success, op =>
    if op.waiter=.timed then
      some (if success then { op with waiter := .created, freer := .freeing }
        else { op with waiter := .returned 1 })
    else none
  | .lock, op =>
    if op.waiter=.created ∧ op.mutex=none then
      some { op with waiter := .locked, mutex := some .waiter }
    else none
  | .wait, op =>
    if op.waiter=.locked then some { op with waiter := .waiting, mutex := none } else none
  | .wake, op =>
    if op.waiter=.waiting then some { op with waiter := .woken false } else none
  | .timeout, op =>
    if op.waiter=.waiting ∧ op.expired=true then some { op with waiter := .woken true }
    else none
  | .finish, op =>
    if op.mutex=none then
      match op.waiter with
      | .woken error =>
        some { op with
          mutex := some .waiter
          waiter := .returned (if error=true ∨ op.completed=false then 1 else 0) }
      | _ => none
    else none
  | .free, op =>
    if op.freer=.freeing then some { op with freer := .freed, freedInTime := !op.expired }
    else none
  | .freerLock, op =>
    if op.freer=.freed ∧ op.mutex=none then
      some { op with freer := .locked, mutex := some .freer }
    else none
  | .complete, op =>
    if op.freer=.locked then some { op with freer := .completed, completed := true } else none
  | .broadcast, op =>
    if op.freer=.completed then
      some { op with
        freer := .broadcast
        waiter := if op.waiter=.waiting then .woken false else op.waiter }
    else none
  | .freerUnlock, op =>
    if op.freer=.broadcast then some { op with freer := .done, mutex := none } else none
  | .expire, op =>
    if op.waiter=.starting then none else some { op with expired := true }

/-- A free operation when guacd_timed_client_free is called. -/
def begun : FreeOperation := ⟨none,false,.starting,.absent,false,false⟩

/-- What guacd_timed_client_free returned tells whether the client was freed in time. -/
def Truthful (op : FreeOperation) : Prop :=
  ∀ value, op.waiter=.returned value→(value=0 ↔ op.freedInTime=true)

/-- guacd_timed_client_free has not stopped waiting. -/
def Waiter.unwoken : Waiter→Bool
  | .woken _ => false
  | .returned _ => false
  | _ => true

/-- guacd_timed_client_free no longer looks at the flag. -/
def Waiter.decided : Waiter→Bool
  | .woken error => error
  | .returned _ => true
  | _ => false

/-- guac_client_free has returned, and the flag is not signalled yet. -/
def Freer.handingOver : Freer→Bool
  | .freed => true
  | .locked => true
  | .completed => true
  | _ => false

/-- Before the thread is created nothing is decided. -/
theorem early_undecided {waiter : Waiter} (h : waiter=.starting ∨ waiter=.timed) :
    waiter.unwoken=true ∧ waiter.decided=false := by
  rcases h with rfl | rfl <;> exact ⟨rfl,rfl⟩

/-- A wait that has not ended has decided nothing. -/
theorem unwoken_undecided {waiter : Waiter} (h : waiter.unwoken=true) : waiter.decided=false := by
  cases waiter <;> first | rfl | cases h

/-- The steps with which the wait can be relied on. -/
structure Prompt (event : Event) (op : FreeOperation) : Prop where
  /-- The flag is signalled to who waits for it, or no longer does. -/
  signal : event=.broadcast → op.waiter=.waiting ∨ op.waiter.unwoken=false
  /-- Nothing else ends the wait before the flag is set or the deadline has passed. -/
  wake : event=.wake → op.completed=true ∨ op.expired=true
  /-- The deadline does not pass between the end of guac_client_free and the signal. -/
  expire : event=.expire → op.freer.handingOver=true → op.waiter.unwoken=false
  /-- guac_client_free does not return later than the deadline while that still counts. -/
  free : event=.free → op.expired=true → op.waiter.decided=true

/-- What holds of a free operation as long as every step is prompt. -/
structure Good (op : FreeOperation) : Prop where
  /-- The thread is created after the deadline is calculated. -/
  absent : op.waiter=.starting ∨ op.waiter=.timed → op.freer=.absent
  /-- The flag is set by the thread. -/
  completed : op.completed=true ↔ op.freer=.completed ∨ op.freer=.broadcast ∨ op.freer=.done
  /-- The client is not freed before guac_client_free returns. -/
  unfreed : op.freer=.absent ∨ op.freer=.freeing → op.freedInTime=false
  /-- Until the wait ends, either the client is not freed, or it is freed in time and the
  signal is to come before the deadline. -/
  unwoken : op.waiter.unwoken=true→(op.freer=.absent ∨ op.freer=.freeing) ∨
    (op.freer.handingOver=true ∧ op.freedInTime=true ∧ op.expired=false)
  /-- A wait that ends without an error finds the flag set in time, or the deadline has
  passed and the client is not freed. -/
  woken : op.waiter=.woken false→(op.completed=true ∧ op.freedInTime=true) ∨
    (op.expired=true ∧ (op.freer=.absent ∨ op.freer=.freeing))
  /-- A wait that ends with an error. -/
  timedOut : op.waiter=.woken true → op.expired=true ∧ op.freedInTime=false
  /-- What was returned is true. -/
  truthful : Truthful op
  /-- It stays true. -/
  returned : ∀ value, op.waiter=.returned value → value≠0 → op.expired=true ∨ op.freer=.absent

theorem good_begun : Good begun := by
  constructor <;> simp [begun,Waiter.unwoken,Truthful]

variable {op : FreeOperation}

/-- The flag is not set before guac_client_free returns. -/
theorem Good.incomplete (h : Good op) (hfreer : op.freer=.absent ∨ op.freer=.freeing) :
    op.completed=false ∧ op.freedInTime=false := by
  refine ⟨Bool.eq_false_iff.mpr fun hset => ?_,h.unfreed hfreer⟩
  have hphase := h.completed.mp hset
  rcases hfreer with hfreer | hfreer <;> simp [hfreer] at hphase

/-- The wait ends early. -/
theorem Good.wake (h : Good op) (hwaiting : op.waiter=.waiting)
    (hwake : op.completed=true ∨ op.expired=true) :
    Good { op with waiter := .woken false } := by
  have hunwoken := h.unwoken (hwaiting ▸ rfl)
  have hended : (op.completed=true ∧ op.freedInTime=true) ∨
      (op.expired=true ∧ (op.freer=.absent ∨ op.freer=.freeing)) := by
    rcases hunwoken with hfreer | ⟨-,hfreed,hexpired⟩
    · have hincomplete := h.incomplete hfreer
      exact Or.inr ⟨hwake.resolve_left (by simp [hincomplete.1]),hfreer⟩
    · exact Or.inl ⟨hwake.resolve_right (by simp [hexpired]),hfreed⟩
  constructor
  case woken => exact fun _ => hended
  case completed => exact h.completed
  case unfreed => exact h.unfreed
  all_goals simp [Waiter.unwoken,Truthful]

/-- The wait ends at the deadline. -/
theorem Good.timeout (h : Good op) (hwaiting : op.waiter=.waiting)
    (hexpired : op.expired=true) : Good { op with waiter := .woken true } := by
  have hunfreed : op.freedInTime=false := by
    rcases h.unwoken (hwaiting ▸ rfl) with hfreer | ⟨-,-,hnot⟩
    · exact h.unfreed hfreer
    · rw [hexpired] at hnot
      cases hnot
  constructor
  case timedOut => exact fun _ => ⟨hexpired,hunfreed⟩
  case completed => exact h.completed
  case unfreed => exact h.unfreed
  all_goals simp [Waiter.unwoken,Truthful]

/-- guacd_timed_client_free returns. -/
theorem Good.finish (h : Good op) {error : Bool} (hwoken : op.waiter=.woken error) :
    Good { op with
      mutex := some .waiter
      waiter := .returned (if error=true ∨ op.completed=false then 1 else 0) } := by
  have hvalue : ((if error=true ∨ op.completed=false then (1 : ℤ) else 0)=0 ↔
      op.freedInTime=true) ∧ (op.freedInTime=false → op.expired=true) := by
    cases error with
    | true =>
      obtain ⟨hexpired,hunfreed⟩ := h.timedOut hwoken
      simp [hexpired,hunfreed]
    | false =>
      rcases h.woken hwoken with ⟨hcompleted,hfreed⟩ | ⟨hexpired,hfreer⟩
      · simp [hcompleted,hfreed]
      · simp [h.incomplete hfreer,hexpired]
  constructor
  case truthful =>
    rintro value hreturned
    cases hreturned
    exact hvalue.1
  case returned =>
    rintro value hreturned hvalue'
    cases hreturned
    exact Or.inl (hvalue.2 (Bool.eq_false_iff.mpr fun hfreed => hvalue' (hvalue.1.mpr hfreed)))
  case completed => exact h.completed
  case unfreed => exact h.unfreed
  all_goals simp [Waiter.unwoken]

/-- guac_client_free returns. -/
theorem Good.free (h : Good op) (hfreeing : op.freer=.freeing)
    (hprompt : op.expired=true → op.waiter.decided=true) :
    Good { op with freer := .freed, freedInTime := !op.expired } := by
  have hunset := (h.incomplete (Or.inr hfreeing)).1
  cases hexpired : op.expired with
  | false =>
    -- Nothing was decided yet, since the deadline has not passed.
    constructor
    case absent =>
      intro hwaiter
      have habsent := h.absent hwaiter
      rw [hfreeing] at habsent
      cases habsent
    case truthful =>
      intro value hreturned
      have htrue := h.truthful value hreturned
      rw [(h.incomplete (Or.inr hfreeing)).2] at htrue
      have hnonzero : value≠0 := fun hzero => by simpa using htrue.mp hzero
      rcases h.returned value hreturned hnonzero with hpassed | habsent
      · rw [hexpired] at hpassed
        cases hpassed
      · rw [hfreeing] at habsent
        cases habsent
    case woken =>
      intro hwaiter
      rcases h.woken hwaiter with ⟨hset,-⟩ | ⟨hpassed,-⟩
      · rw [hunset] at hset
        cases hset
      · rw [hexpired] at hpassed
        cases hpassed
    case timedOut =>
      intro hwaiter
      have hpassed := (h.timedOut hwaiter).1
      rw [hexpired] at hpassed
      cases hpassed
    case returned =>
      intro value hreturned hnonzero
      rcases h.returned value hreturned hnonzero with hpassed | habsent
      · rw [hexpired] at hpassed
        cases hpassed
      · rw [hfreeing] at habsent
        cases habsent
    all_goals simp [hunset,Freer.handingOver]
  | true =>
    -- What was decided is that the client was not freed in time, and that stays so.
    have hdecided := hprompt hexpired
    have hunfreed := (h.incomplete (Or.inr hfreeing)).2
    constructor
    case truthful =>
      intro value hreturned
      have htrue := h.truthful value hreturned
      rwa [hunfreed] at htrue
    case absent =>
      intro hwaiter
      rw [(early_undecided hwaiter).2] at hdecided
      cases hdecided
    case unwoken =>
      intro hunwoken
      rw [unwoken_undecided hunwoken] at hdecided
      cases hdecided
    case woken =>
      intro hwaiter
      rw [show op.waiter=_ from hwaiter] at hdecided
      cases hdecided
    all_goals simp [hunset]

/-- The flag is signalled. -/
theorem Good.broadcast (h : Good op) (hcompleted : op.freer=.completed)
    (hprompt : op.waiter=.waiting ∨ op.waiter.unwoken=false) :
    Good { op with
      freer := .broadcast
      waiter := if op.waiter=.waiting then .woken false else op.waiter } := by
  have hset : op.completed=true := h.completed.mpr (Or.inl hcompleted)
  by_cases hwaiting : op.waiter=.waiting
  · have hfreed : op.freedInTime=true := by
      rcases h.unwoken (hwaiting ▸ rfl) with hfreer | ⟨-,hfreed,-⟩
      · rw [hcompleted] at hfreer
        rcases hfreer with hfreer | hfreer <;> cases hfreer
      · exact hfreed
    simp only [if_pos hwaiting]
    constructor <;> simp [hset,hfreed,Waiter.unwoken,Truthful]
  · have hended := hprompt.resolve_left hwaiting
    simp only [if_neg hwaiting]
    constructor
    case absent =>
      intro hwaiter
      rw [(early_undecided hwaiter).1] at hended
      cases hended
    case unwoken => simp [hended]
    case woken =>
      intro hwoken
      left
      rcases h.woken hwoken with hfreed | ⟨-,hfreer⟩
      · exact hfreed
      · rw [hcompleted] at hfreer
        rcases hfreer with hfreer | hfreer <;> cases hfreer
    case timedOut => exact h.timedOut
    case truthful => exact h.truthful
    case returned =>
      intro value hreturned hnonzero
      rcases h.returned value hreturned hnonzero with hexpired | habsent
      · exact Or.inl hexpired
      · rw [hcompleted] at habsent
        cases habsent
    all_goals simp [hset]

/-- The deadline passes. -/
theorem Good.expire (h : Good op) (hprompt : op.freer.handingOver=true → op.waiter.unwoken=false) :
    Good { op with expired := true } := by
  constructor
  case unwoken =>
    intro hunwoken
    rcases h.unwoken hunwoken with hfreer | ⟨hhanding,-⟩
    · exact Or.inl hfreer
    · rw [hprompt hhanding] at hunwoken
      cases hunwoken
  case woken => exact fun hwoken => (h.woken hwoken).imp_right fun hended => ⟨rfl,hended.2⟩
  case timedOut => exact fun hwoken => ⟨rfl,(h.timedOut hwoken).2⟩
  case returned => exact fun _ _ _ => Or.inl rfl
  case absent => exact h.absent
  case completed => exact h.completed
  case unfreed => exact h.unfreed
  case truthful => exact h.truthful

/-- guacd_timed_client_free goes on with a wait that has not ended. -/
theorem Good.goOn (h : Good op) {waiter : Waiter} (hunwoken : op.waiter.unwoken=true)
    (hwaiter : waiter.unwoken=true)
    (habsent : waiter=.starting ∨ waiter=.timed → op.freer=.absent) (mutex : Option Party) :
    Good { op with waiter := waiter, mutex := mutex } := by
  constructor
  case absent => exact habsent
  case completed => exact h.completed
  case unfreed => exact h.unfreed
  case unwoken => exact fun _ => h.unwoken hunwoken
  case woken =>
    intro hwoken
    rw [show waiter=_ from hwoken] at hwaiter
    cases hwaiter
  case timedOut =>
    intro hwoken
    rw [show waiter=_ from hwoken] at hwaiter
    cases hwaiter
  case truthful =>
    intro value hreturned
    rw [show waiter=_ from hreturned] at hwaiter
    cases hwaiter
  case returned =>
    intro value hreturned
    rw [show waiter=_ from hreturned] at hwaiter
    cases hwaiter

/-- It returns an error if there is no thread. -/
theorem Good.giveUp (h : Good op) (habsent : op.freer=.absent) :
    Good { op with waiter := .returned 1 } := by
  have hunfreed := h.unfreed (Or.inl habsent)
  constructor
  case completed => exact h.completed
  case unfreed => exact h.unfreed
  case returned => exact fun _ _ _ => Or.inr habsent
  all_goals simp [Waiter.unwoken,Truthful,hunfreed]

/-- The thread is created. -/
theorem Good.create (h : Good op) (habsent : op.freer=.absent) :
    Good { op with waiter := .created, freer := .freeing } := by
  obtain ⟨hunset,hunfreed⟩ := h.incomplete (Or.inl habsent)
  constructor <;> simp [Waiter.unwoken,Truthful,hunset,hunfreed]

/-- The thread goes on after guac_client_free has returned. -/
theorem Good.advance (h : Good op) {freer : Freer} {completed : Bool}
    (hold : ¬ (op.freer=.absent ∨ op.freer=.freeing))
    (hnew : ¬ (freer=.absent ∨ freer=.freeing))
    (hcompleted : completed=true ↔ freer=.completed ∨ freer=.broadcast ∨ freer=.done)
    (hkept : op.completed=true → completed=true)
    (hhanding : op.freer.handingOver=true → freer.handingOver=true) (mutex : Option Party) :
    Good { op with freer := freer, completed := completed, mutex := mutex } := by
  constructor
  case absent => exact fun hwaiter => absurd (Or.inl (h.absent hwaiter)) hold
  case completed => exact hcompleted
  case unfreed => exact fun hfreer => absurd hfreer hnew
  case unwoken =>
    intro hunwoken
    obtain ⟨hphase,hfreed⟩ := (h.unwoken hunwoken).resolve_left hold
    exact Or.inr ⟨hhanding hphase,hfreed⟩
  case woken =>
    intro hwoken
    rcases h.woken hwoken with ⟨hset,hfreed⟩ | ⟨-,hfreer⟩
    · exact Or.inl ⟨hkept hset,hfreed⟩
    · exact absurd hfreer hold
  case timedOut => exact h.timedOut
  case truthful => exact h.truthful
  case returned =>
    intro value hreturned hnonzero
    exact (h.returned value hreturned hnonzero).imp_right fun hfreer =>
      absurd (Or.inl hfreer) hold

/-- Every prompt step keeps what holds. -/
theorem Good.step {event : Event} {next : FreeOperation} (h : Good op) (hprompt : Prompt event op)
    (hnext : TimedFree.step event op=some next) : Good next := by
  cases event with simp only [TimedFree.step,Option.ite_none_right_eq_some,Option.some.injEq]
    at hnext
  | getTime success =>
    obtain ⟨hstarting,rfl⟩ := hnext
    have habsent := h.absent (Or.inl hstarting)
    cases success with
    | true => exact h.goOn (hstarting ▸ rfl) rfl (fun _ => habsent) op.mutex
    | false => exact h.giveUp habsent
  | create success =>
    obtain ⟨htimed,rfl⟩ := hnext
    have habsent := h.absent (Or.inr htimed)
    cases success with
    | true => exact h.create habsent
    | false => exact h.giveUp habsent
  | lock =>
    obtain ⟨⟨hcreated,-⟩,rfl⟩ := hnext
    exact h.goOn (hcreated ▸ rfl) rfl (by simp) _
  | wait =>
    obtain ⟨hlocked,rfl⟩ := hnext
    exact h.goOn (hlocked ▸ rfl) rfl (by simp) _
  | wake =>
    obtain ⟨hwaiting,rfl⟩ := hnext
    exact h.wake hwaiting (hprompt.wake rfl)
  | timeout =>
    obtain ⟨⟨hwaiting,hexpired⟩,rfl⟩ := hnext
    exact h.timeout hwaiting hexpired
  | finish =>
    obtain ⟨-,hnext⟩ := hnext
    cases hwaiter : op.waiter with simp only [hwaiter,reduceCtorEq] at hnext
    | woken error =>
      cases hnext
      exact h.finish hwaiter
  | free =>
    obtain ⟨hfreeing,rfl⟩ := hnext
    exact h.free hfreeing (hprompt.free rfl)
  | freerLock =>
    obtain ⟨⟨hfreed,-⟩,rfl⟩ := hnext
    have hunset := h.completed
    rw [hfreed] at hunset
    exact h.advance (by simp [hfreed]) (by simp) (by simpa using hunset) id (fun _ => rfl) _
  | complete =>
    obtain ⟨hlocked,rfl⟩ := hnext
    exact h.advance (by simp [hlocked]) (by simp) (by simp) (fun _ => rfl) (fun _ => rfl) op.mutex
  | broadcast =>
    obtain ⟨hcompleted,rfl⟩ := hnext
    exact h.broadcast hcompleted (hprompt.signal rfl)
  | freerUnlock =>
    obtain ⟨hbroadcast,rfl⟩ := hnext
    have hset := h.completed.mpr (Or.inr (Or.inl hbroadcast))
    exact h.advance (by simp [hbroadcast]) (by simp) (by simp [hset]) id
      (by simp [hbroadcast,Freer.handingOver]) none
  | expire =>
    split at hnext
    · cases hnext
    · cases hnext
      exact h.expire (hprompt.expire rfl)

/-- In every run of prompt steps, what guacd_timed_client_free returns is zero if and only if
the client was freed before the deadline. -/
theorem timedClientFree_truthful {events : List Event} {op : FreeOperation}
    (halong : Along step Prompt events begun) (hrun : run step events begun=some op) :
    Truthful op :=
  (run_invariant (fun h hprompt hnext => h.step hprompt hnext) good_begun halong hrun).truthful

instance decidablePrompt (event : Event) (op : FreeOperation) : Decidable (Prompt event op) :=
  decidable_of_iff ((event=.broadcast → op.waiter=.waiting ∨ op.waiter.unwoken=false) ∧
      (event=.wake → op.completed=true ∨ op.expired=true) ∧
      (event=.expire → op.freer.handingOver=true → op.waiter.unwoken=false) ∧
      (event=.free → op.expired=true → op.waiter.decided=true))
    ⟨fun h => ⟨h.1,h.2.1,h.2.2.1,h.2.2.2⟩,fun h => ⟨h.signal,h.wake,h.expire,h.free⟩⟩

/-- A client that is freed while its end is waited for. -/
def waitedFor : List Event :=
  [.getTime true,.create true,.lock,.wait,.free,.freerLock,.complete,.broadcast,
    .freerUnlock,.finish,.expire]

/-- Zero is returned for it. -/
theorem timedClientFree_truthful_waitedFor :
    ∃ op, run step waitedFor begun=some op ∧ op.waiter=.returned 0 ∧ Truthful op :=
  ⟨_,rfl,rfl,timedClientFree_truthful (by decide : Along step Prompt waitedFor begun) rfl⟩

/-- A client that is freed before its end is waited for: the signal reaches nobody. -/
theorem not_timedClientFree_truthful : ¬∀ (events : List Event) (op : FreeOperation),
      run step events begun=some op→Truthful op := by
  intro h
  have htruthful := h [.getTime true,.create true,.free,.freerLock,.complete,.broadcast,
    .freerUnlock,.lock,.wait,.expire,.timeout,.finish] _ rfl
  exact absurd ((htruthful 1 rfl).mpr rfl) (by decide)

end GuacServer.TimedFree
