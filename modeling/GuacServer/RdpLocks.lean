import Mathlib.Data.BitVec
import GuacServer.RdpModifiers

/-!
# Lock keys of the RDP keyboard

The local state of a lock key is toggled when it is pressed, and the remote state when its
scancode is, or it is set by a synchronize event. The two stay the same if each press of
a lock key is sent, and none is sent otherwise or after its new state was synchronised.
-/

namespace GuacServer.RdpKeyboard

open List StateRuns

/-- The keysyms of the lock keys. -/
def lockKeysyms : List ℤ := [0xFF14,0xFF2D,0xFF7F,0xFFE5]

/-- The lock keys that a scancode toggles. -/
def lockToggles (definition : ℤ→Option KeysymDesc) (scancode : Scancode) : LockFlags :=
  lockKeysyms.foldl (fun flags keysym =>
    if scancode.code≠0 ∧ (definition keysym).any (fun desc => desc.scancode=scancode) then
      flags ||| guacRdpKeyboardLockFlag keysym
    else flags) 0

/-- The remote lock state after an event. -/
def Event.locks (definition : ℤ→Option KeysymDesc) (flags : LockFlags) : Event→LockFlags
  | .synchronize lockFlags => lockFlags
  | .key _ scancode true => flags ^^^ lockToggles definition scancode
  | _ => flags

/-- The remote lock state after events. -/
def remoteLocks (definition : ℤ→Option KeysymDesc) (initial : LockFlags)
    (events : List Event) : LockFlags :=
  events.foldl (Event.locks definition) initial

/-- The remote lock state is the local one, once it was synchronised. -/
def Mirrored (keyboard : Keyboard) : Prop :=
  keyboard.synchronized=true→∀ initial,
    remoteLocks (definitionOf keyboard.keys) initial keyboard.events=keyboard.lockFlags

/-- The remote lock keys that an action toggles. -/
def Action.toggles (definition : ℤ→Option KeysymDesc) : Action→LockFlags
  | .key _ scancode true => lockToggles definition scancode
  | _ => 0

/-- An action leaves the local lock flags as they are. -/
def Action.KeepsLocks (lockFlags : LockFlags) : Action→Prop
  | .locks setFlags clearFlags => (lockFlags ||| setFlags) &&& ~~~clearFlags=lockFlags
  | _ => True

/-- The lock flags that differ after a call has changed the local state. -/
def pressedLock (call : ℤ×Bool) : LockFlags :=
  if call.2 then guacRdpKeyboardLockFlag call.1 else 0

/-- A key is defined and in a state. -/
def hasState (keys : ℕ→Key) (state : Bool) (keysym : ℤ) : Bool :=
  (guacRdpKeyboardGetKey keys keysym).any fun key => key.2 == state

/-- The keys that are sent together with a key: those that have to be pressed and are not,
those that have to be released and are not, or those that the key is typed with. -/
def companions (sentKeys : ℤ→List ℤ) (keys : ℕ→Key) (keysym : ℤ) (pressed : Bool) : List ℤ :=
  match scancodeKey keys keysym with
  | some (desc,_) =>
    (desc.setKeysyms.filter (hasState keys false)++
      desc.clearKeysyms.filter (hasState keys true)).flatMap sentKeys
  | none =>
    match decomposition keys keysym with
    | some (deadKeysym,baseKeysym) =>
      if pressed then sentKeys deadKeysym++sentKeys baseKeysym else []
    | none => []

/-- A key and those that are sent with it, with so many nested calls at most. -/
def sentKeys (keys : ℕ→Key) : ℕ→ℤ→List ℤ
  | 0, _ => []
  | depth+1, keysym => keysym::companions (sentKeys keys depth) keys keysym true

/-- A key is sent without a change of lock keys. -/
def keepsLocks (definition : ℤ→Option KeysymDesc) (lockFlags : LockFlags) (keysym : ℤ) : Prop :=
  ∀ desc∈definition keysym, desc.scancode.code≠0 →
    (lockFlags ||| desc.setLocks) &&& ~~~desc.clearLocks=lockFlags

instance (definition : ℤ→Option KeysymDesc) (lockFlags : LockFlags) (keysym : ℤ) :
    Decidable (keepsLocks definition lockFlags keysym) :=
  match h : definition keysym with
  | none => .isTrue fun desc hdesc => absurd (h ▸ hdesc) (Option.not_mem_none desc)
  | some desc =>
    if hkeeps : desc.scancode.code≠0 →
        (lockFlags ||| desc.setLocks) &&& ~~~desc.clearLocks=lockFlags then
      .isTrue fun _ hother => Option.some.inj (h.symm.trans hother) ▸ hkeeps
    else .isFalse fun hall => hkeeps (hall desc h)

/-- There is a connection, the scancode of a key that is pressed toggles the lock key it stands
for and no other, and the scancodes of the keys sent with it toggle none. The lock keys that
a lock key needs, and those that the keys sent with it need, are already set or cleared. -/
def Steady (depth : ℕ) (call : ℤ×Bool) (keyboard : Keyboard) : Prop :=
  let keyboard := updateLocal call.1 call.2 keyboard
  let definition := definitionOf keyboard.keys
  let others := companions (sentKeys keyboard.keys depth) keyboard.keys call.1 call.2
  keyboard.connected=true ∧
    (call.2=true → lockToggles definition (scancodeOf definition call.1)=pressedLock call) ∧
    (∀ keysym∈others, lockToggles definition (scancodeOf definition keysym)=0) ∧
    (pressedLock call≠0 → ∀ keysym∈call.1::others, keepsLocks definition keyboard.lockFlags keysym)

instance (depth : ℕ) (call : ℤ×Bool) (keyboard : Keyboard) :
    Decidable (Steady depth call keyboard) :=
  inferInstanceAs (Decidable (_ ∧ _))

/-! ## The keys of a plan -/

/-- An action is one for a key of a list. -/
def Action.For (definition : ℤ→Option KeysymDesc) (keysyms : List ℤ) : Action→Prop
  | .locks setFlags clearFlags => ∃ keysym∈keysyms, ∃ desc∈definition keysym,
    desc.scancode.code≠0 ∧ setFlags=desc.setLocks ∧ clearFlags=desc.clearLocks
  | .key keysym scancode _ => keysym∈keysyms ∧ scancode=scancodeOf definition keysym
  | .unicode _ => True

variable {definition : ℤ→Option KeysymDesc} {keysyms : List ℤ} {action : Action}
variable {actions : List Action} {keyboard : Keyboard}

theorem Action.For.mono {more : List ℤ} (h : action.For definition keysyms)
    (hsub : keysyms ⊆ more) : action.For definition more := by
  cases action with
  | locks setFlags clearFlags =>
    obtain ⟨keysym,hin,hdesc⟩ := h
    exact ⟨keysym,hsub hin,hdesc⟩
  | key keysym scancode pressed => exact h.imp_left fun hin => hsub hin
  | unicode keysym => trivial

/-- Every action of a plan is for one of its keysyms. -/
theorem planEvents_mem {plan : Plan} {keys : ℕ→Key} {fromState toState : Bool}
    (h : planEvents plan keys fromState toState keysyms=some actions) (hin : action∈actions) :
    ∃ keysym∈keysyms.filter (hasState keys fromState), ∃ sent,
      plan keysym toState=some sent ∧ action∈sent := by
  induction keysyms generalizing actions with
  | nil =>
    cases h
    exact absurd hin (not_mem_nil)
  | cons keysym keysyms ih =>
    rw [planEvents] at h
    obtain ⟨first,hfirst,h⟩ := Option.bind_eq_some_iff.mp h
    obtain ⟨rest,hrest,rfl⟩ := Option.map_eq_some_iff.mp h
    rcases mem_append.mp hin with hin | hin
    · cases hkey : guacRdpKeyboardGetKey keys keysym with
      | none =>
        rw [hkey] at hfirst
        cases hfirst
        exact absurd hin (not_mem_nil)
      | some key =>
        rw [hkey] at hfirst
        by_cases hstate : key.2=fromState
        · simp only [hstate,if_true] at hfirst
          have hhas : hasState keys fromState keysym=true := by simp [hasState,hkey,hstate]
          exact ⟨keysym,mem_filter.mpr ⟨mem_cons_self ..,hhas⟩,first,hfirst,hin⟩
        · simp only [hstate,if_false,Option.some.injEq] at hfirst
          exact absurd (hfirst ▸ hin) (not_mem_nil)
    · obtain ⟨other,hother,hsent⟩ := ih hrest hin
      refine ⟨other,?_,hsent⟩
      rw [mem_filter] at hother ⊢
      exact hother.imp_left (mem_cons_of_mem _)

/-- Every action of a plan is for one of the keys that it sends. -/
def PlansFor (definition : ℤ→Option KeysymDesc) (plan : Plan) (sentKeys : ℤ→List ℤ) : Prop :=
  ∀ keysym pressed actions, plan keysym pressed=some actions →
    ∀ action∈actions, action.For definition (sentKeys keysym)

section PlanParts

variable {keys : ℕ→Key} {plan : Plan} {sentKeys : ℤ→List ℤ}
  (hplan : PlansFor (definitionOf keys) plan sentKeys) {keysym : ℤ} {desc : KeysymDesc}
  {state : Bool}
include hplan

/-- The actions of a plan are for keys that it sends. -/
theorem for_of_planEvents {fromState toState : Bool}
    (h : planEvents plan keys fromState toState keysyms=some actions) (hin : action∈actions) :
    action.For (definitionOf keys)
      ((keysyms.filter (hasState keys fromState)).flatMap sentKeys) := by
  obtain ⟨keysym,hkeysym,sent,hsent,hin⟩ := planEvents_mem h hin
  exact (hplan keysym toState sent hsent action hin).mono
    fun _ hsent => mem_flatMap.mpr ⟨keysym,hkeysym,hsent⟩

theorem for_of_planBefore (hkey : scancodeKey keys keysym=some (desc,state))
    {before : List Action} (h : planBefore plan keys desc=some before) (pressed : Bool) :
    ∀ action∈before, action=.locks desc.setLocks desc.clearLocks ∨
      action.For (definitionOf keys) (companions sentKeys keys keysym pressed) := by
  intro action hin
  obtain ⟨sent,hsent,h⟩ := Option.bind_eq_some_iff.mp h
  obtain ⟨released,hreleased,rfl⟩ := Option.map_eq_some_iff.mp h
  simp only [companions,hkey,flatMap_append]
  rcases mem_cons.mp hin with rfl | hin
  · exact Or.inl rfl
  · rcases mem_append.mp hin with hin | hin
    · exact Or.inr ((for_of_planEvents hplan hsent hin).mono (subset_append_left ..))
    · exact Or.inr ((for_of_planEvents hplan hreleased hin).mono (subset_append_right ..))

theorem for_of_planAfter (hkey : scancodeKey keys keysym=some (desc,state))
    {after : List Action} (h : planAfter plan keys desc=some after) (pressed : Bool) :
    ∀ action∈after, action.For (definitionOf keys) (companions sentKeys keys keysym pressed) := by
  intro action hin
  obtain ⟨released,hreleased,h⟩ := Option.bind_eq_some_iff.mp h
  obtain ⟨sent,hsent,rfl⟩ := Option.map_eq_some_iff.mp h
  simp only [companions,hkey,flatMap_append]
  rcases mem_append.mp hin with hin | hin
  · exact (for_of_planEvents hplan hreleased hin).mono (subset_append_left ..)
  · exact (for_of_planEvents hplan hsent hin).mono (subset_append_right ..)

theorem for_of_planDecomposed {deadKeysym baseKeysym : ℤ}
    (h : planDecomposed plan deadKeysym baseKeysym=some actions) :
    ∀ action∈actions,
      action.For (definitionOf keys) (sentKeys deadKeysym++sentKeys baseKeysym) := by
  intro action hin
  obtain ⟨deadPress,hdeadPress,h⟩ := Option.bind_eq_some_iff.mp h
  obtain ⟨deadRelease,hdeadRelease,h⟩ := Option.bind_eq_some_iff.mp h
  obtain ⟨basePress,hbasePress,h⟩ := Option.bind_eq_some_iff.mp h
  obtain ⟨baseRelease,hbaseRelease,rfl⟩ := Option.map_eq_some_iff.mp h
  simp only [mem_append] at hin
  rcases hin with hin | hin | hin | hin
  · exact (hplan _ _ _ hdeadPress action hin).mono (subset_append_left ..)
  · exact (hplan _ _ _ hdeadRelease action hin).mono (subset_append_left ..)
  · exact (hplan _ _ _ hbasePress action hin).mono (subset_append_right ..)
  · exact (hplan _ _ _ hbaseRelease action hin).mono (subset_append_right ..)

/-- A key without a scancode is typed with a dead key, or sends no key. -/
theorem for_of_noScancode (hkey : scancodeKey keys keysym=none) {pressed : Bool}
    (h : (if pressed then
        match decomposition keys keysym with
        | some (deadKeysym,baseKeysym) => planDecomposed plan deadKeysym baseKeysym
        | none => some [.unicode keysym]
      else some [])=some actions) :
    ∀ action∈actions, action.For (definitionOf keys) (companions sentKeys keys keysym pressed) := by
  intro action hin
  cases pressed with
  | false =>
    cases h
    exact absurd hin not_mem_nil
  | true =>
    simp only [if_true] at h
    cases hdecomposition : decomposition keys keysym with
    | none =>
      rw [hdecomposition] at h
      cases h
      rw [mem_singleton.mp hin]
      trivial
    | some keysyms =>
      rw [hdecomposition] at h
      simp only [companions,hkey,hdecomposition,if_true]
      exact for_of_planDecomposed hplan h action hin

end PlanParts

theorem definitionOf_scancodeKey {keys : ℕ→Key} {keysym : ℤ} {desc : KeysymDesc} {state : Bool}
    (h : scancodeKey keys keysym=some (desc,state)) :
    definitionOf keys keysym=some desc ∧ desc.scancode.code≠0 := by
  obtain ⟨hkey,hcode⟩ := Option.filter_eq_some_iff.mp h
  exact ⟨by rw [definitionOf,hkey,Option.map_some],by simpa using hcode⟩

/-- What a press that sends no key is for is what any press is for. -/
theorem companions_subset (sentKeys : ℤ→List ℤ) (keys : ℕ→Key) (keysym : ℤ) (pressed : Bool) :
    companions sentKeys keys keysym pressed ⊆ companions sentKeys keys keysym true := by
  unfold companions
  split
  · exact List.Subset.refl _
  · split
    · cases pressed
      · exact nil_subset _
      · exact List.Subset.refl _
    · exact List.Subset.refl _

/-- The keys of a plan are those that are sent for its key. -/
theorem plansFor_plan (keys : ℕ→Key) (depth : ℕ) :
    PlansFor (definitionOf keys) (plan keys depth) (sentKeys keys depth) := by
  induction depth with
  | zero => exact fun _ _ _ h => nomatch h
  | succ depth ih =>
    intro keysym pressed actions h action hin
    rw [plan] at h
    cases hkey : scancodeKey keys keysym with
    | some key =>
      obtain ⟨desc,state⟩ := key
      obtain ⟨hdesc,hcode⟩ := definitionOf_scancodeKey hkey
      rw [hkey] at h
      obtain ⟨before,hbefore,h⟩ := Option.bind_eq_some_iff.mp h
      obtain ⟨after,hafter,rfl⟩ := Option.map_eq_some_iff.mp h
      rcases mem_append.mp hin with hin | hin
      · rcases for_of_planBefore ih hkey hbefore true action hin with rfl | hfor
        · exact ⟨keysym,mem_cons_self ..,desc,hdesc,hcode,rfl,rfl⟩
        · exact hfor.mono (subset_cons_self ..)
      · rcases mem_cons.mp hin with rfl | hin
        · exact ⟨mem_cons_self ..,(scancodeOf_eq hdesc).symm⟩
        · exact (for_of_planAfter ih hkey hafter true action hin).mono (subset_cons_self ..)
    | none =>
      rw [hkey] at h
      refine (for_of_noScancode ih hkey h action hin).mono ?_
      exact List.Subset.trans (companions_subset ..) (subset_cons_self ..)

theorem scancodeOf_code_of_none {keys : ℕ→Key} {keysym : ℤ}
    (h : scancodeKey keys keysym=none) : (scancodeOf (definitionOf keys) keysym).code=0 := by
  rw [scancodeKey,Option.filter_eq_none_iff] at h
  unfold scancodeOf definitionOf
  cases hkey : guacRdpKeyboardGetKey keys keysym with
  | none => rfl
  | some key => simpa using h key hkey

theorem lockToggles_of_code {scancode : Scancode} (h : scancode.code=0) :
    lockToggles definition scancode=0 := by
  simp [lockToggles,lockKeysyms,h]

/-- The actions for keys whose scancodes toggle no lock key toggle none. -/
theorem toggles_eq_zero
    (h : ∀ keysym∈keysyms, lockToggles definition (scancodeOf definition keysym)=0)
    (hfor : action.For definition keysyms) : action.toggles definition=0 := by
  cases action with
  | locks setFlags clearFlags => rfl
  | unicode keysym => rfl
  | key keysym scancode pressed =>
    obtain ⟨hin,rfl⟩ := hfor
    cases pressed with
    | false => rfl
    | true => exact h keysym hin

/-- The actions for keys that keep the lock flags keep them. -/
theorem keepsLocks_for {lockFlags : LockFlags}
    (h : ∀ keysym∈keysyms, keepsLocks definition lockFlags keysym)
    (hfor : action.For definition keysyms) : action.KeepsLocks lockFlags := by
  cases action with
  | locks setFlags clearFlags =>
    obtain ⟨keysym,hin,desc,hdesc,hcode,rfl,rfl⟩ := hfor
    exact h keysym hin desc hdesc hcode
  | key => trivial
  | unicode => trivial

/-! ## What a difference becomes -/

/-- The remote and the local lock state differ by the given flags. -/
def DiffersBy (difference : LockFlags) (keyboard : Keyboard) : Prop :=
  ∀ initial, remoteLocks (definitionOf keyboard.keys) initial keyboard.events=
    keyboard.lockFlags ^^^ difference

@[simp] theorem remoteLocks_append (definition : ℤ→Option KeysymDesc) (initial : LockFlags)
    (events : List Event) (event : Event) :
    remoteLocks definition initial (events++[event])=
      event.locks definition (remoteLocks definition initial events) := by
  simp [remoteLocks]

section

variable {difference : LockFlags} (hconnected : keyboard.connected=true)
  (h : DiffersBy difference keyboard)

include hconnected h

/-- What differs after an event. -/
theorem differsBy_send (event : Event) {next : LockFlags}
    (hnext : ∀ remote, remote=keyboard.lockFlags ^^^ difference →
      event.locks (definitionOf keyboard.keys) remote=keyboard.lockFlags ^^^ next) :
    DiffersBy next (keyboard.send event) := by
  intro initial
  rw [Keyboard.send_keys,Keyboard.send_lockFlags,Keyboard.send_events hconnected,remoteLocks_append]
  exact hnext _ (h initial)

/-- An action toggles what it sends, and locks that are not kept are synchronised. -/
theorem differsBy_apply (action : Action)
    (hkeeps : difference≠0 → action.KeepsLocks keyboard.lockFlags) :
    DiffersBy (difference ^^^ action.toggles (definitionOf keyboard.keys)) (action.apply keyboard) ∧
      (difference≠0→(action.apply keyboard).lockFlags=keyboard.lockFlags) := by
  cases action with
  | locks setFlags clearFlags =>
    simp only [Action.apply,guacRdpKeyboardUpdateLocks,Action.toggles,BitVec.ofNat_eq_ofNat,
      BitVec.xor_zero]
    by_cases hchanged : (keyboard.lockFlags ||| setFlags) &&& ~~~clearFlags=keyboard.lockFlags
    · simp only [hchanged,ne_eq,not_true_eq_false,if_false]
      exact ⟨h,fun _ => trivial⟩
    · have hzero : difference=0 := by
        by_contra hne
        exact hchanged (hkeeps hne)
      simp only [hchanged,ne_eq,not_false_eq_true,if_true]
      refine ⟨fun initial => ?_,fun hne => absurd hzero hne⟩
      simp only [Keyboard.send_keys,Keyboard.send_events hconnected,remoteLocks_append,
        Event.locks,hzero,BitVec.ofNat_eq_ofNat,BitVec.xor_zero]
  | key keysym scancode pressed =>
    refine ⟨differsBy_send hconnected h _ fun remote hremote => ?_,
      fun _ => Keyboard.send_lockFlags _ _⟩
    cases pressed with
    | false => simp [Event.locks,Action.toggles,hremote]
    | true => simp only [Event.locks,Action.toggles,hremote,BitVec.xor_assoc]
  | unicode keysym =>
    simp only [Action.apply,guacRdpSendUnicodeEvent,Action.toggles,BitVec.ofNat_eq_ofNat,
      BitVec.xor_zero]
    cases codepoint keysym with
    | none => exact ⟨h,fun _ => rfl⟩
    | some codepoint =>
      exact ⟨differsBy_send hconnected h _ fun remote hremote => by simp [Event.locks,hremote],
        fun _ => Keyboard.send_lockFlags _ _⟩

/-- Actions that toggle nothing and keep the locks as long as they differ keep the
difference. -/
theorem differsBy_applyAll
    (htoggles : ∀ action∈actions, action.toggles (definitionOf keyboard.keys)=0)
    (hkeeps : difference≠0→∀ action∈actions, action.KeepsLocks keyboard.lockFlags) :
    DiffersBy difference (applyAll actions keyboard) := by
  induction actions generalizing keyboard with
  | nil => exact h
  | cons action actions ih =>
    obtain ⟨hfirst,hrest⟩ := forall_mem_cons.mp htoggles
    obtain ⟨hkeys,hstill,-⟩ := action.apply_same keyboard
    obtain ⟨hnext,hlocks⟩ := differsBy_apply hconnected h action
      fun hne => hkeeps hne action (mem_cons_self ..)
    rw [hfirst,BitVec.ofNat_eq_ofNat,BitVec.xor_zero] at hnext
    rw [applyAll_cons]
    refine ih (hstill.trans hconnected) hnext (by rwa [hkeys]) fun hne other hother => ?_
    rw [hlocks hne]
    exact hkeeps hne other (mem_cons_of_mem _ hother)

end

/-! ## Runs -/

/-- Before a call changes the lock flags, they were synchronised. -/
theorem synchronizeOnce_mirrored (hconnected : keyboard.connected=true) (h : Mirrored keyboard)
    (initial : LockFlags) :
    remoteLocks (definitionOf keyboard.keys) initial (synchronizeOnce keyboard).events=
      keyboard.lockFlags := by
  unfold synchronizeOnce
  cases hsynchronized : keyboard.synchronized with
  | true => exact h hsynchronized initial
  | false => simp [Keyboard.send_events hconnected,Event.locks]

/-- A call starts with the difference that its lock key makes. -/
theorem differsBy_updateLocal (hconnected : keyboard.connected=true) (h : Mirrored keyboard)
    (call : ℤ×Bool) : DiffersBy (pressedLock call) (updateLocal call.1 call.2 keyboard) := by
  have hflags : (updateLocal call.1 call.2 keyboard).lockFlags=
      keyboard.lockFlags ^^^ pressedLock call := by
    unfold updateLocal synchronizeOnce pressedLock
    cases keyboard.synchronized <;> cases call.2 <;> simp
  intro initial
  rw [hflags,(updateLocal_same call.1 call.2 keyboard).1,definitionOf_setPressed,
    BitVec.xor_assoc,BitVec.xor_self,BitVec.xor_zero]
  exact synchronizeOnce_mirrored hconnected h initial

theorem mirrored_of_differsBy (h : DiffersBy 0 keyboard) : Mirrored keyboard := by
  intro _ initial
  rw [h initial,BitVec.ofNat_eq_ofNat,BitVec.xor_zero]

/-- The press of a lock key makes up for the difference, and a key that is no lock key makes
none. -/
theorem differsBy_scancode {call : ℤ×Bool} {scancode : Scancode}
    (hconnected : keyboard.connected=true) (h : DiffersBy (pressedLock call) keyboard)
    {before after : List Action}
    (hpress : call.2=true → lockToggles (definitionOf keyboard.keys) scancode=pressedLock call)
    (hbefore : ∀ action∈before, action.toggles (definitionOf keyboard.keys)=0 ∧
      (pressedLock call≠0 → action.KeepsLocks keyboard.lockFlags))
    (hafter : ∀ action∈after, action.toggles (definitionOf keyboard.keys)=0) :
    DiffersBy 0 (applyAll (before ++ .key call.1 scancode call.2::after) keyboard) := by
  obtain ⟨hkeys,hstill,-⟩ := applyAll_same before keyboard
  have hsent := differsBy_applyAll hconnected h (fun action haction => (hbefore action haction).1)
    fun hne action haction => (hbefore action haction).2 hne
  have hpressed := (differsBy_apply (hstill.trans hconnected) hsent
    (.key call.1 scancode call.2) fun _ => trivial).1
  have hzero : pressedLock call ^^^ (Action.key call.1 scancode call.2).toggles
      (definitionOf (applyAll before keyboard).keys)=0 := by
    rw [hkeys]
    cases hcall : call.2 with
    | false => simp [Action.toggles,pressedLock,hcall]
    | true => simp [Action.toggles,hpress hcall]
  rw [hzero] at hpressed
  obtain ⟨hkeys',hstill',-⟩ :=
    (Action.key call.1 scancode call.2).apply_same (applyAll before keyboard)
  rw [applyAll_append,applyAll_cons]
  refine differsBy_applyAll (hstill'.trans (hstill.trans hconnected)) hpressed ?_
    fun hne => absurd rfl hne
  rwa [hkeys',hkeys]

/-- After a steady call the remote lock state is the local one. -/
theorem mirrored_update {depth : ℕ} {call : ℤ×Bool} {next : Keyboard} (h : Mirrored keyboard)
    (hsteady : Steady depth call keyboard)
    (hnext : guacRdpKeyboardUpdateKeysym (depth+1) call keyboard=some next) :
    Mirrored next := by
  obtain ⟨hconnected,hpress,hothers,hkeeps⟩ := hsteady
  have hdiffers := differsBy_updateLocal
    ((updateLocal_same call.1 call.2 keyboard).2.symm.trans hconnected) h call
  rw [guacRdpKeyboardUpdateKeysym,follows_sendEvent _ _ _ _ _ rfl] at hnext
  obtain ⟨actions,hplan,rfl⟩ := Option.map_eq_some_iff.mp hnext
  refine mirrored_of_differsBy ?_
  have hplans := plansFor_plan (updateLocal call.1 call.2 keyboard).keys depth
  rw [plan] at hplan
  cases hkey : scancodeKey (updateLocal call.1 call.2 keyboard).keys call.1 with
  | none =>
    rw [hkey] at hplan
    have hpressed : pressedLock call=0 := by
      cases hcall : call.2 with
      | false => simp [pressedLock,hcall]
      | true =>
        rw [←hpress hcall]
        exact lockToggles_of_code (scancodeOf_code_of_none hkey)
    rw [hpressed] at hdiffers
    exact differsBy_applyAll hconnected hdiffers
      (fun action hin => toggles_eq_zero hothers (for_of_noScancode hplans hkey hplan action hin))
      fun hne => absurd rfl hne
  | some key =>
    obtain ⟨desc,state⟩ := key
    obtain ⟨hdesc,hcode⟩ := definitionOf_scancodeKey hkey
    rw [hkey] at hplan
    obtain ⟨before,hplanBefore,hplan⟩ := Option.bind_eq_some_iff.mp hplan
    obtain ⟨after,hplanAfter,rfl⟩ := Option.map_eq_some_iff.mp hplan
    rw [scancodeOf_eq hdesc] at hpress
    refine differsBy_scancode hconnected hdiffers hpress (fun action hin => ?_) fun action hin =>
      toggles_eq_zero hothers (for_of_planAfter hplans hkey hplanAfter call.2 action hin)
    rcases for_of_planBefore hplans hkey hplanBefore call.2 action hin with rfl | hfor
    · exact ⟨rfl,fun hne => hkeeps hne call.1 (mem_cons_self ..) desc hdesc hcode⟩
    · exact ⟨toggles_eq_zero hothers hfor,fun hne =>
        keepsLocks_for (fun keysym hkeysym => hkeeps hne keysym (mem_cons_of_mem _ hkeysym))
          hfor⟩

/-- In a run of steady calls the remote lock state is the local one after every call. -/
theorem locks_mirrored (connected : Bool) (keymap : Keymap) (depth : ℕ) (calls : List (ℤ×Bool))
    (h : Along (guacRdpKeyboardUpdateKeysym (depth+1)) (Steady depth) calls
      (guacRdpKeyboardAlloc connected keymap)) :
    ∀ made, made <+: calls→∀ keyboard,
      run (guacRdpKeyboardUpdateKeysym (depth+1)) made (guacRdpKeyboardAlloc connected keymap)=
        some keyboard→Mirrored keyboard :=
  fun _ hmade _ hrun => visits_of_along mirrored_update
    (fun hsynchronized => absurd hsynchronized (by simp [guacRdpKeyboardAlloc])) h hmade hrun

/-- A keymap with Caps Lock, the left shift key and the key A, which needs shift and no Caps
Lock. -/
def capsMapping : List KeysymDesc :=
  [⟨0xFFE5,⟨0x3A,1⟩,[],[],0,0⟩,⟨0xFFE1,⟨0x2A,0⟩,[],[],0,0⟩,
    ⟨0x41,⟨0x1E,0⟩,[0xFFE1],[],0,kbdSyncCapsLock⟩]

/-- Caps Lock is pressed and released, and then the key A. -/
theorem locks_mirrored_caps :
    (run (guacRdpKeyboardUpdateKeysym 3) [(0xFFE5,true),(0xFFE5,false),(0x41,true)]
      (guacRdpKeyboardAlloc true (.base capsMapping))).any (fun keyboard =>
        keyboard.lockFlags=0 ∧ remoteLocks (definitionOf keyboard.keys) 0 keyboard.events=0) ∧
    ∃ keyboard, run (guacRdpKeyboardUpdateKeysym 3) [(0xFFE5,true),(0xFFE5,false)]
      (guacRdpKeyboardAlloc true (.base capsMapping))=some keyboard ∧ Mirrored keyboard := by
  refine ⟨by decide +kernel,?_⟩
  have hsome : (run (guacRdpKeyboardUpdateKeysym 3) [(0xFFE5,true),(0xFFE5,false)]
      (guacRdpKeyboardAlloc true (.base capsMapping))).isSome=true := by decide +kernel
  obtain ⟨keyboard,hkeyboard⟩ := Option.isSome_iff_exists.mp hsome
  have hsteady : Along (guacRdpKeyboardUpdateKeysym 3) (Steady 2)
      [(0xFFE5,true),(0xFFE5,false),(0x41,true)]
      (guacRdpKeyboardAlloc true (.base capsMapping)) := by decide +kernel
  exact ⟨keyboard,hkeyboard,locks_mirrored true (.base capsMapping) 2 _ hsteady
    [(0xFFE5,true),(0xFFE5,false)] (by simp) keyboard hkeyboard⟩

/-- Kana Lock is no key of a keymap, but its flag is toggled. -/
theorem not_locks_mirrored :
    ¬∀ (keymap : Keymap) (depth : ℕ) (calls : List (ℤ×Bool)) (keyboard : Keyboard),
      run (guacRdpKeyboardUpdateKeysym depth) calls (guacRdpKeyboardAlloc true keymap)=
        some keyboard→Mirrored keyboard := by
  intro h
  have hrun : (run (guacRdpKeyboardUpdateKeysym 1) [(0xFF2D,true)]
      (guacRdpKeyboardAlloc true (.base capsMapping))).map (fun keyboard =>
        (keyboard.synchronized,remoteLocks (definitionOf keyboard.keys) 0 keyboard.events,
          keyboard.lockFlags))=some (true,0,kbdSyncKanaLock) := by
    decide +kernel
  obtain ⟨keyboard,hkeyboard,hstate⟩ := Option.map_eq_some_iff.mp hrun
  simp only [Prod.mk.injEq] at hstate
  obtain ⟨hsynchronized,hremote,hlocks⟩ := hstate
  have hmirrored := h _ _ _ _ hkeyboard hsynchronized 0
  rw [hremote,hlocks] at hmirrored
  exact absurd hmirrored (by decide)

end GuacServer.RdpKeyboard
