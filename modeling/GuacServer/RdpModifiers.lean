import GuacServer.RdpKeyPlans
import GuacServer.StateRuns

/-!
# Modifiers of the RDP keyboard

The keys that another key needs are sent before it and restored after it, as their local
state says. That keeps the remote state of such a modifier equal to its local state, if
there is a connection, no key needs a modifier both ways, and no modifier is pressed to
type something else.
-/

namespace GuacServer.RdpKeyboard

open List StateRuns

/-- The definition of a keysym. -/
def definitionOf (keys : ℕ→Key) (keysym : ℤ) : Option KeysymDesc :=
  (guacRdpKeyboardGetKey keys keysym).map Prod.fst

/-- The local state of a keysym. -/
def isPressed (keys : ℕ→Key) (keysym : ℤ) : Bool :=
  ((guacRdpKeyboardGetKey keys keysym).map Prod.snd).getD false

/-- The scancode of a keysym. -/
def scancodeOf (definition : ℤ→Option KeysymDesc) (keysym : ℤ) : Scancode :=
  ((definition keysym).map KeysymDesc.scancode).getD ⟨0,0⟩

/-- The remote state of a scancode after an event. -/
def Event.remote (scancode : Scancode) (down : Bool) : Event→Bool
  | .key _ code pressed => if code=scancode then pressed else down
  | _ => down

/-- The remote state of a scancode, as determined by the events sent. -/
def remotePressed (events : List Event) (scancode : Scancode) : Bool :=
  events.foldl (Event.remote scancode) false

/-- The keysym is named by another key. -/
def Named (definition : ℤ→Option KeysymDesc) (modifier : ℤ) : Prop :=
  ∃ keysym desc, definition keysym=some desc ∧
    (modifier∈desc.setKeysyms ∨ modifier∈desc.clearKeysyms)

/-- A modifier is defined without prerequisites, and its scancode is used by no other key. -/
structure Plain (definition : ℤ→Option KeysymDesc) (modifier : ℤ) : Prop where
  desc : ∃ desc, definition modifier=some desc ∧ desc.scancode.code≠0 ∧
    desc.setKeysyms=[] ∧ desc.clearKeysyms=[]
  unique : ∀ keysym desc, definition keysym=some desc →
    desc.scancode=scancodeOf definition modifier → keysym=modifier

/-- No key needs a modifier to be both pressed and released, and no modifier is a dead key
or a base key. -/
structure Consistent (definition : ℤ→Option KeysymDesc) : Prop where
  disjoint : ∀ keysym desc, definition keysym=some desc →
    ∀ modifier∈desc.setKeysyms, modifier ∉ desc.clearKeysyms
  typed : ∀ entry∈guacRdpDecomposedKeys, ¬Named definition entry.2.1 ∧ ¬Named definition entry.2.2

/-- The keys that a key needs are pressed or released remotely when its press is sent. -/
def MetAt (definition : ℤ→Option KeysymDesc) (sent : List Event) : Event→Prop
  | .key keysym _ true => ∀ desc, definition keysym=some desc →
    (∀ modifier∈desc.setKeysyms, remotePressed sent (scancodeOf definition modifier)=true) ∧
    ∀ modifier∈desc.clearKeysyms, remotePressed sent (scancodeOf definition modifier)=false
  | _ => True

/-- They are whenever a press is sent. -/
def PrerequisitesMet (definition : ℤ→Option KeysymDesc) (events : List Event) : Prop :=
  ∀ sent event later, events=sent++event::later→MetAt definition sent event

/-- The remote state of every modifier is its local state, and every key was pressed with
the modifiers that it needs. -/
structure Restored (keyboard : Keyboard) : Prop where
  modifiers : ∀ modifier, Named (definitionOf keyboard.keys) modifier →
    remotePressed keyboard.events (scancodeOf (definitionOf keyboard.keys) modifier)=
      isPressed keyboard.keys modifier
  met : PrerequisitesMet (definitionOf keyboard.keys) keyboard.events

/-! ## Events that are sent -/

variable {definition : ℤ→Option KeysymDesc}

@[simp] theorem remotePressed_append (events more : List Event) (scancode : Scancode) :
    remotePressed (events++more) scancode=
      more.foldl (Event.remote scancode) (remotePressed events scancode) :=
  foldl_append

theorem prerequisitesMet_append {events : List Event} {event : Event} :
    PrerequisitesMet definition (events++[event]) ↔
      PrerequisitesMet definition events ∧ MetAt definition events event := by
  constructor
  · intro h
    refine ⟨fun sent e later hsplit => h sent e (later++[event]) ?_,h events event [] rfl⟩
    rw [hsplit,append_assoc,cons_append]
  · rintro ⟨hevents,hlast⟩ sent e later hsplit
    rcases eq_nil_or_concat later with rfl | ⟨most,last,rfl⟩
    · obtain ⟨rfl,hsame⟩ := append_inj' hsplit rfl
      cases hsame
      exact hlast
    · refine hevents sent e most ?_
      rw [concat_eq_append,←cons_append,←append_assoc] at hsplit
      exact (append_inj' hsplit rfl).1

/-- What an action does to the remote state of a scancode. -/
def Action.remote (scancode : Scancode) (down : Bool) : Action→Bool
  | .key _ code pressed => if code=scancode then pressed else down
  | _ => down

variable {keyboard : Keyboard} {keysym : ℤ} {desc : KeysymDesc} {mapping : List KeysymDesc}

theorem remote_apply (action : Action) (h : keyboard.connected=true) (scancode : Scancode) :
    remotePressed (action.apply keyboard).events scancode=
      action.remote scancode (remotePressed keyboard.events scancode) := by
  cases action with
  | locks setFlags clearFlags =>
    simp only [Action.apply,guacRdpKeyboardUpdateLocks]
    split_ifs
    · rw [Keyboard.send_events h,remotePressed_append]
      rfl
    · rfl
  | key keysym code pressed =>
    rw [Action.apply,Keyboard.send_events h,remotePressed_append]
    rfl
  | unicode keysym =>
    simp only [Action.apply,guacRdpSendUnicodeEvent]
    cases codepoint keysym with
    | none => rfl
    | some codepoint =>
      simp only
      rw [Keyboard.send_events h,remotePressed_append]
      rfl

/-- The server follows all actions. -/
theorem remote_applyAll (actions : List Action) (h : keyboard.connected=true)
    (scancode : Scancode) :
    remotePressed (applyAll actions keyboard).events scancode=
      actions.foldl (Action.remote scancode) (remotePressed keyboard.events scancode) := by
  induction actions generalizing keyboard with
  | nil => rfl
  | cons action actions ih =>
    rw [applyAll_cons,ih ((action.apply_same keyboard).2.1.trans h),remote_apply action h]
    rfl

/-- An action that presses no key with prerequisites. -/
def Action.Free (definition : ℤ→Option KeysymDesc) : Action→Prop
  | .key keysym _ true => ∀ desc, definition keysym=some desc →
    desc.setKeysyms=[] ∧ desc.clearKeysyms=[]
  | _ => True

theorem met_free {action : Action} (hfree : action.Free definition) (h : keyboard.connected=true)
    (hmet : PrerequisitesMet definition keyboard.events) :
    PrerequisitesMet definition (action.apply keyboard).events := by
  cases action with
  | locks setFlags clearFlags =>
    simp only [Action.apply,guacRdpKeyboardUpdateLocks]
    split_ifs
    · rw [Keyboard.send_events h]
      exact prerequisitesMet_append.mpr ⟨hmet,trivial⟩
    · exact hmet
  | key keysym code pressed =>
    rw [Action.apply,Keyboard.send_events h]
    refine prerequisitesMet_append.mpr ⟨hmet,?_⟩
    cases pressed with
    | false => trivial
    | true =>
      intro desc hdesc
      obtain ⟨hset,hclear⟩ := hfree desc hdesc
      simp [hset,hclear]
  | unicode keysym =>
    simp only [Action.apply,guacRdpSendUnicodeEvent]
    cases codepoint keysym with
    | none => exact hmet
    | some codepoint =>
      simp only
      rw [Keyboard.send_events h]
      exact prerequisitesMet_append.mpr ⟨hmet,trivial⟩

/-- Actions that need no modifiers leave prerequisites met. -/
theorem met_applyAll {actions : List Action} (hfree : ∀ action∈actions, action.Free definition)
    (h : keyboard.connected=true) (hmet : PrerequisitesMet definition keyboard.events) :
    PrerequisitesMet definition (applyAll actions keyboard).events := by
  induction actions generalizing keyboard with
  | nil => exact hmet
  | cons action actions ih =>
    obtain ⟨hfirst,hrest⟩ := forall_mem_cons.mp hfree
    exact ih hrest ((action.apply_same keyboard).2.1.trans h) (met_free hfirst h hmet)

/-! ## Plans for modifiers -/

variable {keys : ℕ→Key}

theorem getKey_eq (h : definitionOf keys keysym=some desc) :
    guacRdpKeyboardGetKey keys keysym=some (desc,isPressed keys keysym) := by
  unfold definitionOf isPressed at *
  obtain ⟨⟨desc',state⟩,hkey,rfl⟩ := Option.map_eq_some_iff.mp h
  simp [hkey]

theorem scancodeKey_eq (h : definitionOf keys keysym=some desc) (hcode : desc.scancode.code≠0) :
    scancodeKey keys keysym=some (desc,isPressed keys keysym) := by
  simp [scancodeKey,getKey_eq h,hcode]

theorem scancodeOf_eq (h : definition keysym=some desc) :
    scancodeOf definition keysym=desc.scancode := by
  simp [scancodeOf,h]

/-- No other key has the scancode of a modifier. -/
theorem scancodeOf_inj {modifier : ℤ} (h : Plain definition modifier)
    (hdesc : definition keysym=some desc) :
    scancodeOf definition keysym=scancodeOf definition modifier ↔ modifier=keysym := by
  constructor
  · intro hsame
    rw [scancodeOf_eq hdesc] at hsame
    exact (h.unique keysym desc hdesc hsame).symm
  · rintro rfl
    rfl

/-- A modifier is sent with one event. -/
theorem plan_plain {modifier : ℤ} (h : Plain (definitionOf keys) modifier) (depth : ℕ)
    (pressed : Bool) :
    ∃ setFlags clearFlags, plan keys (depth+1) modifier pressed=some [.locks setFlags clearFlags,
        .key modifier (scancodeOf (definitionOf keys) modifier) pressed] := by
  obtain ⟨desc,hdesc,hcode,hset,hclear⟩ := h.desc
  refine ⟨desc.setLocks,desc.clearLocks,?_⟩
  simp [plan,scancodeKey_eq hdesc hcode,planBefore,planAfter,hset,hclear,planEvents,
    scancodeOf_eq hdesc]

/-- A plain key needs no modifiers. -/
theorem free_plain {modifier : ℤ} (h : Plain definition modifier) (setFlags clearFlags : LockFlags)
    (scancode : Scancode) (pressed : Bool) :
    ∀ action∈[Action.locks setFlags clearFlags,.key modifier scancode pressed],
      action.Free definition := by
  obtain ⟨desc,hdesc,-,hset,hclear⟩ := h.desc
  rw [forall_mem_cons,forall_mem_singleton]
  refine ⟨trivial,?_⟩
  cases pressed with
  | false => trivial
  | true =>
    intro desc' hdesc'
    cases hdesc.symm.trans hdesc'
    exact ⟨hset,hclear⟩

/-- Of a list of modifiers those in a state are sent, and their remote states change. -/
theorem planEvents_plain (depth : ℕ) (fromState toState : Bool) {modifiers : List ℤ}
    (h : ∀ modifier∈modifiers, Plain (definitionOf keys) modifier) :
    ∃ actions, planEvents (plan keys (depth+1)) keys fromState toState modifiers=some actions ∧
      (∀ action∈actions, action.Free (definitionOf keys)) ∧
      ∀ modifier, Plain (definitionOf keys) modifier→∀ down,
        actions.foldl (Action.remote (scancodeOf (definitionOf keys) modifier)) down=
          if modifier∈modifiers ∧ isPressed keys modifier=fromState then toState
          else down := by
  induction modifiers with
  | nil => exact ⟨[],rfl,by simp,by simp⟩
  | cons first modifiers ih =>
    obtain ⟨hfirst,hrest⟩ := forall_mem_cons.mp h
    obtain ⟨actions,hplan,hfree,hremote⟩ := ih hrest
    obtain ⟨desc,hdesc,-⟩ := hfirst.desc
    obtain ⟨setFlags,clearFlags,hsend⟩ := plan_plain hfirst depth toState
    rw [planEvents,getKey_eq hdesc,hplan,hsend]
    by_cases hstate : isPressed keys first=fromState
    · refine ⟨[.locks setFlags clearFlags,
        .key first (scancodeOf (definitionOf keys) first) toState]++actions,
        by simp [hstate],fun action haction => ?_,fun modifier hmodifier down => ?_⟩
      · rcases mem_append.mp haction with haction | haction
        · exact free_plain hfirst _ _ _ _ action haction
        · exact hfree action haction
      · rw [foldl_append,hremote modifier hmodifier]
        simp only [foldl_cons,foldl_nil,Action.remote,scancodeOf_inj hmodifier hdesc,
          mem_cons]
        by_cases hself : modifier=first
        · simp [hself,hstate]
        · simp [hself]
    · refine ⟨actions,by simp [hstate],hfree,fun modifier hmodifier down => ?_⟩
      rw [hremote modifier hmodifier]
      by_cases hself : modifier=first
      · simp [hself,hstate]
      · simp [hself]

/-- The plan for a key that is not a modifier: when its event is sent, the modifiers that it
needs have been pressed or released, and afterwards they are restored. -/
theorem plan_unnamed
    (hplain : ∀ modifier, Named (definitionOf keys) modifier→Plain (definitionOf keys) modifier)
    (hdisjoint : Consistent (definitionOf keys)) (hdesc : definitionOf keys keysym=some desc)
    (hcode : desc.scancode.code≠0) (depth : ℕ) (pressed : Bool) :
    ∃ before after, plan keys (depth+2) keysym pressed=
        some (before ++ .key keysym desc.scancode pressed::after) ∧
      (∀ action∈before++after, action.Free (definitionOf keys)) ∧
      ∀ modifier, Named (definitionOf keys) modifier →
        let scancode := scancodeOf (definitionOf keys) modifier
        let needed := before.foldl (Action.remote scancode) (isPressed keys modifier)
        (modifier∈desc.setKeysyms → needed=true) ∧ (modifier∈desc.clearKeysyms → needed=false) ∧
          after.foldl (Action.remote scancode) needed=isPressed keys modifier := by
  have hset : ∀ modifier∈desc.setKeysyms, Plain (definitionOf keys) modifier :=
    fun modifier hmodifier => hplain modifier ⟨keysym,desc,hdesc,Or.inl hmodifier⟩
  have hclear : ∀ modifier∈desc.clearKeysyms, Plain (definitionOf keys) modifier :=
    fun modifier hmodifier => hplain modifier ⟨keysym,desc,hdesc,Or.inr hmodifier⟩
  obtain ⟨s₁,hs₁,hfree₁,hremote₁⟩ := planEvents_plain depth false true hset
  obtain ⟨c₁,hc₁,hfree₂,hremote₂⟩ := planEvents_plain depth true false hclear
  obtain ⟨s₂,hs₂,hfree₃,hremote₃⟩ := planEvents_plain depth false false hset
  obtain ⟨c₂,hc₂,hfree₄,hremote₄⟩ := planEvents_plain depth true true hclear
  refine ⟨.locks desc.setLocks desc.clearLocks::(s₁++c₁),s₂++c₂,?_,?_,?_⟩
  · rw [plan,scancodeKey_eq hdesc hcode]
    simp [planBefore,planAfter,hs₁,hc₁,hs₂,hc₂]
  · simp only [cons_append,mem_cons,mem_append]
    rintro action (rfl | (h | h) | h | h)
    · trivial
    · exact hfree₁ action h
    · exact hfree₂ action h
    · exact hfree₃ action h
    · exact hfree₄ action h
  · intro modifier hmodifier
    have hm := hplain modifier hmodifier
    have hapart := hdisjoint.disjoint keysym desc hdesc modifier
    simp only [foldl_cons,foldl_append,Action.remote,hremote₁ modifier hm,
      hremote₂ modifier hm,hremote₃ modifier hm,hremote₄ modifier hm]
    by_cases hin : modifier∈desc.setKeysyms
    · simp [hin,hapart hin]
    · cases isPressed keys modifier <;> simp [hin]

/-! ## Restored modifiers -/

/-- A keyboard whose modifiers are restored goes on with the same keys. -/
structure Continues (keyboard next : Keyboard) : Prop where
  restored : Restored next
  keys : next.keys=keyboard.keys
  connected : next.connected=true

/-- Actions that press no key with prerequisites and change no modifier's remote state keep
the modifiers restored. -/
theorem continues_applyAll (hrestored : Restored keyboard) (hconnected : keyboard.connected=true)
    {actions : List Action} (hfree : ∀ action∈actions, action.Free (definitionOf keyboard.keys))
    (hremote : ∀ modifier, Named (definitionOf keyboard.keys) modifier →
      actions.foldl (Action.remote (scancodeOf (definitionOf keyboard.keys) modifier))
        (isPressed keyboard.keys modifier)=isPressed keyboard.keys modifier) :
    Continues keyboard (applyAll actions keyboard) := by
  obtain ⟨hkeys,hstill,-⟩ := applyAll_same actions keyboard
  refine ⟨⟨fun modifier hmodifier => ?_,?_⟩,hkeys,hstill.trans hconnected⟩
  · rw [hkeys] at hmodifier ⊢
    rw [remote_applyAll actions hconnected,hrestored.modifiers modifier hmodifier,
      hremote modifier hmodifier]
  · rw [hkeys]
    exact met_applyAll hfree hconnected hrestored.met

section

variable (hrestored : Restored keyboard) (hconnected : keyboard.connected=true)
  (hplain : ∀ modifier, Named (definitionOf keyboard.keys) modifier→Plain (definitionOf
    keyboard.keys) modifier) (hconsistent : Consistent (definitionOf keyboard.keys))
  (hunnamed : ¬Named (definitionOf keyboard.keys) keysym)

include hrestored hconnected hplain hconsistent hunnamed

/-- A key that is no modifier and has a scancode is sent, and the modifiers are restored. -/
theorem continues_scancode (hdesc : definitionOf keyboard.keys keysym=some desc)
    (hcode : desc.scancode.code≠0) (depth : ℕ) (pressed : Bool) :
    ∃ next, guacRdpKeyboardSendEvent (depth+2) keysym pressed keyboard=some next ∧
      Continues keyboard next := by
  obtain ⟨before,after,hplan,hfree,hmodifiers⟩ :=
    plan_unnamed hplain hconsistent hdesc hcode depth pressed
  refine ⟨_,by rw [follows_sendEvent keyboard.keys (depth+2) _ _ _ rfl,hplan]; rfl,?_⟩
  obtain ⟨hkeys,hstill,-⟩ := applyAll_same before keyboard
  have hstill' := hstill.trans hconnected
  have hsent : ((applyAll before keyboard).send (.key keysym desc.scancode pressed)).connected=
      true := (Keyboard.send_connected _ _).trans hstill'
  have hother : ∀ modifier, Named (definitionOf keyboard.keys) modifier →
      desc.scancode≠scancodeOf (definitionOf keyboard.keys) modifier := by
    intro modifier hmodifier hsame
    rw [(hplain modifier hmodifier).unique keysym desc hdesc hsame] at hunnamed
    exact hunnamed hmodifier
  have hneeded : ∀ modifier, Named (definitionOf keyboard.keys) modifier →
      remotePressed (applyAll before keyboard).events
        (scancodeOf (definitionOf keyboard.keys) modifier)=
      before.foldl (Action.remote (scancodeOf (definitionOf keyboard.keys) modifier))
        (isPressed keyboard.keys modifier) := by
    intro modifier hmodifier
    rw [remote_applyAll before hconnected,hrestored.modifiers modifier hmodifier]
  have hmet : PrerequisitesMet (definitionOf keyboard.keys)
      ((applyAll before keyboard).send (.key keysym desc.scancode pressed)).events := by
    rw [Keyboard.send_events hstill']
    refine prerequisitesMet_append.mpr ⟨met_applyAll (fun action haction =>
      hfree action (mem_append_left _ haction)) hconnected hrestored.met,?_⟩
    cases pressed with
    | false => trivial
    | true =>
      intro desc' hdesc'
      cases hdesc.symm.trans hdesc'
      constructor <;> intro modifier hmodifier
      · have hnamed : Named (definitionOf keyboard.keys) modifier :=
          ⟨keysym,desc,hdesc,Or.inl hmodifier⟩
        rw [hneeded modifier hnamed]
        exact (hmodifiers modifier hnamed).1 hmodifier
      · have hnamed : Named (definitionOf keyboard.keys) modifier :=
          ⟨keysym,desc,hdesc,Or.inr hmodifier⟩
        rw [hneeded modifier hnamed]
        exact (hmodifiers modifier hnamed).2.1 hmodifier
  simp only [applyAll_append,applyAll_cons,Action.apply]
  obtain ⟨hkeys',hstill'',-⟩ := applyAll_same after
    ((applyAll before keyboard).send (.key keysym desc.scancode pressed))
  have hsame := hkeys'.trans ((Keyboard.send_keys _ _).trans hkeys)
  refine ⟨⟨fun modifier hmodifier => ?_,?_⟩,hsame,hstill''.trans hsent⟩
  · rw [hsame] at hmodifier ⊢
    rw [remote_applyAll after hsent,Keyboard.send_events hstill',remotePressed_append,
      hneeded modifier hmodifier]
    simp only [foldl_cons,foldl_nil,Event.remote,hother modifier hmodifier,if_false]
    exact (hmodifiers modifier hmodifier).2.2
  · rw [hsame]
    exact met_applyAll (fun action haction => hfree action (mem_append_right _ haction))
      hsent hmet

/-- A key that is no modifier is sent without a dead key, and the modifiers are restored. -/
theorem continues_simple (hsimple : decomposition keyboard.keys keysym=none) (depth : ℕ)
    (pressed : Bool) :
    ∃ next, guacRdpKeyboardSendEvent (depth+2) keysym pressed keyboard=some next ∧
      Continues keyboard next := by
  cases hkey : scancodeKey keyboard.keys keysym with
  | some key =>
    obtain ⟨hget,hcode⟩ := Option.filter_eq_some_iff.mp hkey
    exact continues_scancode hrestored hconnected hplain hconsistent hunnamed
      (by rw [definitionOf,hget]; rfl) (by simpa using hcode) depth pressed
  | none =>
    rw [follows_sendEvent keyboard.keys (depth+2) _ _ _ rfl,plan,hkey,hsimple]
    cases pressed with
    | false => exact ⟨keyboard,rfl,hrestored,rfl,hconnected⟩
    | true =>
      exact ⟨_,rfl,continues_applyAll hrestored hconnected (by simp [Action.Free])
        fun modifier _ => rfl⟩

end

/-- Neither a dead key nor a base key has a decomposition. -/
theorem decomposition_typed (keys : ℕ→Key) :
    ∀ entry∈guacRdpDecomposedKeys, decomposition keys entry.2.1=none ∧
      decomposition keys entry.2.2=none := by
  have htable : ∀ entry∈guacRdpDecomposedKeys, guacRdpDecomposedKeys.lookup entry.2.1=none ∧
      guacRdpDecomposedKeys.lookup entry.2.2=none := by
    decide +kernel
  intro entry hentry
  simp [decomposition,htable entry hentry]

theorem decomposition_mem {keys : ℕ→Key} {entry : ℤ×ℤ}
    (h : decomposition keys keysym=some entry) : (keysym,entry)∈guacRdpDecomposedKeys := by
  obtain ⟨hlookup,-⟩ := Option.filter_eq_some_iff.mp h
  obtain ⟨before,after,htable,-⟩ := lookup_eq_some_iff.mp hlookup
  rw [htable]
  simp

/-- Every key that is no modifier is sent, and the modifiers are restored. -/
theorem continues_unnamed (hrestored : Restored keyboard) (hconnected : keyboard.connected=true)
    (hplain : ∀ modifier, Named (definitionOf keyboard.keys) modifier →
      Plain (definitionOf keyboard.keys) modifier)
    (hconsistent : Consistent (definitionOf keyboard.keys))
    (hunnamed : ¬Named (definitionOf keyboard.keys) keysym) (depth : ℕ) (pressed : Bool) :
    ∃ next, guacRdpKeyboardSendEvent (depth+3) keysym pressed keyboard=some next ∧
      Continues keyboard next := by
  cases htyped : decomposition keyboard.keys keysym with
  | none => exact continues_simple hrestored hconnected hplain hconsistent hunnamed htyped _ _
  | some entry =>
    cases hkey : scancodeKey keyboard.keys keysym with
    | some key =>
      obtain ⟨hget,hcode⟩ := Option.filter_eq_some_iff.mp hkey
      exact continues_scancode hrestored hconnected hplain hconsistent hunnamed
        (by rw [definitionOf,hget]; rfl) (by simpa using hcode) _ pressed
    | none =>
      rw [guacRdpKeyboardSendEvent,←scancodeKey,hkey]
      cases pressed with
      | false => exact ⟨keyboard,rfl,hrestored,rfl,hconnected⟩
      | true =>
        simp only [if_true,htyped]
        have hentry := decomposition_mem htyped
        obtain ⟨hdead,hbase⟩ := hconsistent.typed (keysym,entry) hentry
        obtain ⟨hdead',hbase'⟩ := decomposition_typed keyboard.keys (keysym,entry) hentry
        have hnext : ∀ k, ¬Named (definitionOf keyboard.keys) k →
            decomposition keyboard.keys k=none→∀ pressed before, Continues keyboard before →
            ∃ next, guacRdpKeyboardSendEvent (depth+2) k pressed before=some next ∧
              Continues keyboard next := by
          intro k hk hk' pressed before hbefore
          obtain ⟨next,hsend,hcontinues⟩ := continues_simple hbefore.restored
            hbefore.connected (by rwa [hbefore.keys]) (by rwa [hbefore.keys])
            (by rwa [hbefore.keys]) (by rwa [hbefore.keys]) depth pressed
          exact ⟨next,hsend,hcontinues.restored,hcontinues.keys.trans hbefore.keys,
            hcontinues.connected⟩
        obtain ⟨first,hfirst,hcontinues⟩ := hnext _ hdead hdead' true keyboard
          ⟨hrestored,rfl,hconnected⟩
        obtain ⟨second,hsecond,hcontinues⟩ := hnext _ hdead hdead' false first hcontinues
        obtain ⟨third,hthird,hcontinues⟩ := hnext _ hbase hbase' true second hcontinues
        obtain ⟨fourth,hfourth,hcontinues⟩ := hnext _ hbase hbase' false third hcontinues
        refine ⟨fourth,?_,hcontinues⟩
        simp [guacRdpDecomposeKeysym,hfirst,hsecond,hthird,hfourth]

/-! ## Runs -/

theorem mapKey_inj {keysym' : ℤ} {index : ℕ} (h : guacRdpKeyboardMapKey keysym=some index)
    (h' : guacRdpKeyboardMapKey keysym' = some index) : keysym=keysym' := by
  unfold guacRdpKeyboardMapKey at h h'
  split_ifs at h h' <;> simp only [Option.some.injEq] at h h' <;> omega

theorem definitionOf_setPressed (keysym : ℤ) (pressed : Bool) (keys : ℕ→Key) :
    definitionOf (setPressed keysym pressed keys)=definitionOf keys := by
  have hindex : ∀ index, (setPressed keysym pressed keys index).definition=
      (keys index).definition := by
    intro index
    unfold setPressed
    cases guacRdpKeyboardMapKey keysym with
    | none => rfl
    | some changed =>
      simp only
      split_ifs
      · by_cases hsame : index=changed
        · simp [hsame]
        · simp [hsame]
      · rfl
  funext k
  simp only [definitionOf,guacRdpKeyboardGetKey]
  cases guacRdpKeyboardMapKey k with
  | none => rfl
  | some index => simp [hindex,Option.map_map,Function.comp_def]

theorem isPressed_setPressed_ne {k : ℤ} (h : k≠keysym) (pressed : Bool) (keys : ℕ→Key) :
    isPressed (setPressed keysym pressed keys) k=isPressed keys k := by
  simp only [isPressed,guacRdpKeyboardGetKey]
  cases hk : guacRdpKeyboardMapKey k with
  | none => rfl
  | some index =>
    have hsame : setPressed keysym pressed keys index=keys index := by
      unfold setPressed
      cases hchanged : guacRdpKeyboardMapKey keysym with
      | none => rfl
      | some changed =>
        have hne : index≠changed := by
          rintro rfl
          exact h (mapKey_inj hk hchanged)
        simp only
        split_ifs <;> simp [hne]
    simp only [hsame]

theorem isPressed_setPressed_self {keys : ℕ→Key} (h : definitionOf keys keysym=some desc)
    (pressed : Bool) : isPressed (setPressed keysym pressed keys) keysym=pressed := by
  unfold definitionOf guacRdpKeyboardGetKey at h
  unfold isPressed guacRdpKeyboardGetKey setPressed
  cases hk : guacRdpKeyboardMapKey keysym with
  | none => simp [hk] at h
  | some index =>
    cases hdefinition : (keys index).definition with
    | none => simp [hk,hdefinition] at h
    | some desc' => simp [hdefinition]

/-- The keys that a keymap defines. -/
def Keymap.defines (keymap : Keymap) : ℤ→Option KeysymDesc :=
  definitionOf (guacRdpKeyboardAlloc true keymap).keys

/-- A keymap whose modifiers are defined without prerequisites and have scancodes that no
other key has. -/
structure ModifierKeymap where
  keymap : Keymap
  /-- What the keys need can be sent at once. -/
  plain : ∀ modifier, Named keymap.defines modifier→Plain keymap.defines modifier

/-- A keymap whose keys need no modifier both ways, and no modifier of which is typed. -/
structure ConsistentKeymap extends ModifierKeymap where
  /-- The modifiers can be pressed and released as the keys need. -/
  consistent : Consistent keymap.defines

theorem loadMapping_pressed (keys : ℕ→Key) (mapping : List KeysymDesc) (index : ℕ) :
    (loadMapping keys mapping index).pressed=(keys index).pressed := by
  induction mapping generalizing keys with
  | nil => rfl
  | cons desc mapping ih =>
    rw [loadMapping]
    cases guacRdpKeyboardMapKey desc.keysym with
    | none => exact ih keys
    | some changed =>
      rw [ih]
      by_cases hsame : index=changed
      · simp [hsame]
      · simp [hsame]

theorem loadKeymap_pressed (keymap : Keymap) (keys : ℕ→Key) (index : ℕ) :
    (guacRdpKeyboardLoadKeymap keys keymap index).pressed=(keys index).pressed := by
  induction keymap with
  | base mapping => exact loadMapping_pressed keys mapping index
  | child parent mapping ih => rw [guacRdpKeyboardLoadKeymap,loadMapping_pressed,ih]

/-- No key is pressed at first. -/
theorem restored_alloc (connected : Bool) (keymap : Keymap) :
    Restored (guacRdpKeyboardAlloc connected keymap) := by
  constructor
  · intro modifier _
    simp only [guacRdpKeyboardAlloc,remotePressed,foldl_nil,isPressed,guacRdpKeyboardGetKey]
    cases guacRdpKeyboardMapKey modifier with
    | none => rfl
    | some index =>
      simp only [loadKeymap_pressed,Option.map_map]
      cases (guacRdpKeyboardLoadKeymap (fun _ => ⟨none,false⟩) keymap index).definition <;> rfl
  · exact fun sent event later h => absurd h (by simp [guacRdpKeyboardAlloc])

/-- Before the events of a call are sent, only a synchronize event is. -/
theorem updateLocal_events (hconnected : keyboard.connected=true) (keysym : ℤ) (pressed : Bool) :
    (updateLocal keysym pressed keyboard).events=keyboard.events ∨
      ∃ flags, (updateLocal keysym pressed keyboard).events=
        keyboard.events++[.synchronize flags] := by
  unfold updateLocal synchronizeOnce
  cases keyboard.synchronized with
  | true => exact Or.inl rfl
  | false => exact Or.inr ⟨keyboard.lockFlags,Keyboard.send_events hconnected _⟩

theorem updateLocal_same (keysym : ℤ) (pressed : Bool) (keyboard : Keyboard) :
    (updateLocal keysym pressed keyboard).keys=setPressed keysym pressed keyboard.keys ∧
      (updateLocal keysym pressed keyboard).connected=keyboard.connected := by
  unfold updateLocal synchronizeOnce
  cases keyboard.synchronized <;> simp

/-- What holds in every state of a run. -/
structure Running (keymap : Keymap) (keyboard : Keyboard) : Prop where
  restored : Restored keyboard
  keymap : definitionOf keyboard.keys=keymap.defines
  connected : keyboard.connected=true

theorem running_update (map : ConsistentKeymap) (h : Running map.keymap keyboard) (depth : ℕ)
    (call : ℤ×Bool) :
    ∃ next, guacRdpKeyboardUpdateKeysym (depth+3) call keyboard=some next ∧
      Running map.keymap next := by
  obtain ⟨keysym,pressed⟩ := call
  obtain ⟨hrestored,hkeymap,hconnected⟩ := h
  obtain ⟨hkeys,hconnected'⟩ := updateLocal_same keysym pressed keyboard
  rw [hconnected] at hconnected'
  have hdefines : definitionOf (updateLocal keysym pressed keyboard).keys=map.keymap.defines := by
    rw [hkeys,definitionOf_setPressed,hkeymap]
  have hremote : ∀ scancode, remotePressed (updateLocal keysym pressed keyboard).events scancode=
      remotePressed keyboard.events scancode := by
    intro scancode
    rcases updateLocal_events hconnected keysym pressed with hevents | ⟨flags,hevents⟩
    · rw [hevents]
    · rw [hevents,remotePressed_append]
      rfl
  have hmet : PrerequisitesMet map.keymap.defines (updateLocal keysym pressed keyboard).events := by
    have hbefore := hrestored.met
    rw [hkeymap] at hbefore
    rcases updateLocal_events hconnected keysym pressed with hevents | ⟨flags,hevents⟩
    · rwa [hevents]
    · rw [hevents]
      exact prerequisitesMet_append.mpr ⟨hbefore,trivial⟩
  have hothers : ∀ modifier, Named map.keymap.defines modifier → modifier≠keysym →
      remotePressed (updateLocal keysym pressed keyboard).events
        (scancodeOf map.keymap.defines modifier)=
      isPressed (updateLocal keysym pressed keyboard).keys modifier := by
    intro modifier hmodifier hne
    have hbefore := hrestored.modifiers modifier (by rwa [hkeymap])
    rw [hkeymap] at hbefore
    rw [hremote,hbefore,hkeys,isPressed_setPressed_ne hne]
  rw [guacRdpKeyboardUpdateKeysym]
  by_cases hnamed : Named map.keymap.defines keysym
  · have hplain := map.plain keysym hnamed
    obtain ⟨desc,hdesc,-⟩ := hplain.desc
    rw [←hdefines] at hplain
    obtain ⟨setFlags,clearFlags,hplan⟩ := plan_plain hplain (depth+2) pressed
    have hfree := free_plain hplain setFlags clearFlags
      (scancodeOf map.keymap.defines keysym) pressed
    rw [follows_sendEvent _ _ _ _ _ rfl,hplan,hdefines,Option.map_some]
    rw [hdefines] at hplain hfree
    refine ⟨_,rfl,?_⟩
    generalize hsent : [Action.locks setFlags clearFlags,
      .key keysym (scancodeOf map.keymap.defines keysym) pressed]=sent at hfree ⊢
    obtain ⟨hsame,hstill,-⟩ := applyAll_same sent (updateLocal keysym pressed keyboard)
    refine ⟨⟨fun modifier hmodifier => ?_,?_⟩,by rw [hsame,hdefines],hstill.trans hconnected'⟩
    · rw [hsame,hdefines] at hmodifier ⊢
      rw [remote_applyAll sent hconnected',←hsent]
      simp only [foldl_cons,foldl_nil,Action.remote,
        scancodeOf_inj (map.plain modifier hmodifier) hdesc]
      by_cases hself : modifier=keysym
      · rw [if_pos hself,hself,hkeys]
        exact (isPressed_setPressed_self (by rwa [hkeymap]) pressed).symm
      · rw [if_neg hself]
        exact hothers modifier hmodifier hself
    · rw [hsame,hdefines]
      exact met_applyAll hfree hconnected' hmet
  · have hlocal : Restored (updateLocal keysym pressed keyboard) := by
      refine ⟨fun modifier hmodifier => ?_,by rwa [hdefines]⟩
      rw [hdefines] at hmodifier ⊢
      refine hothers modifier hmodifier ?_
      rintro rfl
      exact hnamed hmodifier
    obtain ⟨next,hsend,hcontinues⟩ := continues_unnamed hlocal hconnected'
      (by rw [hdefines]; exact map.plain) (by rw [hdefines]; exact map.consistent)
      (by rwa [hdefines]) depth pressed
    exact ⟨next,hsend,hcontinues.restored,by rw [hcontinues.keys,hdefines],hcontinues.connected⟩

/-- While there is a connection every sequence of calls is carried out, after each of them
the remote state of every modifier is its local state, and every key was pressed with the
modifiers that it needs. -/
theorem modifiers_restored (map : ConsistentKeymap) (depth : ℕ) (calls : List (ℤ×Bool)) :
    ∃ keyboard, run (guacRdpKeyboardUpdateKeysym (depth+3)) calls
      (guacRdpKeyboardAlloc true map.keymap)=some keyboard ∧ Restored keyboard := by
  have hrun : ∀ keyboard, Running map.keymap keyboard →
      ∃ next, run (guacRdpKeyboardUpdateKeysym (depth+3)) calls keyboard=some next ∧
        Running map.keymap next := by
    induction calls with
    | nil => exact fun keyboard h => ⟨keyboard,rfl,h⟩
    | cons call calls ih =>
      intro keyboard h
      obtain ⟨next,hnext,hrunning⟩ := running_update map h depth call
      rw [run,hnext]
      exact ih next hrunning
  obtain ⟨keyboard,hkeyboard,hrunning⟩ := hrun _ ⟨restored_alloc true map.keymap,rfl,rfl⟩
  exact ⟨keyboard,hkeyboard,hrunning.restored⟩

/-! ## Keymaps whose modifiers are not restored -/

theorem loadMapping_defines (keys : ℕ→Key) (mapping : List KeysymDesc)
    (h : definitionOf (loadMapping keys mapping) keysym=some desc) :
    definitionOf keys keysym=some desc ∨ desc∈mapping ∧ desc.keysym=keysym := by
  induction mapping generalizing keys with
  | nil => exact Or.inl h
  | cons first mapping ih =>
    rw [loadMapping] at h
    cases hindex : guacRdpKeyboardMapKey first.keysym with
    | none =>
      rw [hindex] at h
      exact (ih keys h).imp_right (And.imp_left (mem_cons_of_mem _))
    | some index =>
      rw [hindex] at h
      rcases ih _ h with hbefore | hlater
      · unfold definitionOf guacRdpKeyboardGetKey at hbefore ⊢
        cases hk : guacRdpKeyboardMapKey keysym with
        | none => simp [hk] at hbefore
        | some index' =>
          by_cases hsame : index' = index
          · have hfirst : first=desc := by simpa [hk,hsame] using hbefore
            subst hfirst
            exact Or.inr ⟨mem_cons_self ..,mapKey_inj hindex (hsame ▸ hk)⟩
          · exact Or.inl (by simpa [hk,hsame] using hbefore)
      · exact Or.inr (hlater.imp_left (mem_cons_of_mem _))

/-- What a keymap without a parent defines is in its mapping. -/
theorem defines_base (h : (Keymap.base mapping).defines keysym=some desc) :
    desc∈mapping ∧ desc.keysym=keysym := by
  refine (loadMapping_defines _ mapping h).resolve_left fun hempty => ?_
  unfold definitionOf guacRdpKeyboardGetKey at hempty
  cases hk : guacRdpKeyboardMapKey keysym with
  | none => simp [hk] at hempty
  | some index => simp [hk] at hempty

/-- The keys of a mapping name modifiers that are defined without prerequisites and do not
share their scancodes. -/
def plainMapping (mapping : List KeysymDesc) : Prop :=
  ∀ desc∈mapping, ∀ modifier∈desc.setKeysyms++desc.clearKeysyms, ∃ plain∈mapping,
    (Keymap.base mapping).defines modifier=some plain ∧ plain.scancode.code≠0 ∧
    plain.setKeysyms=[] ∧ plain.clearKeysyms=[] ∧
    ∀ other∈mapping, other.scancode=plain.scancode → other.keysym=modifier

instance (mapping : List KeysymDesc) : Decidable (plainMapping mapping) :=
  inferInstanceAs (Decidable (∀ desc∈mapping, _))

theorem plain_of_plainMapping (h : plainMapping mapping) (modifier : ℤ)
    (hnamed : Named (Keymap.base mapping).defines modifier) :
    Plain (Keymap.base mapping).defines modifier := by
  obtain ⟨keysym,desc,hdesc,hin⟩ := hnamed
  obtain ⟨plain,-,hplain,hcode,hset,hclear,hunique⟩ :=
    h desc (defines_base hdesc).1 modifier (mem_append.mpr hin)
  refine ⟨⟨plain,hplain,hcode,hset,hclear⟩,fun keysym' other hother hsame => ?_⟩
  obtain ⟨hmem,rfl⟩ := defines_base hother
  exact hunique other hmem (by rw [hsame,scancodeOf_eq hplain])

/-- No dead key and no base key is a modifier of a mapping. -/
def typedMapping (mapping : List KeysymDesc) : Prop :=
  ∀ entry∈guacRdpDecomposedKeys, ∀ desc∈mapping, entry.2.1 ∉ desc.setKeysyms++desc.clearKeysyms ∧
    entry.2.2 ∉ desc.setKeysyms++desc.clearKeysyms

instance (mapping : List KeysymDesc) : Decidable (typedMapping mapping) :=
  inferInstanceAs (Decidable (∀ entry∈guacRdpDecomposedKeys, _))

theorem typed_of_typedMapping (h : typedMapping mapping) :
    ∀ entry∈guacRdpDecomposedKeys, ¬Named (Keymap.base mapping).defines entry.2.1 ∧
      ¬Named (Keymap.base mapping).defines entry.2.2 := by
  intro entry hentry
  constructor <;> rintro ⟨keysym,desc,hdesc,hin⟩
  · exact (h entry hentry desc (defines_base hdesc).1).1 (mem_append.mpr hin)
  · exact (h entry hentry desc (defines_base hdesc).1).2 (mem_append.mpr hin)

/-- The left shift key, and the key A, which needs shift. -/
def shiftMapping : List KeysymDesc := [⟨0xFFE1,⟨0x2A,0⟩,[],[],0,0⟩,⟨0x41,⟨0x1E,0⟩,[0xFFE1],[],0,0⟩]

/-- The same for a key A that needs shift to be both pressed and released. -/
def bothMapping : List KeysymDesc :=
  [⟨0xFFE1,⟨0x2A,0⟩,[],[],0,0⟩,⟨0x41,⟨0x1E,0⟩,[0xFFE1],[0xFFE1],0,0⟩]

/-- A dead acute key that is needed by the key A, and the key o. -/
def deadMapping : List KeysymDesc :=
  [⟨0xFE51,⟨0x28,0⟩,[],[],0,0⟩,⟨0x6F,⟨0x18,0⟩,[],[],0,0⟩,⟨0x41,⟨0x1E,0⟩,[0xFE51],[],0,0⟩]

theorem disjoint_base
    (h : ∀ desc∈mapping, ∀ modifier∈desc.setKeysyms, modifier ∉ desc.clearKeysyms) :
    ∀ keysym desc, (Keymap.base mapping).defines keysym=some desc →
      ∀ modifier∈desc.setKeysyms, modifier ∉ desc.clearKeysyms :=
  fun _ desc hdesc => h desc (defines_base hdesc).1

/-- A modifier is not restored whose remote and local states are different. -/
theorem not_restored_of_state {modifier : ℤ} (hdesc : definitionOf keyboard.keys 0x41=some desc)
    (hin : modifier∈desc.setKeysyms)
    (hstate : remotePressed keyboard.events (scancodeOf (definitionOf keyboard.keys) modifier)≠
      isPressed keyboard.keys modifier) : ¬Restored keyboard :=
  fun h => hstate (h.modifiers modifier ⟨0x41,desc,hdesc,Or.inl hin⟩)

/-- Without a connection no event is sent when shift is pressed; a key cannot be pressed with
shift both pressed and released; and a dead acute key that is held is released when the
letter ó is typed with it. -/
theorem not_modifiers_restored :
    (∃ (map : ConsistentKeymap) (calls : List (ℤ×Bool)) (keyboard : Keyboard),
      run (guacRdpKeyboardUpdateKeysym 3) calls (guacRdpKeyboardAlloc false map.keymap)=
        some keyboard ∧ ¬Restored keyboard) ∧
    (∃ (map : ModifierKeymap) (calls : List (ℤ×Bool)) (keyboard : Keyboard),
      (∀ entry∈guacRdpDecomposedKeys, ¬Named map.keymap.defines entry.2.1 ∧
        ¬Named map.keymap.defines entry.2.2) ∧
      run (guacRdpKeyboardUpdateKeysym 3) calls (guacRdpKeyboardAlloc true map.keymap)=
        some keyboard ∧ ¬Restored keyboard) ∧
    ∃ (map : ModifierKeymap) (calls : List (ℤ×Bool)) (keyboard : Keyboard),
      (∀ keysym desc, map.keymap.defines keysym=some desc →
        ∀ modifier∈desc.setKeysyms, modifier ∉ desc.clearKeysyms) ∧
      run (guacRdpKeyboardUpdateKeysym 3) calls (guacRdpKeyboardAlloc true map.keymap)=
        some keyboard ∧ ¬Restored keyboard := by
  refine ⟨?_,?_,?_⟩
  · have hrun : (run (guacRdpKeyboardUpdateKeysym 3) [(0xFFE1,true)]
        (guacRdpKeyboardAlloc false (.base shiftMapping))).map (fun keyboard =>
          (definitionOf keyboard.keys 0x41,
            remotePressed keyboard.events (scancodeOf (definitionOf keyboard.keys) 0xFFE1),
            isPressed keyboard.keys 0xFFE1))=
        some (some ⟨0x41,⟨0x1E,0⟩,[0xFFE1],[],0,0⟩,false,true) := by
      decide +kernel
    obtain ⟨keyboard,hkeyboard,hstate⟩ := Option.map_eq_some_iff.mp hrun
    simp only [Prod.mk.injEq] at hstate
    exact ⟨⟨⟨.base shiftMapping,plain_of_plainMapping (by decide +kernel)⟩,
        ⟨disjoint_base (by decide +kernel),typed_of_typedMapping (by decide +kernel)⟩⟩,_,
      keyboard,hkeyboard,not_restored_of_state hstate.1 (mem_singleton_self _)
        (by simp [hstate.2])⟩
  · have hrun : (run (guacRdpKeyboardUpdateKeysym 3) [(0x41,true)]
        (guacRdpKeyboardAlloc true (.base bothMapping))).map (fun keyboard =>
          (definitionOf keyboard.keys 0x41,definitionOf keyboard.keys 0xFFE1,keyboard.events))=
        some (some ⟨0x41,⟨0x1E,0⟩,[0xFFE1],[0xFFE1],0,0⟩,some ⟨0xFFE1,⟨0x2A,0⟩,[],[],0,0⟩,
          [.synchronize 0,.key 0xFFE1 ⟨0x2A,0⟩ true,.key 0x41 ⟨0x1E,0⟩ true,
            .key 0xFFE1 ⟨0x2A,0⟩ false]) := by
      decide +kernel
    obtain ⟨keyboard,hkeyboard,hstate⟩ := Option.map_eq_some_iff.mp hrun
    simp only [Prod.mk.injEq] at hstate
    obtain ⟨hdesc,hshift,hevents⟩ := hstate
    refine ⟨⟨.base bothMapping,plain_of_plainMapping (by decide +kernel)⟩,_,keyboard,
      typed_of_typedMapping (by decide +kernel),hkeyboard,fun h => ?_⟩
    have hmet := h.met [.synchronize 0,.key 0xFFE1 ⟨0x2A,0⟩ true] (.key 0x41 ⟨0x1E,0⟩ true) _
      hevents _ hdesc
    have hreleased := hmet.2 0xFFE1 (mem_singleton_self _)
    rw [scancodeOf_eq hshift] at hreleased
    exact absurd hreleased (by decide)
  · have hrun : (run (guacRdpKeyboardUpdateKeysym 3) [(0xFE51,true),(0xF3,true)]
        (guacRdpKeyboardAlloc true (.base deadMapping))).map (fun keyboard =>
          (definitionOf keyboard.keys 0x41,
            remotePressed keyboard.events (scancodeOf (definitionOf keyboard.keys) 0xFE51),
            isPressed keyboard.keys 0xFE51))=
        some (some ⟨0x41,⟨0x1E,0⟩,[0xFE51],[],0,0⟩,false,true) := by
      decide +kernel
    obtain ⟨keyboard,hkeyboard,hstate⟩ := Option.map_eq_some_iff.mp hrun
    simp only [Prod.mk.injEq] at hstate
    exact ⟨⟨.base deadMapping,plain_of_plainMapping (by decide +kernel)⟩,_,keyboard,
      disjoint_base (by decide +kernel),hkeyboard,
      not_restored_of_state hstate.1 (mem_singleton_self _) (by simp [hstate.2])⟩

end GuacServer.RdpKeyboard
