import GuacServer.RdpKeyboard

/-!
# Plans of key events

Which keys are sent depends on the keymap and on the local state of the keys, and neither
changes while they are sent. So a key is sent by carrying out a plan, a list of lock
updates and events that is known beforehand.
-/

namespace GuacServer.RdpKeyboard

/-- What is done to send a key. -/
inductive Action where
  | locks (setFlags clearFlags : LockFlags)
  | key (keysym : ℤ) (scancode : Scancode) (pressed : Bool)
  | unicode (keysym : ℤ)
  deriving DecidableEq

/-- The action is carried out. -/
def Action.apply : Action→Keyboard→Keyboard
  | .locks setFlags clearFlags => guacRdpKeyboardUpdateLocks setFlags clearFlags
  | .key keysym scancode pressed => fun keyboard => keyboard.send (.key keysym scancode pressed)
  | .unicode keysym => guacRdpSendUnicodeEvent keysym

/-- Actions are carried out one after the other. -/
def applyAll (actions : List Action) (keyboard : Keyboard) : Keyboard :=
  actions.foldl (fun keyboard action => action.apply keyboard) keyboard

/-- A plan for each key. -/
abbrev Plan := ℤ→Bool→Option (List Action)

/-- The plan for those keys of a list that are in a state. -/
def planEvents (plan : Plan) (keys : ℕ→Key) (fromState toState : Bool) : List ℤ→Option (List Action)
  | [] => some []
  | keysym::keysyms =>
    let first :=
      match guacRdpKeyboardGetKey keys keysym with
      | some (_,state) => if state=fromState then plan keysym toState else some []
      | none => some []
    first.bind fun first =>
      (planEvents plan keys fromState toState keysyms).map fun rest => first++rest

/-- What is done before the event of a key. -/
def planBefore (plan : Plan) (keys : ℕ→Key) (desc : KeysymDesc) : Option (List Action) :=
  (planEvents plan keys false true desc.setKeysyms).bind fun pressed =>
    (planEvents plan keys true false desc.clearKeysyms).map fun released =>
      .locks desc.setLocks desc.clearLocks::(pressed++released)

/-- What is done after the event of a key. -/
def planAfter (plan : Plan) (keys : ℕ→Key) (desc : KeysymDesc) : Option (List Action) :=
  (planEvents plan keys false false desc.setKeysyms).bind fun released =>
    (planEvents plan keys true true desc.clearKeysyms).map fun pressed => released++pressed

/-- The plan for a key that is typed with a dead key. -/
def planDecomposed (plan : Plan) (deadKeysym baseKeysym : ℤ) : Option (List Action) :=
  (plan deadKeysym true).bind fun deadPress =>
  (plan deadKeysym false).bind fun deadRelease =>
  (plan baseKeysym true).bind fun basePress =>
  (plan baseKeysym false).map fun baseRelease =>
    deadPress++(deadRelease++(basePress++baseRelease))

/-- The definition of a key that has a scancode, with its state. -/
def scancodeKey (keys : ℕ→Key) (keysym : ℤ) : Option (KeysymDesc×Bool) :=
  (guacRdpKeyboardGetKey keys keysym).filter fun key => decide (key.1.scancode.code≠0)

/-- The plan for a key, with so many nested calls at most. -/
def plan (keys : ℕ→Key) : ℕ→Plan
  | 0, _, _ => none
  | depth+1, keysym, pressed =>
    match scancodeKey keys keysym with
    | some (desc,_) =>
      (planBefore (plan keys depth) keys desc).bind fun before =>
        (planAfter (plan keys depth) keys desc).map fun after =>
          before ++ .key keysym desc.scancode pressed::after
    | none =>
      if pressed then
        match decomposition keys keysym with
        | some (deadKeysym,baseKeysym) => planDecomposed (plan keys depth) deadKeysym baseKeysym
        | none => some [.unicode keysym]
      else some []

/-! ## Carrying out a plan -/

section

variable (keyboard : Keyboard)

@[simp] theorem Keyboard.send_keys (event : Event) :
    (keyboard.send event).keys=keyboard.keys := by
  unfold Keyboard.send
  split <;> rfl

@[simp] theorem Keyboard.send_connected (event : Event) :
    (keyboard.send event).connected=keyboard.connected := by
  unfold Keyboard.send
  split <;> rfl

@[simp] theorem Keyboard.send_synchronized (event : Event) :
    (keyboard.send event).synchronized=keyboard.synchronized := by
  unfold Keyboard.send
  split <;> rfl

@[simp] theorem Keyboard.send_lockFlags (event : Event) :
    (keyboard.send event).lockFlags=keyboard.lockFlags := by
  unfold Keyboard.send
  split <;> rfl

end

variable {keyboard : Keyboard}

theorem Keyboard.send_events (h : keyboard.connected=true)
    (event : Event) : (keyboard.send event).events=keyboard.events++[event] := by
  simp [Keyboard.send,h]

/-- Neither the keys nor the connection change, and what was sent stays sent. -/
theorem Action.apply_same (action : Action) (keyboard : Keyboard) :
    (action.apply keyboard).keys=keyboard.keys ∧
      (action.apply keyboard).connected=keyboard.connected ∧
      (action.apply keyboard).synchronized=keyboard.synchronized := by
  cases action with
  | locks setFlags clearFlags =>
    simp only [Action.apply,guacRdpKeyboardUpdateLocks]
    split_ifs <;> simp
  | key => simp [Action.apply]
  | unicode keysym =>
    simp only [Action.apply,guacRdpSendUnicodeEvent]
    cases codepoint keysym <;> simp

theorem applyAll_same (actions : List Action) (keyboard : Keyboard) :
    (applyAll actions keyboard).keys=keyboard.keys ∧
      (applyAll actions keyboard).connected=keyboard.connected ∧
      (applyAll actions keyboard).synchronized=keyboard.synchronized := by
  induction actions generalizing keyboard with
  | nil => exact ⟨rfl,rfl,rfl⟩
  | cons action actions ih =>
    obtain ⟨hkeys,hconnected,hsynchronized⟩ := action.apply_same keyboard
    obtain ⟨hkeys',hconnected',hsynchronized'⟩ := ih (action.apply keyboard)
    exact ⟨hkeys'.trans hkeys,hconnected'.trans hconnected,hsynchronized'.trans hsynchronized⟩

theorem applyAll_append (first second : List Action) (keyboard : Keyboard) :
    applyAll (first++second) keyboard=applyAll second (applyAll first keyboard) :=
  List.foldl_append

theorem applyAll_cons (action : Action) (actions : List Action) (keyboard : Keyboard) :
    applyAll (action::actions) keyboard=applyAll actions (action.apply keyboard) := rfl

/-- Keys are sent as a plan for them says. -/
def Follows (sendEvent : SendKey) (keys : ℕ→Key) (plan : Plan) : Prop :=
  ∀ keysym pressed keyboard, keyboard.keys=keys → sendEvent keysym pressed keyboard=
      (plan keysym pressed).map fun actions => applyAll actions keyboard

variable {sendEvent : SendKey} {keys : ℕ→Key}

/-- Events are sent as they are planned. -/
theorem sendEvents_eq {plan : Plan}
    (h : Follows sendEvent keys plan) (fromState toState : Bool) (keysyms : List ℤ)
    (hkeys : keyboard.keys=keys) :
    guacRdpKeyboardSendEvents sendEvent fromState toState keysyms keyboard=
      (planEvents plan keys fromState toState keysyms).map
        fun actions => applyAll actions keyboard := by
  induction keysyms generalizing keyboard with
  | nil => rfl
  | cons keysym keysyms ih =>
    have hrest : ∀ first : Option (List Action),
        (first.map fun actions => applyAll actions keyboard).bind
          (guacRdpKeyboardSendEvents sendEvent fromState toState keysyms)=
        (first.bind fun first => (planEvents plan keys fromState toState keysyms).map
          fun rest => first++rest).map fun actions => applyAll actions keyboard := by
      intro first
      cases first with
      | none => rfl
      | some first =>
        rw [Option.map_some,Option.bind_some,Option.bind_some,
          ih ((applyAll_same first keyboard).1.trans hkeys),Option.map_map]
        congr 1
        funext rest
        exact (applyAll_append first rest keyboard).symm
    rw [guacRdpKeyboardSendEvents,planEvents,hkeys]
    cases hkey : guacRdpKeyboardGetKey keys keysym with
    | none => exact hrest (some [])
    | some key =>
      simp only
      split_ifs
      · rw [h keysym toState keyboard hkeys]
        exact hrest _
      · exact hrest (some [])

theorem applyAll_keys (h : keyboard.keys=keys)
    (actions : List Action) : (applyAll actions keyboard).keys=keys :=
  (applyAll_same actions keyboard).1.trans h

/-- A key that has a scancode is sent as its plan says. -/
theorem send_scancode {plan : Plan}
    (h : Follows sendEvent keys plan) (keysym : ℤ) (pressed : Bool) (desc : KeysymDesc)
    (hkeys : keyboard.keys=keys) :
    (guacRdpKeyboardSendEvents sendEvent false true desc.setKeysyms
      (guacRdpKeyboardUpdateLocks desc.setLocks desc.clearLocks keyboard)).bind (fun keyboard =>
      (guacRdpKeyboardSendEvents sendEvent true false desc.clearKeysyms keyboard).bind
        fun keyboard =>
      (guacRdpKeyboardSendEvents sendEvent false false desc.setKeysyms
        (keyboard.send (.key keysym desc.scancode pressed))).bind
      (guacRdpKeyboardSendEvents sendEvent true true desc.clearKeysyms))=
    ((planBefore plan keys desc).bind fun before => (planAfter plan keys desc).map fun after =>
      before ++ .key keysym desc.scancode pressed::after).map
        fun actions => applyAll actions keyboard := by
  have hlocks : (guacRdpKeyboardUpdateLocks desc.setLocks desc.clearLocks keyboard).keys=keys :=
    (Action.apply_same (.locks desc.setLocks desc.clearLocks) keyboard).1.trans hkeys
  rw [planBefore,planAfter,sendEvents_eq h _ _ _ hlocks]
  cases planEvents plan keys false true desc.setKeysyms with
  | none => rfl
  | some first =>
    have hfirst := applyAll_keys hlocks first
    simp only [Option.map_some,Option.bind_some]
    rw [sendEvents_eq h _ _ _ hfirst]
    cases planEvents plan keys true false desc.clearKeysyms with
    | none => rfl
    | some second =>
      have hsecond := applyAll_keys hfirst second
      simp only [Option.map_some,Option.bind_some]
      rw [sendEvents_eq h _ _ _ ((Keyboard.send_keys _ _).trans hsecond)]
      cases planEvents plan keys false false desc.setKeysyms with
      | none => rfl
      | some third =>
        have hthird := applyAll_keys ((Keyboard.send_keys _
          (.key keysym desc.scancode pressed)).trans hsecond) third
        simp only [Option.map_some,Option.bind_some]
        rw [sendEvents_eq h _ _ _ hthird]
        cases planEvents plan keys true true desc.clearKeysyms with
        | none => rfl
        | some fourth =>
          simp only [Option.map_some,List.cons_append,applyAll_cons,applyAll_append,Action.apply]

/-- A key that is typed with a dead key is sent as its plan says. -/
theorem send_decomposed {plan : Plan}
    (h : Follows sendEvent keys plan) (deadKeysym baseKeysym : ℤ) (hkeys : keyboard.keys=keys) :
    guacRdpDecomposeKeysym sendEvent deadKeysym baseKeysym keyboard=
      (planDecomposed plan deadKeysym baseKeysym).map fun actions => applyAll actions keyboard := by
  rw [guacRdpDecomposeKeysym,planDecomposed,h _ _ _ hkeys]
  cases plan deadKeysym true with
  | none => rfl
  | some first =>
    have hfirst := applyAll_keys hkeys first
    simp only [Option.map_some,Option.bind_some]
    rw [h _ _ _ hfirst]
    cases plan deadKeysym false with
    | none => rfl
    | some second =>
      have hsecond := applyAll_keys hfirst second
      simp only [Option.map_some,Option.bind_some]
      rw [h _ _ _ hsecond]
      cases plan baseKeysym true with
      | none => rfl
      | some third =>
        have hthird := applyAll_keys hsecond third
        simp only [Option.map_some,Option.bind_some]
        rw [h _ _ _ hthird]
        cases plan baseKeysym false with
        | none => rfl
        | some fourth => simp only [Option.map_some,applyAll_append]

/-- A key is sent by carrying out its plan. -/
theorem follows_sendEvent (keys : ℕ→Key) (depth : ℕ) :
    Follows (guacRdpKeyboardSendEvent depth) keys (plan keys depth) := by
  induction depth with
  | zero => exact fun _ _ _ _ => rfl
  | succ depth ih =>
    intro keysym pressed keyboard hkeys
    rw [guacRdpKeyboardSendEvent,plan,hkeys,←scancodeKey]
    cases scancodeKey keys keysym with
    | some key => exact send_scancode ih keysym pressed key.1 hkeys
    | none =>
      cases pressed with
      | false => rfl
      | true =>
        simp only [if_true]
        cases decomposition keys keysym with
        | none => rfl
        | some keysyms => exact send_decomposed ih keysyms.1 keysyms.2 hkeys

end GuacServer.RdpKeyboard
