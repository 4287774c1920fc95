import Mathlib.Data.Finset.Basic
import GuacServer.KeyDefinitions
import GuacServer.StateRuns

/-!
# The log of keys

guaclog tracks modifiers in an array, from the end of which released ones are
removed, and writes a text for every other key that is pressed. The key
definitions in the array are owned by it: none is freed twice or used after it
is freed. A shortcut is told by any key that is tracked, whether it is held or
not.
-/

namespace GuacServer.KeyLog

open KeyDefinitions List StateRuns Unicode

/-- GUACLOG_MAX_KEYS. -/
def guaclogMaxKeys : ℕ := 256

/-- A key definition in memory. -/
structure KeydefPointer where
  /-- Where it was allocated. -/
  address : ℕ
  /-- The definition, as long as it is not freed. -/
  keydef : Keydef
  deriving DecidableEq

/-- guaclog_key_state. -/
structure KeyState where
  /-- The definition of the key. -/
  pointer : KeydefPointer
  pressed : Bool
  deriving DecidableEq

/-- guaclog_state, with the memory of key definitions. -/
structure GuaclogState where
  /-- What was written to the output file. -/
  output : List UInt8
  /-- The active entries of key_states. -/
  keyStates : List KeyState
  /-- The addresses of the definitions that are allocated. -/
  live : Finset ℕ
  /-- The number of definitions that were ever allocated, which is the next address. -/
  allocated : ℕ

/-- The state of a new log. -/
def guaclogStateAlloc : GuaclogState := ⟨[],[],∅,0⟩

/-- Access to a definition, which has no value once it is freed. -/
def GuaclogState.deref (state : GuaclogState) (pointer : KeydefPointer) : Option Keydef :=
  if pointer.address∈state.live then some pointer.keydef else none

/-- guaclog_keydef_alloc: a definition of its own. -/
def GuaclogState.alloc (state : GuaclogState) (keysym : Int32) : KeydefPointer×GuaclogState :=
  (⟨state.allocated,guaclogKeydefAlloc keysym⟩,
    { state with
      live := insert state.allocated state.live
      allocated := state.allocated+1 })

/-- guaclog_keydef_free, which has no value for a definition that is freed already. -/
def GuaclogState.free (state : GuaclogState) (pointer : KeydefPointer) : Option GuaclogState :=
  if pointer.address∈state.live then
    some { state with live := state.live.erase pointer.address }
  else none

/-- The loop of guaclog_state_add_key: the index of the entry with a keysym, if there is one. -/
def findKey (state : GuaclogState) (keysym : Int32) : List KeyState→Option (Option ℕ)
  | [] => some none
  | key::keys =>
    match state.deref key.pointer with
    | none => none
    | some keydef =>
      if keydef.keysym=keysym then some (some 0)
      else (findKey state keysym keys).map fun index => index.map (· + 1)

/-- guaclog_state_add_key. -/
def guaclogStateAddKey (state : GuaclogState) (pointer : KeydefPointer) (pressed : Bool) :
    Option (ℤ×GuaclogState) :=
  match state.deref pointer with
  | none => none
  | some keydef =>
    match findKey state keydef.keysym state.keyStates with
    | none => none
    | some (some i) =>
      match state.keyStates[i]? with
      | none => none
      | some key =>
        (state.free key.pointer).map fun state =>
          (0,{ state with keyStates := state.keyStates.set i ⟨pointer,pressed⟩ })
    | some none =>
      if state.keyStates.length=guaclogMaxKeys then some (1,state)
      else some (0,{ state with keyStates := state.keyStates++[⟨pointer,pressed⟩] })

/-- The loop of guaclog_state_trim_keys, over the entries from the last one on. -/
def trimKeys (state : GuaclogState) : List KeyState→Option (GuaclogState×List KeyState)
  | [] => some (state,[])
  | key::keys =>
    if key.pressed then some (state,key::keys)
    else
      match state.free key.pointer with
      | none => none
      | some state => trimKeys state keys

/-- guaclog_state_trim_keys. -/
def guaclogStateTrimKeys (state : GuaclogState) : Option GuaclogState :=
  (trimKeys state state.keyStates.reverse).map fun (state,keys) =>
    { state with keyStates := keys.reverse }

/-- The definitions of the entries. -/
def GuaclogState.keydefs (state : GuaclogState) : Option (List Keydef) :=
  state.keyStates.mapM fun key => state.deref key.pointer

/-- guaclog_state_is_shortcut, given the definitions of the entries. -/
def guaclogStateIsShortcut (keydefs : List Keydef) : Bool :=
  keydefs.any fun keydef => decide (keydef.value=none)

/-- The loop that prints the names of the entries. -/
def composedNames : List Keydef→List UInt8
  | [] => []
  | keydef::keydefs => keydef.name++keydefs.flatMap fun keydef => ascii "+" ++ keydef.name

/-- What is printed when a key is pressed, given the definitions of the entries. -/
def pressedText (keydefs : List Keydef) (keydef : Keydef) : List UInt8 :=
  if guaclogStateIsShortcut keydefs then
    ascii "<" ++ composedNames keydefs++(printed keydef.value++ascii ">")
  else
    match keydef.value with
    | some value => value
    | none => ascii "<" ++ keydef.name++ascii ">"

/-- guaclog_state_update_key. It has no value where a definition is used or freed that is
freed already. -/
def guaclogStateUpdateKey (state : GuaclogState) (keysym : Int32) (pressed : Bool) :
    Option GuaclogState :=
  let (pointer,state) := state.alloc keysym
  if pointer.keydef.modifier then
    match guaclogStateAddKey state pointer pressed with
    | none => none
    | some (status,state) =>
      if status≠0 then state.free pointer else guaclogStateTrimKeys state
  else if pressed then
    match state.keydefs with
    | none => none
    | some keydefs =>
      { state with output := state.output++pressedText keydefs pointer.keydef }.free pointer
  else state.free pointer

/-- A key that is pressed or released. -/
structure KeyEvent where
  keysym : Int32
  pressed : Bool

/-- An event of the log. -/
def step (event : KeyEvent) (state : GuaclogState) : Option GuaclogState :=
  guaclogStateUpdateKey state event.keysym event.pressed

/-- Whether a modifier is held after a list of events. -/
def held (events : List KeyEvent) (keysym : Int32) : Bool :=
  events.foldl (fun holding event =>
    if event.keysym=keysym then event.pressed else holding) false

/-- The text for a key that is pressed while the given modifiers are held. -/
def shortcutText (modifiers : List Keydef) (keydef : Keydef) : List UInt8 :=
  if modifiers.any fun modifier => decide (modifier.value=none) then
    ascii "<" ++ List.intercalate (ascii "+") (modifiers.map Keydef.name++[keydef.name])++ascii ">"
  else keydef.value.getD (ascii "<" ++ keydef.name++ascii ">")

/-- The addresses of the definitions that the entries own. -/
def GuaclogState.addresses (state : GuaclogState) : List ℕ :=
  state.keyStates.map fun key => key.pointer.address

/-- The keysyms of the entries. -/
def GuaclogState.keysyms (state : GuaclogState) : List Int32 :=
  state.keyStates.map fun key => key.pointer.keydef.keysym

/-- The modifiers that are held after a list of events, in the order of their entries. -/
def heldModifiers (events : List KeyEvent) (state : GuaclogState) : List Keydef :=
  (state.keyStates.map fun key => key.pointer.keydef).filter fun keydef =>
    held events keydef.keysym

/-- What holds of the entries after a list of events. -/
structure Tracked (events : List KeyEvent) (state : GuaclogState) : Prop where
  distinct : state.keysyms.Nodup
  /-- There are no more entries than there is space for. -/
  number : state.keyStates.length≤guaclogMaxKeys
  /-- No definition is owned by two entries. -/
  owned : state.addresses.Nodup
  /-- The definitions that are allocated are those that are owned. -/
  live : ∀ address, address∈state.live ↔ address∈state.addresses
  /-- Addresses are given out in order. -/
  allocated : ∀ address∈state.live, address<state.allocated
  /-- Only modifiers are tracked, with their definitions. -/
  defined : ∀ key∈state.keyStates, key.pointer.keydef.modifier=true ∧
    key.pointer.keydef=guaclogKeydefAlloc key.pointer.keydef.keysym
  /-- Every modifier that is held is tracked as pressed, and no other is. -/
  holds : ∀ keysym, (guaclogKeydefAlloc keysym).modifier=true → (held events keysym=true ↔
      ∃ key∈state.keyStates, key.pointer.keydef.keysym=keysym ∧ key.pressed=true)

theorem tracked_alloc : Tracked [] guaclogStateAlloc where
  distinct := nodup_nil
  number := Nat.zero_le _
  owned := nodup_nil
  live address := by simp [guaclogStateAlloc,GuaclogState.addresses]
  allocated address h := by simp [guaclogStateAlloc] at h
  defined _ h := nomatch h
  holds keysym _ := by simp [held,guaclogStateAlloc]

/-- Whether a modifier is held after one more event. -/
theorem held_append (events : List KeyEvent) (event : KeyEvent) (keysym : Int32) :
    held (events++[event]) keysym=
      if event.keysym=keysym then event.pressed else held events keysym := by
  rw [held,foldl_append]
  rfl

/-- Among allocated entries the loop finds that of a keysym, unless there is none. -/
theorem findKey_cases {state : GuaclogState} {keys : List KeyState}
    (hlive : ∀ key∈keys, key.pointer.address∈state.live) (keysym : Int32) :
    (findKey state keysym keys=some none ∧ ∀ key∈keys, key.pointer.keydef.keysym≠keysym) ∨
    ∃ front key back, keys=front++key::back ∧ findKey state keysym keys=some (some front.length) ∧
      key.pointer.keydef.keysym=keysym := by
  induction keys with
  | nil => exact Or.inl ⟨rfl,fun _ h => nomatch h⟩
  | cons key keys ih =>
    have hderef : state.deref key.pointer=some key.pointer.keydef :=
      if_pos (hlive key (mem_cons_self ..))
    by_cases hkey : key.pointer.keydef.keysym=keysym
    · refine Or.inr ⟨[],key,keys,rfl,?_,hkey⟩
      rw [findKey,hderef]
      exact if_pos hkey
    · have hstep : findKey state keysym (key::keys)=
          (findKey state keysym keys).map fun index => index.map (· + 1) := by
        rw [findKey,hderef]
        exact if_neg hkey
      rcases ih fun other hother => hlive other (mem_cons_of_mem _ hother) with
        ⟨hnone,hkeys⟩ | ⟨front,found,back,rfl,hfound,hkeysym⟩
      · left
        rw [hstep,hnone]
        refine ⟨rfl,fun other hother => ?_⟩
        rcases mem_cons.mp hother with rfl | hother
        · exact hkey
        · exact hkeys other hother
      · right
        refine ⟨key::front,found,back,rfl,?_,hkeysym⟩
        rw [hstep,hfound]
        rfl

/-- Released entries at the end are removed, and their definitions freed. -/
theorem trimKeys_spec {state : GuaclogState} {keys : List KeyState}
    (howned : (keys.map fun key => key.pointer.address).Nodup)
    (hlive : ∀ key∈keys, key.pointer.address∈state.live) :
    ∃ dropped kept live, keys=dropped++kept ∧ (∀ key∈dropped, key.pressed=false) ∧
      trimKeys state keys=some ({ state with live := live },kept) ∧
      ∀ address, address∈live ↔ address∈state.live ∧
        address ∉ dropped.map fun key => key.pointer.address := by
  induction keys generalizing state with
  | nil => exact ⟨[],[],state.live,rfl,(fun _ h => nomatch h),rfl,by simp⟩
  | cons key keys ih =>
    rw [map_cons,nodup_cons] at howned
    by_cases hpressed : key.pressed=true
    · refine ⟨[],key::keys,state.live,rfl,(fun _ h => nomatch h),?_,by simp⟩
      rw [trimKeys,if_pos hpressed]
    · have hfree : state.free key.pointer=
          some { state with live := state.live.erase key.pointer.address } :=
        if_pos (hlive key (mem_cons_self ..))
      have hothers : ∀ other∈keys, other.pointer.address∈
          { state with live := state.live.erase key.pointer.address }.live := by
        intro other hother
        refine Finset.mem_erase.mpr ⟨?_,hlive other (mem_cons_of_mem _ hother)⟩
        exact fun heq => howned.1 (mem_map.mpr ⟨other,hother,heq⟩)
      obtain ⟨dropped,kept,live,rfl,hdropped,htrim,hmem⟩ := ih howned.2 hothers
      refine ⟨key::dropped,kept,live,rfl,?_,?_,?_⟩
      · intro other hother
        rcases mem_cons.mp hother with rfl | hother
        · exact Bool.eq_false_iff.mpr hpressed
        · exact hdropped other hother
      · rw [trimKeys,if_neg hpressed,hfree]
        exact htrim
      · intro address
        rw [hmem,Finset.mem_erase,map_cons,mem_cons]
        tauto

/-- Addresses are not given out twice. -/
theorem Tracked.fresh {events : List KeyEvent} {state : GuaclogState} (h : Tracked events state) :
    state.allocated ∉ state.live := fun hmem =>
  Nat.lt_irrefl _ (h.allocated _ hmem)

/-- The keysyms of entries are those of modifiers, so that there are only few. -/
theorem Tracked.length_le {events : List KeyEvent} {state : GuaclogState}
    (h : Tracked events state) : state.keyStates.length ≤ modifierKeysyms.length := by
  have hsubset : state.keysyms ⊆ modifierKeysyms := by
    intro keysym hkeysym
    obtain ⟨key,hkey,rfl⟩ := mem_map.mp hkeysym
    obtain ⟨hmodifier,hdefined⟩ := h.defined key hkey
    rw [hdefined] at hmodifier
    exact (modifier_name hmodifier).1
  have hlen := (subperm_of_subset h.distinct hsubset).length_le
  rwa [GuaclogState.keysyms,length_map] at hlen

section Modifiers

variable {events : List KeyEvent} {state : GuaclogState} {keysym : Int32}

/-- The new entry of a modifier tells whether it is held, and those of the others stay. -/
theorem Tracked.holds_entry (h : Tracked events state) {pressed : Bool}
    {entries others : List KeyState} (entry : KeyState)
    (hentries : ∀ found, found∈entries ↔ found∈others ∨ found=entry)
    (hkeysym : entry.pointer.keydef.keysym=keysym) (hpressed : entry.pressed=pressed)
    (hothers : ∀ found, found∈others ↔
      found∈state.keyStates ∧ found.pointer.keydef.keysym≠keysym) {other : Int32}
    (hother : (guaclogKeydefAlloc other).modifier=true) :
    held (events++[⟨keysym,pressed⟩]) other=true ↔
      ∃ key∈entries, key.pointer.keydef.keysym=other ∧ key.pressed=true := by
  rw [held_append]
  by_cases heq : keysym=other
  · rw [if_pos heq]
    constructor
    · intro hheld
      exact ⟨entry,(hentries entry).mpr (Or.inr rfl),hkeysym.trans heq,hpressed.trans hheld⟩
    · rintro ⟨found,hfound,hsame,hheld⟩
      rcases (hentries found).mp hfound with hfound | rfl
      · exact absurd (hsame.trans heq.symm) ((hothers found).mp hfound).2
      · exact hpressed.symm.trans hheld
  · rw [if_neg heq,h.holds other hother]
    constructor
    · rintro ⟨found,hfound,hsame,hheld⟩
      have hdiffers : found.pointer.keydef.keysym≠keysym := fun h => heq (h.symm.trans hsame)
      exact ⟨found,(hentries found).mpr (Or.inl ((hothers found).mpr ⟨hfound,hdiffers⟩)),hsame,
        hheld⟩
    · rintro ⟨found,hfound,hsame,hheld⟩
      rcases (hentries found).mp hfound with hfound | rfl
      · exact ⟨found,((hothers found).mp hfound).1,hsame,hheld⟩
      · exact absurd (hkeysym.symm.trans hsame) heq

/-- An entry stands before or behind another, or is it. -/
theorem mem_around {front back : List KeyState} {key found : KeyState} :
    found∈front++key::back ↔ found∈front++back ∨ found=key := by
  simp only [mem_append,mem_cons]
  tauto

section

variable (h : Tracked events state)

include h

/-- The entry of a modifier that is tracked is replaced. -/
theorem Tracked.replace (hmodifier : (guaclogKeydefAlloc keysym).modifier=true)
    {front back : List KeyState} {key : KeyState} (hkeys : state.keyStates=front++key::back)
    (hkey : key.pointer.keydef.keysym=keysym) (pressed : Bool) :
    Tracked (events++[⟨keysym,pressed⟩])
      { state with
        keyStates := front++⟨⟨state.allocated,guaclogKeydefAlloc keysym⟩,pressed⟩::back
        live := (insert state.allocated state.live).erase key.pointer.address
        allocated := state.allocated+1 } := by
  have hdistinct := h.distinct
  have howned := h.owned
  have hnumber := h.number
  simp only [GuaclogState.keysyms,GuaclogState.addresses,hkeys,map_append,
    map_cons] at hdistinct howned
  obtain ⟨hfrontOwned,hbackOwned,hapart⟩ := nodup_append.mp howned
  obtain ⟨hnotBack,hbackOwned⟩ := nodup_cons.mp hbackOwned
  have hmem : ∀ address, address∈state.live ↔
      address∈front.map (fun key => key.pointer.address) ∨ address=key.pointer.address ∨
        address∈back.map fun key => key.pointer.address := by
    intro address
    rw [h.live,GuaclogState.addresses,hkeys,map_append,map_cons,mem_append,
      mem_cons]
  have hnew : ∀ address∈state.live, address≠state.allocated := fun address haddress heq =>
    h.fresh (heq ▸ haddress)
  have hothers : ∀ other∈front++back, other.pointer.keydef.keysym≠keysym := by
    have hparts := nodup_append.mp hdistinct
    rw [hkey] at hparts
    intro other hother
    rcases mem_append.mp hother with hother | hother
    · exact hparts.2.2 _ (mem_map.mpr ⟨other,hother,rfl⟩) _ (mem_cons_self ..)
    · exact fun heq => (nodup_cons.mp hparts.2.1).1 (mem_map.mpr ⟨other,hother,heq⟩)
  have hkept : ∀ other, other∈front++back ↔
      other∈state.keyStates ∧ other.pointer.keydef.keysym≠keysym := by
    intro other
    rw [hkeys,mem_around]
    constructor
    · exact fun hother => ⟨Or.inl hother,hothers other hother⟩
    · rintro ⟨hother | rfl,hne⟩
      · exact hother
      · exact absurd hkey hne
  constructor
  case distinct =>
    simp only [GuaclogState.keysyms,map_append,map_cons,guaclogKeydefAlloc_keysym]
    rwa [hkey] at hdistinct
  case number =>
    rw [hkeys,length_append,length_cons] at hnumber
    simpa only [length_append,length_cons] using hnumber
  case owned =>
    simp only [GuaclogState.addresses,map_append,map_cons]
    refine nodup_append.mpr ⟨hfrontOwned,nodup_cons.mpr ⟨?_,hbackOwned⟩,?_⟩
    · exact fun hback => hnew _ ((hmem _).mpr (Or.inr (Or.inr hback))) rfl
    · intro a ha b hb
      rcases mem_cons.mp hb with rfl | hb
      · exact hnew a ((hmem a).mpr (Or.inl ha))
      · exact hapart a ha b (mem_cons_of_mem _ hb)
  case live =>
    intro address
    have hfront := fun hfront => hapart address hfront key.pointer.address (mem_cons_self ..)
    have hne := fun hlive => hnew key.pointer.address hlive
    have hkeyLive := (hmem key.pointer.address).mpr (Or.inr (Or.inl rfl))
    simp only [GuaclogState.addresses,map_append,map_cons,Finset.mem_erase,
      Finset.mem_insert,hmem,mem_append,mem_cons]
    constructor
    · tauto
    · rintro (hfront' | rfl | hback)
      · exact ⟨hfront hfront',Or.inr (Or.inl hfront')⟩
      · exact ⟨(hne hkeyLive).symm,Or.inl rfl⟩
      · exact ⟨fun heq => hnotBack (heq ▸ hback),Or.inr (Or.inr (Or.inr hback))⟩
  case allocated =>
    intro address haddress
    rcases Finset.mem_insert.mp (Finset.mem_of_mem_erase haddress) with rfl | haddress
    · exact Nat.lt_succ_self _
    · exact Nat.lt_succ_of_lt (h.allocated address haddress)
  case defined =>
    intro other hother
    rcases mem_around.mp hother with hother | rfl
    · exact h.defined other ((hkept other).mp hother).1
    · exact ⟨hmodifier,by rw [guaclogKeydefAlloc_keysym]⟩
  case holds =>
    exact fun other hother =>
      h.holds_entry ⟨⟨state.allocated,guaclogKeydefAlloc keysym⟩,pressed⟩ (fun _ => mem_around)
        (guaclogKeydefAlloc_keysym keysym) rfl hkept hother

/-- An entry is added for a modifier that is not tracked. -/
theorem Tracked.append (hmodifier : (guaclogKeydefAlloc keysym).modifier=true)
    (hnew : ∀ key∈state.keyStates, key.pointer.keydef.keysym≠keysym) (pressed : Bool) :
    Tracked (events++[⟨keysym,pressed⟩])
      { state with
        keyStates := state.keyStates++[⟨⟨state.allocated,guaclogKeydefAlloc keysym⟩,pressed⟩]
        live := insert state.allocated state.live
        allocated := state.allocated+1 } := by
  have hlen := h.length_le
  have hfew : modifierKeysyms.length<guaclogMaxKeys := by decide
  constructor
  case distinct =>
    simp only [GuaclogState.keysyms,map_append,map_cons,map_nil,
      guaclogKeydefAlloc_keysym]
    refine nodup_append.mpr ⟨h.distinct,nodup_singleton _,?_⟩
    rintro a ha b hb rfl
    obtain ⟨key,hkey,hkeysym⟩ := mem_map.mp ha
    exact hnew key hkey (hkeysym.trans (mem_singleton.mp hb))
  case number =>
    rw [length_append,length_singleton]
    omega
  case owned =>
    simp only [GuaclogState.addresses,map_append,map_cons,map_nil]
    refine nodup_append.mpr ⟨h.owned,nodup_singleton _,?_⟩
    rintro a ha b hb rfl
    rw [mem_singleton.mp hb] at ha
    exact h.fresh ((h.live _).mpr ha)
  case live =>
    intro address
    simp only [GuaclogState.addresses,map_append,map_cons,map_nil,
      mem_append,mem_singleton]
    rw [Finset.mem_insert,h.live,or_comm]
    rfl
  case allocated =>
    intro address haddress
    rcases Finset.mem_insert.mp haddress with rfl | haddress
    · exact Nat.lt_succ_self _
    · exact Nat.lt_succ_of_lt (h.allocated address haddress)
  case defined =>
    intro other hother
    rcases mem_append.mp hother with hother | hother
    · exact h.defined other hother
    · rw [mem_singleton.mp hother]
      exact ⟨hmodifier,by rw [guaclogKeydefAlloc_keysym]⟩
  case holds =>
    exact fun other hother =>
      h.holds_entry ⟨⟨state.allocated,guaclogKeydefAlloc keysym⟩,pressed⟩
        (fun found => by rw [mem_append,mem_singleton])
        (guaclogKeydefAlloc_keysym keysym) rfl
        (fun found => ⟨fun hfound => ⟨hfound,hnew found hfound⟩,And.left⟩) hother

/-- A modifier is tracked as pressed or released. -/
theorem Tracked.add (hmodifier : (guaclogKeydefAlloc keysym).modifier=true) (pressed : Bool) :
    ∃ next, guaclogStateAddKey (state.alloc keysym).2 (state.alloc keysym).1 pressed=
        some (0,next) ∧ Tracked (events++[⟨keysym,pressed⟩]) next := by
  have hderef : (state.alloc keysym).2.deref (state.alloc keysym).1=
      some (guaclogKeydefAlloc keysym) := if_pos (Finset.mem_insert_self _ _)
  have hlive : ∀ key∈state.keyStates, key.pointer.address∈(state.alloc keysym).2.live :=
    fun key hkey => Finset.mem_insert_of_mem ((h.live _).mpr (mem_map.mpr ⟨key,hkey,rfl⟩))
  have hkeys : (state.alloc keysym).2.keyStates=state.keyStates := rfl
  rcases findKey_cases hlive keysym with ⟨hnone,hnew⟩ | ⟨front,key,back,hsplit,hfound,hkey⟩
  · have hlen := h.length_le
    have hfew : modifierKeysyms.length<guaclogMaxKeys := by decide
    refine ⟨_,?_,h.append hmodifier hnew pressed⟩
    simp only [guaclogStateAddKey,hderef,guaclogKeydefAlloc_keysym,hkeys,hnone]
    exact if_neg (by omega)
  · have hfree : (state.alloc keysym).2.free key.pointer=some
        { (state.alloc keysym).2 with
          live := (insert state.allocated state.live).erase key.pointer.address } :=
      if_pos (hlive key (hsplit ▸ mem_append_right _ (mem_cons_self ..)))
    have hget : state.keyStates[front.length]? = some key := by
      rw [hsplit,List.getElem?_append_right (Nat.le_refl _),Nat.sub_self,List.getElem?_cons_zero]
    have hset : ∀ new, state.keyStates.set front.length new=front++new::back := by
      intro new
      rw [hsplit,set_append_right _ _ (Nat.le_refl _),Nat.sub_self,set_cons_zero]
    refine ⟨_,?_,h.replace hmodifier hsplit hkey pressed⟩
    simp only [guaclogStateAddKey,hderef,guaclogKeydefAlloc_keysym,hkeys,hfound,hget,hfree,
      Option.map_some,hset]
    rfl

/-- Entries that are removed are released ones. -/
theorem Tracked.trim : ∃ next, guaclogStateTrimKeys state=some next ∧ Tracked events next := by
  have howned : (state.keyStates.reverse.map fun key => key.pointer.address).Nodup := by
    rw [map_reverse]
    exact nodup_reverse.mpr h.owned
  obtain ⟨dropped,kept,live,hsplit,hdropped,htrim,hlive⟩ :=
    trimKeys_spec howned fun key hkey =>
      (h.live _).mpr (mem_map.mpr ⟨key,mem_reverse.mp hkey,rfl⟩)
  have hkeys : state.keyStates=kept.reverse++dropped.reverse := by
    rw [←reverse_append,←hsplit,reverse_reverse]
  have hfront : kept.reverse <+: state.keyStates := ⟨_,hkeys.symm⟩
  have haddresses : state.addresses=kept.reverse.map (fun key => key.pointer.address)++
      dropped.reverse.map fun key => key.pointer.address := by
    rw [GuaclogState.addresses,hkeys,map_append]
  have hapart := h.owned
  rw [haddresses] at hapart
  refine ⟨{ state with live := live, keyStates := kept.reverse },?_,?_⟩
  · rw [guaclogStateTrimKeys,htrim]
    rfl
  constructor
  case distinct => exact h.distinct.sublist (hfront.sublist.map _)
  case number => exact hfront.length_le.trans h.number
  case owned => exact h.owned.sublist (hfront.sublist.map _)
  case live =>
    intro address
    have hboth := (nodup_append.mp hapart).2.2 address
    rw [hlive,h.live,haddresses,mem_append]
    simp only [GuaclogState.addresses,map_reverse,mem_reverse] at hboth ⊢
    constructor
    · rintro ⟨hkept | hdropped,hnot⟩
      · exact hkept
      · exact absurd hdropped hnot
    · intro hkept
      exact ⟨Or.inl hkept,fun hdropped => hboth hkept address hdropped rfl⟩
  case allocated =>
    exact fun address haddress => h.allocated address ((hlive address).mp haddress).1
  case defined => exact fun key hkey => h.defined key (hfront.subset hkey)
  case holds =>
    intro keysym hmodifier
    rw [h.holds keysym hmodifier]
    constructor
    · rintro ⟨key,hkey,hkeysym,hpressed⟩
      rw [hkeys] at hkey
      rcases mem_append.mp hkey with hkey | hkey
      · exact ⟨key,hkey,hkeysym,hpressed⟩
      · rw [hdropped key (mem_reverse.mp hkey)] at hpressed
        cases hpressed
    · rintro ⟨key,hkey,hkeysym,hpressed⟩
      exact ⟨key,hfront.subset hkey,hkeysym,hpressed⟩

/-- What is printed for another key leaves the entries alone. -/
theorem Tracked.plain (hplain : (guaclogKeydefAlloc keysym).modifier=false) (pressed : Bool)
    (output : List UInt8) :
    ∃ next, { (state.alloc keysym).2 with output := output }.free (state.alloc keysym).1=
        some next ∧ next.output=output ∧ next.keyStates=state.keyStates ∧
      Tracked (events++[⟨keysym,pressed⟩]) next := by
  have herase : (insert state.allocated state.live).erase state.allocated=state.live :=
    Finset.erase_insert h.fresh
  refine ⟨_,if_pos (Finset.mem_insert_self _ _),rfl,rfl,?_⟩
  constructor
  case distinct => exact h.distinct
  case number => exact h.number
  case owned => exact h.owned
  case live =>
    intro address
    simp only [GuaclogState.alloc,herase]
    exact h.live address
  case allocated =>
    intro address haddress
    simp only [GuaclogState.alloc,herase] at haddress ⊢
    exact Nat.lt_succ_of_lt (h.allocated address haddress)
  case defined => exact h.defined
  case holds =>
    intro other hother
    have hne : keysym≠other := by
      rintro rfl
      rw [hplain] at hother
      cases hother
    rw [held_append,if_neg hne]
    exact h.holds other hother

/-- The definitions of all entries can be used. -/
theorem Tracked.keydefs (keysym : Int32) :
    (state.alloc keysym).2.keydefs=some (state.keyStates.map fun key => key.pointer.keydef) := by
  have hderef : ∀ key∈state.keyStates,
      (state.alloc keysym).2.deref key.pointer=some key.pointer.keydef := fun key hkey =>
    if_pos (Finset.mem_insert_of_mem ((h.live _).mpr (mem_map.mpr ⟨key,hkey,rfl⟩)))
  have hall : ∀ keys : List KeyState, (∀ key∈keys, key∈state.keyStates) →
      (keys.mapM fun key => (state.alloc keysym).2.deref key.pointer)=
        some (keys.map fun key => key.pointer.keydef) := by
    intro keys hkeys
    induction keys with
    | nil => rfl
    | cons key keys ih =>
      rw [mapM_cons,hderef key (hkeys key (mem_cons_self ..)),
        ih fun other hother => hkeys other (mem_cons_of_mem _ hother)]
      rfl
  exact hall _ fun _ hkey => hkey

/-- A key that is pressed and is no modifier. -/
theorem Tracked.press (hplain : (guaclogKeydefAlloc keysym).modifier=false) :
    ∃ next, guaclogStateUpdateKey state keysym true=some next ∧ next.output=state.output++
        pressedText (state.keyStates.map fun key => key.pointer.keydef)
          (guaclogKeydefAlloc keysym) ∧
      Tracked (events++[⟨keysym,true⟩]) next := by
  obtain ⟨next,hfree,houtput,-,hnext⟩ := h.plain hplain true (state.output++
    pressedText (state.keyStates.map fun key => key.pointer.keydef) (guaclogKeydefAlloc keysym))
  refine ⟨next,?_,houtput,hnext⟩
  have hkeydefs := h.keydefs keysym
  simp only [guaclogStateUpdateKey,GuaclogState.alloc] at hkeydefs hfree ⊢
  simp only [hplain,hkeydefs,Bool.false_eq_true,if_false,if_true]
  exact hfree

/-- No event uses a definition that is freed, and the entries stay as they should be. -/
theorem Tracked.step (event : KeyEvent) :
    ∃ next, KeyLog.step event state=some next ∧ Tracked (events++[event]) next := by
  obtain ⟨keysym,pressed⟩ := event
  rw [KeyLog.step]
  cases hmodifier : (guaclogKeydefAlloc keysym).modifier with
  | true =>
    obtain ⟨added,hadd,hadded⟩ := h.add hmodifier pressed
    obtain ⟨next,htrim,hnext⟩ := hadded.trim
    refine ⟨next,?_,hnext⟩
    simp only [guaclogStateUpdateKey]
    simp only [GuaclogState.alloc] at hadd ⊢
    simp only [hmodifier,hadd,if_true,ne_eq,not_true,if_false]
    exact htrim
  | false =>
    cases pressed with
    | true =>
      obtain ⟨next,hupdate,-,hnext⟩ := h.press hmodifier
      exact ⟨next,hupdate,hnext⟩
    | false =>
      obtain ⟨next,hfree,-,-,hnext⟩ := h.plain hmodifier false state.output
      refine ⟨next,?_,hnext⟩
      simp only [guaclogStateUpdateKey,GuaclogState.alloc] at hfree ⊢
      simp only [hmodifier,Bool.false_eq_true,if_false]
      exact hfree

end

end Modifiers

/-- In every run the definitions are used properly and the entries are as they should be. -/
theorem tracked_run (events : List KeyEvent) :
    ∃ state, run step events guaclogStateAlloc=some state ∧ Tracked events state := by
  have hfrom : ∀ {before : List KeyEvent} {state : GuaclogState}, Tracked before state →
      ∃ next, run step events state=some next ∧ Tracked (before++events) next := by
    induction events with
    | nil =>
      intro before state h
      exact ⟨state,rfl,by rwa [append_nil]⟩
    | cons event events ih =>
      intro before state h
      obtain ⟨next,hstep,hnext⟩ := h.step event
      obtain ⟨last,hrun,hlast⟩ := ih hnext
      rw [append_assoc,singleton_append] at hlast
      refine ⟨last,?_,hlast⟩
      rw [run,hstep]
      exact hrun
  exact hfrom tracked_alloc

/-- The names of modifiers end with something else than a plus sign. -/
theorem composedNames_last {keydefs : List Keydef} (hne : keydefs≠[])
    (hnames : ∀ keydef∈keydefs, keydef.name.getLast? ≠ none ∧ keydef.name.getLast? ≠ some 43) :
    ∃ c, (composedNames keydefs).getLast? = some c ∧ c≠43 := by
  have hlast : ∀ {keydef : Keydef}, keydef∈keydefs → ∃ c, keydef.name.getLast? = some c ∧ c≠43 := by
    intro keydef hmem
    obtain ⟨hsome,hplus⟩ := hnames keydef hmem
    obtain ⟨c,hc⟩ := Option.ne_none_iff_exists'.mp hsome
    exact ⟨c,hc,fun heq => hplus (heq ▸ hc)⟩
  cases keydefs with
  | nil => exact absurd rfl hne
  | cons first keydefs =>
    rcases eq_nil_or_concat' keydefs with rfl | ⟨front,last,rfl⟩
    · obtain ⟨c,hc,hplus⟩ := hlast (mem_cons_self ..)
      refine ⟨c,?_,hplus⟩
      rw [composedNames,flatMap_nil,append_nil,hc]
    · obtain ⟨c,hc,hplus⟩ := hlast (mem_cons_of_mem _ (mem_concat_self ..))
      refine ⟨c,?_,hplus⟩
      rw [composedNames,flatMap_append,flatMap_singleton]
      simp only [List.getLast?_append,hc,Option.some_or]

/-- The names of some modifiers and of a key, joined by plus signs. -/
theorem intercalate_names (keydefs : List Keydef) (first : Keydef) (name : List UInt8) :
    List.intercalate (ascii "+") ((first::keydefs).map Keydef.name++[name])=
      composedNames (first::keydefs)++ascii "+" ++ name := by
  induction keydefs generalizing first with
  | nil =>
    simp only [map_cons,map_nil,cons_append,nil_append,
      intercalate_cons_cons,intercalate_singleton,composedNames,flatMap_nil,
      append_nil,append_assoc]
  | cons second keydefs ih =>
    have hrest := ih second
    simp only [map_cons,cons_append,intercalate_cons_cons] at hrest ⊢
    rw [hrest]
    simp only [composedNames,flatMap_cons,append_assoc]

/-- What is printed for a key that is pressed is what the modifiers that are held ask for,
exactly if every modifier that is tracked is printable. -/
theorem pressedText_eq_iff {tracked modifiers : List Keydef} {keysym : Int32}
    (hplain : (guaclogKeydefAlloc keysym).modifier=false)
    (hheld : ∀ modifier∈modifiers, modifier∈tracked)
    (hnames : ∀ keydef∈tracked, keydef.name.getLast? ≠ none ∧ keydef.name.getLast? ≠ some 43) :
    pressedText tracked (guaclogKeydefAlloc keysym)=
        shortcutText modifiers (guaclogKeydefAlloc keysym) ↔
      ∀ keydef∈tracked, keydef.value≠none := by
  have hvalue := plain_value hplain
  generalize guaclogKeydefAlloc keysym=key at hvalue ⊢
  constructor
  · intro heq keydef hmem hnone
    have hshortcut : guaclogStateIsShortcut tracked=true :=
      any_eq_true.mpr ⟨keydef,hmem,decide_eq_true hnone⟩
    rw [pressedText,if_pos hshortcut,shortcutText] at heq
    -- What is printed ends with the value of the key, and not with its name.
    have hends : ∀ text : List UInt8, key.value≠some key.name →
        composedNames tracked++printed key.value≠text++key.name := by
      intro text hother htext
      obtain ⟨hprinted,hname,hne⟩ := hvalue.resolve_left hother
      obtain ⟨c,hc⟩ := Option.ne_none_iff_exists'.mp hprinted
      obtain ⟨d,hd⟩ := Option.ne_none_iff_exists'.mp hname
      have hlast := congrArg List.getLast? htext
      rw [List.getLast?_append,List.getLast?_append,hc,hd,Option.some_or,Option.some_or] at hlast
      exact hne (hc.trans (hlast.trans hd.symm))
    by_cases hany : modifiers.any (fun modifier => decide (modifier.value=none))=true
    · rw [if_pos hany] at heq
      cases modifiers with
      | nil => cases hany
      | cons first modifiers =>
        rw [intercalate_names,←append_assoc] at heq
        have htext := append_cancel_right heq
        simp only [append_assoc] at htext
        have htext := append_cancel_left htext
        rw [←append_assoc] at htext
        by_cases hname : key.value=some key.name
        · rw [hname] at htext
          have hnames' := append_cancel_right htext
          obtain ⟨c,hc,hplus⟩ := composedNames_last (ne_nil_of_mem hmem) hnames
          have hlast := congrArg List.getLast? hnames'
          rw [List.getLast?_append,hc] at hlast
          exact hplus (Option.some.inj hlast)
        · exact hends _ hname htext
    · rw [if_neg hany] at heq
      cases hkey : key.value with
      | some value =>
        have hlen := congrArg List.length heq
        simp only [hkey,printed,Option.getD_some,length_append] at hlen
        have hangle : (ascii "<").length=1 := by decide
        omega
      | none =>
        rw [hkey,Option.getD_none,←append_assoc] at heq
        have htext := append_cancel_right heq
        rw [append_assoc] at htext
        have hname : key.value≠some key.name := by
          rw [hkey]
          exact (Option.some_ne_none key.name).symm
        have hdiffers := hends [] hname
        rw [hkey] at hdiffers
        exact hdiffers (append_cancel_left htext)
  · intro hprintable
    have hnone : ∀ keydefs : List Keydef, (∀ keydef∈keydefs, keydef∈tracked) →
        (keydefs.any fun keydef => decide (keydef.value=none))=false := by
      intro keydefs hkeydefs
      rw [any_eq_false]
      exact fun keydef hmem hdecide =>
        hprintable keydef (hkeydefs keydef hmem) (of_decide_eq_true hdecide)
    rw [pressedText,guaclogStateIsShortcut,hnone tracked fun _ hmem => hmem,shortcutText,
      hnone modifiers hheld]
    cases key.value with
    | some value => rfl
    | none => rfl

/-- In every run the entries are as they should be, and no definition is used or freed after
it was freed. A key that is pressed and is no modifier is logged with exactly the modifiers
that are held if and only if no modifier that is tracked, held or not, is non-printable. -/
theorem keyLog_faithful_iff (events : List KeyEvent) :
    ∃ state, run step events guaclogStateAlloc=some state ∧ Tracked events state ∧
      ∀ keysym, (guaclogKeydefAlloc keysym).modifier=false →
        ∃ text next, guaclogStateUpdateKey state keysym true=some next ∧
          next.output=state.output++text ∧
          (text=shortcutText (heldModifiers events state) (guaclogKeydefAlloc keysym) ↔
            ∀ key∈state.keyStates, key.pointer.keydef.value≠none) := by
  obtain ⟨state,hrun,htracked⟩ := tracked_run events
  refine ⟨state,hrun,htracked,fun keysym hplain => ?_⟩
  obtain ⟨next,hupdate,houtput,-⟩ := htracked.press hplain
  refine ⟨_,next,hupdate,houtput,?_⟩
  rw [pressedText_eq_iff hplain]
  · constructor
    · exact fun h key hkey => h _ (mem_map.mpr ⟨key,hkey,rfl⟩)
    · intro h keydef hkeydef
      obtain ⟨key,hkey,rfl⟩ := mem_map.mp hkeydef
      exact h key hkey
  · exact fun modifier hmodifier => (mem_filter.mp hmodifier).1
  · intro keydef hkeydef
    obtain ⟨key,hkey,rfl⟩ := mem_map.mp hkeydef
    obtain ⟨hmodifier,hdefined⟩ := htracked.defined key hkey
    rw [hdefined] at hmodifier ⊢
    exact (modifier_name hmodifier).2

/-- Ctrl is held and A is pressed. -/
theorem not_keyLog_faithful :
    ¬∀ (events : List KeyEvent) (state : GuaclogState) (keysym : Int32) (text : List UInt8)
        (next : GuaclogState),
      run step events guaclogStateAlloc=some state →
      (guaclogKeydefAlloc keysym).modifier=false →
      guaclogStateUpdateKey state keysym true=some next → next.output=state.output++text →
      text=shortcutText (heldModifiers events state) (guaclogKeydefAlloc keysym) := by
  intro h
  have htext := h [⟨0xFFE3,true⟩] _ 0x61 (ascii "<Ctrla>") _ rfl (by decide) rfl (by decide)
  exact absurd htext (by decide)

end GuacServer.KeyLog
