import Mathlib.Data.List.Basic
import Mathlib.Data.Int.Notation

/-!
# The RDP keyboard

Keysyms are translated to the scancodes of a keymap. A key may need other keys to be
pressed or released, which are sent before it and restored after it, and lock keys to be
set or cleared. Keys that are not in the keymap are typed with a dead key or as Unicode.
Sending a key may send others in turn, so the depth of the calls is given.
-/

namespace GuacServer.RdpKeyboard

/-- Lock key flags, which are bits of an int. -/
abbrev LockFlags := BitVec 32

/-- KBD_SYNC_SCROLL_LOCK. -/
def kbdSyncScrollLock : LockFlags := 1

/-- KBD_SYNC_NUM_LOCK. -/
def kbdSyncNumLock : LockFlags := 2

/-- KBD_SYNC_CAPS_LOCK. -/
def kbdSyncCapsLock : LockFlags := 4

/-- KBD_SYNC_KANA_LOCK. -/
def kbdSyncKanaLock : LockFlags := 8

/-- guac_rdp_keyboard_lock_flag. -/
def guacRdpKeyboardLockFlag (keysym : ℤ) : LockFlags :=
  if keysym=0xFF14 then kbdSyncScrollLock
  else if keysym=0xFF2D then kbdSyncKanaLock
  else if keysym=0xFF7F then kbdSyncNumLock
  else if keysym=0xFFE5 then kbdSyncCapsLock
  else 0

/-- A scancode with the flags that tell extended keys from others. -/
structure Scancode where
  /-- The scancode. -/
  code : ℤ
  /-- Flags such as KBD_FLAGS_EXTENDED. -/
  flags : ℤ
  deriving DecidableEq

/-- guac_rdp_keysym_desc. -/
structure KeysymDesc where
  keysym : ℤ
  /-- The scancode it maps to, whose code is zero if there is none. -/
  scancode : Scancode
  /-- The keysyms that must be down. -/
  setKeysyms : List ℤ
  /-- The keysyms that must be up. -/
  clearKeysyms : List ℤ
  /-- The lock keys that must be active. -/
  setLocks : LockFlags
  /-- The lock keys that must be inactive. -/
  clearLocks : LockFlags
  deriving DecidableEq

/-- guac_rdp_keymap. -/
inductive Keymap where
  | base (mapping : List KeysymDesc)
  | child (parent : Keymap) (mapping : List KeysymDesc)

/-- guac_rdp_key. -/
structure Key where
  /-- The definition, if there is one. -/
  definition : Option KeysymDesc
  /-- The local state is GUAC_RDP_KEY_PRESSED. -/
  pressed : Bool

/-- What is sent to the RDP server. -/
inductive Event where
  /-- KeyboardEvent, for the key with the keysym. -/
  | key (keysym : ℤ) (scancode : Scancode) (pressed : Bool)
  /-- UnicodeKeyboardEvent. -/
  | unicode (codepoint : ℤ)
  /-- SynchronizeEvent. -/
  | synchronize (flags : LockFlags)
  deriving DecidableEq

/-- guac_rdp_keyboard, and the connection that events are sent on. -/
structure Keyboard where
  /-- The keys, by the index that their keysyms are mapped to. -/
  keys : ℕ→Key
  /-- The local state of the lock keys. -/
  lockFlags : LockFlags
  /-- The remote lock keys have been synchronised. -/
  synchronized : Bool
  /-- There is an instance of the RDP client. -/
  connected : Bool
  /-- The events sent so far. -/
  events : List Event

/-- An event is skipped unless there is a connection. -/
def Keyboard.send (keyboard : Keyboard) (event : Event) : Keyboard :=
  if keyboard.connected then { keyboard with events := keyboard.events++[event] } else keyboard

/-! ## Keymaps -/

/-- guac_rdp_keyboard_map_key: the index of a keysym. -/
def guacRdpKeyboardMapKey (keysym : ℤ) : Option ℕ :=
  if 0≤keysym ∧ keysym≤0xFFFF then some keysym.toNat
  else if 0x1000000≤keysym ∧ keysym≤0x100FFFF then some (0x10000+(keysym%0x10000).toNat)
  else none

/-- guac_rdp_keyboard_get_key: the definition and the state of a key that is defined. -/
def guacRdpKeyboardGetKey (keys : ℕ→Key) (keysym : ℤ) : Option (KeysymDesc×Bool) :=
  match guacRdpKeyboardMapKey keysym with
  | none => none
  | some index => (keys index).definition.map fun definition => (definition,(keys index).pressed)

/-- The loop over the mapping of a keymap. -/
def loadMapping (keys : ℕ→Key) : List KeysymDesc→ℕ→Key
  | [] => keys
  | desc::mapping =>
    match guacRdpKeyboardMapKey desc.keysym with
    | none => loadMapping keys mapping
    | some index =>
      loadMapping (Function.update keys index { keys index with definition := some desc }) mapping

/-- __guac_rdp_keyboard_load_keymap. -/
def guacRdpKeyboardLoadKeymap (keys : ℕ→Key) : Keymap→ℕ→Key
  | .base mapping => loadMapping keys mapping
  | .child parent mapping => loadMapping (guacRdpKeyboardLoadKeymap keys parent) mapping

/-- guac_rdp_keyboard_alloc. -/
def guacRdpKeyboardAlloc (connected : Bool) (keymap : Keymap) : Keyboard :=
  ⟨guacRdpKeyboardLoadKeymap (fun _ => ⟨none,false⟩) keymap,0,false,connected,[]⟩

/-- guac_rdp_keyboard_is_defined. -/
def guacRdpKeyboardIsDefined (keys : ℕ→Key) (keysym : ℤ) : Bool :=
  (guacRdpKeyboardGetKey keys keysym).isSome

/-! ## Sending keys -/

/-- guac_rdp_keyboard_update_locks. -/
def guacRdpKeyboardUpdateLocks (setFlags clearFlags : LockFlags) (keyboard : Keyboard) : Keyboard :=
  let lockFlags := (keyboard.lockFlags ||| setFlags) &&& ~~~clearFlags
  if lockFlags≠keyboard.lockFlags then
    { keyboard.send (.synchronize lockFlags) with lockFlags := lockFlags }
  else keyboard

/-- How a key is sent, if the stack is deep enough for it. -/
abbrev SendKey := ℤ→Bool→Keyboard→Option Keyboard

/-- guac_rdp_keyboard_send_events. -/
def guacRdpKeyboardSendEvents (sendEvent : SendKey) (fromState toState : Bool) :
    List ℤ→Keyboard→Option Keyboard
  | [], keyboard => some keyboard
  | keysym::keysyms, keyboard =>
    let sent :=
      match guacRdpKeyboardGetKey keyboard.keys keysym with
      | some (_,state) => if state=fromState then sendEvent keysym toState keyboard
        else some keyboard
      | none => some keyboard
    sent.bind (guacRdpKeyboardSendEvents sendEvent fromState toState keysyms)

/-- DEAD_GRAVE. -/
def deadGrave : ℤ := 0xFE50

/-- DEAD_ACUTE. -/
def deadAcute : ℤ := 0xFE51

/-- DEAD_CIRCUMFLEX. -/
def deadCircumflex : ℤ := 0xFE52

/-- DEAD_TILDE. -/
def deadTilde : ℤ := 0xFE53

/-- DEAD_DIERESIS. -/
def deadDieresis : ℤ := 0xFE57

/-- DEAD_ABOVERING. -/
def deadAbovering : ℤ := 0xFE58

/-- guac_rdp_decomposed_keys: the dead and the base key of each keysym that has them. -/
def guacRdpDecomposedKeys : List (ℤ×ℤ×ℤ) :=
  [(0x5E,deadCircumflex,0x20),(0x60,deadGrave,0x20),(0x7E,deadTilde,0x20),
    (0xA8,deadDieresis,0x20),(0xB4,deadAcute,0x20),(0xC0,deadGrave,0x41),
    (0xC1,deadAcute,0x41),(0xC2,deadCircumflex,0x41),(0xC3,deadTilde,0x41),
    (0xC4,deadDieresis,0x41),(0xC5,deadAbovering,0x41),(0xC8,deadGrave,0x45),
    (0xC9,deadAcute,0x45),(0xCA,deadCircumflex,0x45),(0xCB,deadDieresis,0x45),
    (0xCC,deadGrave,0x49),(0xCD,deadAcute,0x49),(0xCE,deadCircumflex,0x49),
    (0xCF,deadDieresis,0x49),(0xD1,deadTilde,0x4E),(0xD2,deadGrave,0x4F),
    (0xD3,deadAcute,0x4F),(0xD4,deadCircumflex,0x4F),(0xD5,deadTilde,0x4F),
    (0xD6,deadDieresis,0x4F),(0xD9,deadGrave,0x55),(0xDA,deadAcute,0x55),
    (0xDB,deadCircumflex,0x55),(0xDC,deadDieresis,0x55),(0xDD,deadAcute,0x59),
    (0xE0,deadGrave,0x61),(0xE1,deadAcute,0x61),(0xE2,deadCircumflex,0x61),
    (0xE3,deadTilde,0x61),(0xE4,deadDieresis,0x61),(0xE5,deadAbovering,0x61),
    (0xE8,deadGrave,0x65),(0xE9,deadAcute,0x65),(0xEA,deadCircumflex,0x65),
    (0xEB,deadDieresis,0x65),(0xEC,deadGrave,0x69),(0xED,deadAcute,0x69),
    (0xEE,deadCircumflex,0x69),(0xEF,deadDieresis,0x69),(0xF1,deadTilde,0x6E),
    (0xF2,deadGrave,0x6F),(0xF3,deadAcute,0x6F),(0xF4,deadCircumflex,0x6F),
    (0xF5,deadTilde,0x6F),(0xF6,deadDieresis,0x6F),(0xF9,deadGrave,0x75),
    (0xFA,deadAcute,0x75),(0xFB,deadCircumflex,0x75),(0xFC,deadDieresis,0x75),
    (0xFD,deadAcute,0x79),(0xFF,deadDieresis,0x79)]

/-- The dead and the base key that a keysym is typed with, if both are defined. -/
def decomposition (keys : ℕ→Key) (keysym : ℤ) : Option (ℤ×ℤ) :=
  (guacRdpDecomposedKeys.lookup keysym).filter fun (deadKeysym,baseKeysym) =>
    guacRdpKeyboardIsDefined keys deadKeysym && guacRdpKeyboardIsDefined keys baseKeysym

/-- guac_rdp_decompose_keysym for a keysym that has a decomposition. -/
def guacRdpDecomposeKeysym (sendEvent : SendKey) (deadKeysym baseKeysym : ℤ)
    (keyboard : Keyboard) : Option Keyboard :=
  (sendEvent deadKeysym true keyboard).bind fun keyboard =>
  (sendEvent deadKeysym false keyboard).bind fun keyboard =>
  (sendEvent baseKeysym true keyboard).bind fun keyboard =>
  sendEvent baseKeysym false keyboard

/-- The codepoint that is typed for a keysym, if it has one: bits of a mask are those of
the remainder. -/
def codepoint (keysym : ℤ) : Option ℤ :=
  if keysym≤0xFF then some keysym
  else if keysym≥0x1000000 then some (keysym%0x1000000)
  else none

/-- A Unicode event is sent for a keysym that has a codepoint. -/
def guacRdpSendUnicodeEvent (keysym : ℤ) (keyboard : Keyboard) : Keyboard :=
  match codepoint keysym with
  | some codepoint => keyboard.send (.unicode codepoint)
  | none => keyboard

/-- guac_rdp_keyboard_send_event, with so many nested calls at most. -/
def guacRdpKeyboardSendEvent : ℕ→SendKey
  | 0, _, _, _ => none
  | depth+1, keysym, pressed, keyboard =>
    let sendEvents := guacRdpKeyboardSendEvents (guacRdpKeyboardSendEvent depth)
    match (guacRdpKeyboardGetKey keyboard.keys keysym).filter fun key =>
      decide (key.1.scancode.code≠0) with
    | some (desc,_) =>
      let keyboard := guacRdpKeyboardUpdateLocks desc.setLocks desc.clearLocks keyboard
      (sendEvents false true desc.setKeysyms keyboard).bind fun keyboard =>
      (sendEvents true false desc.clearKeysyms keyboard).bind fun keyboard =>
      let keyboard := keyboard.send (.key keysym desc.scancode pressed)
      (sendEvents false false desc.setKeysyms keyboard).bind fun keyboard =>
      sendEvents true true desc.clearKeysyms keyboard
    | none =>
      if pressed then
        match decomposition keyboard.keys keysym with
        | some (deadKeysym,baseKeysym) =>
          guacRdpDecomposeKeysym (guacRdpKeyboardSendEvent depth) deadKeysym baseKeysym keyboard
        | none => some (guacRdpSendUnicodeEvent keysym keyboard)
      else some keyboard

/-- The local state of a key that is defined is updated. -/
def setPressed (keysym : ℤ) (pressed : Bool) (keys : ℕ→Key) : ℕ→Key :=
  match guacRdpKeyboardMapKey keysym with
  | none => keys
  | some index =>
    if (keys index).definition.isSome then
      Function.update keys index { keys index with pressed := pressed }
    else keys

/-- The remote lock keys are synchronised, if this has not yet been done. -/
def synchronizeOnce (keyboard : Keyboard) : Keyboard :=
  if keyboard.synchronized then keyboard
  else { keyboard.send (.synchronize keyboard.lockFlags) with synchronized := true }

/-- The local state before the events of a call are sent. -/
def updateLocal (keysym : ℤ) (pressed : Bool) (keyboard : Keyboard) : Keyboard :=
  let keyboard := synchronizeOnce keyboard
  { keyboard with
    lockFlags :=
      if pressed then keyboard.lockFlags ^^^ guacRdpKeyboardLockFlag keysym else keyboard.lockFlags
    keys := setPressed keysym pressed keyboard.keys }

/-- guac_rdp_keyboard_update_keysym. -/
def guacRdpKeyboardUpdateKeysym (depth : ℕ) (call : ℤ×Bool) (keyboard : Keyboard) :
    Option Keyboard :=
  guacRdpKeyboardSendEvent depth call.1 call.2 (updateLocal call.1 call.2 keyboard)

end GuacServer.RdpKeyboard
