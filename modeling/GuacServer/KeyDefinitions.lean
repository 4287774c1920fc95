import GuacServer.Unicode

/-!
# Definitions of keys

guaclog translates keysyms into names and values: by a table of known keys, by
the Unicode character of a keysym, or else by its hexadecimal form. Whatever
the keysym is, the key has a definition.
-/

namespace GuacServer.KeyDefinitions

open Unicode

/-- guaclog_keydef. -/
structure Keydef where
  keysym : Int32
  /-- The human-readable name. -/
  name : List UInt8
  /-- What the key types, if anything. -/
  value : Option (List UInt8)
  /-- Whether it affects how other keys are interpreted. -/
  modifier : Bool
  deriving DecidableEq

/-- A known key without a value. -/
def namedKey (keysym : Int32) (name : String) : Keydef := ⟨keysym,ascii name,none,false⟩

/-- A known key with a value. -/
def valueKey (keysym : Int32) (name value : String) : Keydef :=
  ⟨keysym,ascii name,some (ascii value),false⟩

/-- A known modifier. -/
def modifierKey (keysym : Int32) (name : String) (value : Option String) : Keydef :=
  ⟨keysym,ascii name,value.map ascii,true⟩

/-- known_keys. -/
def knownKeys : List Keydef :=
  [modifierKey 0xFE03 "AltGr" (some ""), namedKey 0xFF08 "Backspace", namedKey 0xFF09 "Tab",
    namedKey 0xFF0B "Clear", valueKey 0xFF0D "Return" "\n", namedKey 0xFF13 "Pause",
    namedKey 0xFF14 "Scroll", namedKey 0xFF15 "SysReq", namedKey 0xFF1B "Escape",
    namedKey 0xFF50 "Home", namedKey 0xFF51 "Left", namedKey 0xFF52 "Up",
    namedKey 0xFF53 "Right", namedKey 0xFF54 "Down", namedKey 0xFF55 "Page Up",
    namedKey 0xFF56 "Page Down", namedKey 0xFF57 "End", namedKey 0xFF63 "Insert",
    namedKey 0xFF65 "Undo", namedKey 0xFF6A "Help", namedKey 0xFF7F "Num",
    valueKey 0xFF80 "Space" " ", valueKey 0xFF8D "Enter" "\n", namedKey 0xFF95 "Home",
    namedKey 0xFF96 "Left", namedKey 0xFF97 "Up", namedKey 0xFF98 "Right",
    namedKey 0xFF99 "Down", namedKey 0xFF9A "Page Up", namedKey 0xFF9B "Page Down",
    namedKey 0xFF9C "End", namedKey 0xFF9E "Insert", valueKey 0xFFAA "*" "*",
    valueKey 0xFFAB "+" "+", valueKey 0xFFAD "-" "-", valueKey 0xFFAE "." ".",
    valueKey 0xFFAF "/" "/", valueKey 0xFFB0 "0" "0", valueKey 0xFFB1 "1" "1",
    valueKey 0xFFB2 "2" "2", valueKey 0xFFB3 "3" "3", valueKey 0xFFB4 "4" "4",
    valueKey 0xFFB5 "5" "5", valueKey 0xFFB6 "6" "6", valueKey 0xFFB7 "7" "7",
    valueKey 0xFFB8 "8" "8", valueKey 0xFFB9 "9" "9", namedKey 0xFFBE "F1", namedKey 0xFFBF "F2",
    namedKey 0xFFC0 "F3", namedKey 0xFFC1 "F4", namedKey 0xFFC2 "F5", namedKey 0xFFC3 "F6",
    namedKey 0xFFC4 "F7", namedKey 0xFFC5 "F8", namedKey 0xFFC6 "F9", namedKey 0xFFC7 "F10",
    namedKey 0xFFC8 "F11", namedKey 0xFFC9 "F12", namedKey 0xFFCA "F13", namedKey 0xFFCB "F14",
    namedKey 0xFFCC "F15", namedKey 0xFFCD "F16", namedKey 0xFFCE "F17", namedKey 0xFFCF "F18",
    namedKey 0xFFD0 "F19", namedKey 0xFFD1 "F20", namedKey 0xFFD2 "F21", namedKey 0xFFD3 "F22",
    namedKey 0xFFD4 "F23", namedKey 0xFFD5 "F24", modifierKey 0xFFE1 "Shift" (some ""),
    modifierKey 0xFFE2 "Shift" (some ""), modifierKey 0xFFE3 "Ctrl" none,
    modifierKey 0xFFE4 "Ctrl" none, namedKey 0xFFE5 "Caps", modifierKey 0xFFE7 "Meta" none,
    modifierKey 0xFFE8 "Meta" none, modifierKey 0xFFE9 "Alt" none, modifierKey 0xFFEA "Alt" none,
    modifierKey 0xFFEB "Super" none, modifierKey 0xFFEC "Super" none,
    modifierKey 0xFFED "Hyper" none, modifierKey 0xFFEE "Hyper" none, namedKey 0xFFFF "Delete"]

/-- guaclog_get_known_key, where bsearch finds the only key of the table with the keysym. -/
def guaclogGetKnownKey (keysym : Int32) : Option Keydef :=
  knownKeys.find? fun key => decide (key.keysym=keysym)

/-- The upper case hexadecimal form of a number. -/
def hexadecimal (n : ℕ) : List UInt8 :=
  let digit := fun d => if d<10 then UInt8.ofNat (48+d) else UInt8.ofNat (55+d)
  if n<16 then [digit n] else hexadecimal (n/16)++[digit (n%16)]

/-- guaclog_get_unknown_key. -/
def guaclogGetUnknownKey (keysym : Int32) : Keydef :=
  ⟨keysym,ascii "0x" ++ hexadecimal keysym.toUInt32.toNat, none, false⟩

/-- The loop of guaclog_get_unicode_key, in front of the bytes that are set: so many trailing
bytes, and then the initial byte. -/
def unicodeBytes (mask codepoint : ℕ) : ℕ→List UInt8→List UInt8
  | 0, bytes => UInt8.ofNat (mask ||| codepoint)::bytes
  | trailing+1, bytes =>
    unicodeBytes mask (codepoint >>> 6) trailing (UInt8.ofNat (0x80 ||| codepoint &&& 0x3F)::bytes)

/-- The name of guaclog_get_unicode_key, up to its terminator. -/
def unicodeName (codepoint : ℕ) : List UInt8 :=
  let bytes := if codepoint≤0x7F then unicodeBytes 0 codepoint 0 []
    else if codepoint≤0x7FF then unicodeBytes 0xC0 codepoint 1 []
    else unicodeBytes 0xE0 codepoint 2 []
  bytes.takeWhile (· ≠ 0)

/-- guaclog_get_unicode_key. -/
def guaclogGetUnicodeKey (keysym : Int32) : Option Keydef :=
  if keysym<0 ∨ (0xFF<keysym ∧ keysym ||| 0xFFFF≠0x0100FFFF) then none
  else
    let name := unicodeName (keysym &&& 0xFFFF).toInt.toNat
    some ⟨keysym,name,some name,false⟩

/-- guaclog_keydef_alloc, without the copy. -/
def guaclogKeydefAlloc (keysym : Int32) : Keydef :=
  match guaclogGetKnownKey keysym with
  | some keydef => keydef
  | none =>
    match guaclogGetUnicodeKey keysym with
    | some keydef => keydef
    | none => guaclogGetUnknownKey keysym

/-- What fprintf prints of a string, which may be NULL. -/
def printed (s : Option (List UInt8)) : List UInt8 := s.getD (ascii "(null)")

/-- The definition of a keysym has that keysym. -/
theorem guaclogKeydefAlloc_keysym (keysym : Int32) : (guaclogKeydefAlloc keysym).keysym=keysym := by
  rw [guaclogKeydefAlloc]
  cases hknown : guaclogGetKnownKey keysym with
  | some keydef =>
    have hfound := List.find?_some hknown
    exact of_decide_eq_true hfound
  | none =>
    cases hunicode : guaclogGetUnicodeKey keysym with
    | some keydef =>
      rw [guaclogGetUnicodeKey] at hunicode
      split at hunicode
      · cases hunicode
      · cases hunicode
        rfl
    | none => rfl

/-- What only some keys of a table have, they are defined by the table for. -/
theorem guaclogKeydefAlloc_cases (keysym : Int32) :
    guaclogKeydefAlloc keysym∈knownKeys ∨ (guaclogKeydefAlloc keysym).modifier=false ∧
        ((guaclogKeydefAlloc keysym).value=some (guaclogKeydefAlloc keysym).name ∨
          guaclogKeydefAlloc keysym=guaclogGetUnknownKey keysym) := by
  rw [guaclogKeydefAlloc]
  cases hknown : guaclogGetKnownKey keysym with
  | some keydef => exact Or.inl (List.mem_of_find?_eq_some hknown)
  | none =>
    right
    cases hunicode : guaclogGetUnicodeKey keysym with
    | some keydef =>
      rw [guaclogGetUnicodeKey] at hunicode
      split at hunicode
      · cases hunicode
      · cases hunicode
        exact ⟨rfl,Or.inl rfl⟩
    | none => exact ⟨rfl,Or.inr rfl⟩

/-- The modifiers, all of which are known keys. -/
def modifierKeysyms : List Int32 := (knownKeys.filter Keydef.modifier).map Keydef.keysym

/-- The names of modifiers are not empty and do not end with a plus sign. -/
theorem modifier_name {keysym : Int32} (h : (guaclogKeydefAlloc keysym).modifier=true) :
    keysym∈modifierKeysyms ∧ (guaclogKeydefAlloc keysym).name.getLast? ≠ none ∧
      (guaclogKeydefAlloc keysym).name.getLast? ≠ some 43 := by
  have htable : ∀ keydef∈knownKeys, keydef.modifier=true →
      keydef.name.getLast? ≠ none ∧ keydef.name.getLast? ≠ some 43 := by decide
  rcases guaclogKeydefAlloc_cases keysym with hmem | ⟨hplain,-⟩
  · refine ⟨?_,htable _ hmem h⟩
    have hkeysym := List.mem_map_of_mem (f := Keydef.keysym) (List.mem_filter.mpr ⟨hmem,h⟩)
    rwa [guaclogKeydefAlloc_keysym] at hkeysym
  · rw [hplain] at h
    cases h

/-- Hexadecimal forms end with a digit. -/
theorem hexadecimal_last (n : ℕ) : ∃ d, (hexadecimal n).getLast? = some d ∧ d≠41 := by
  have hdigit : ∀ d<16, (if d<10 then UInt8.ofNat (48+d) else UInt8.ofNat (55+d))≠41 := by decide
  rw [hexadecimal]
  dsimp only
  split
  · rename_i hlt
    exact ⟨_,rfl,hdigit n hlt⟩
  · exact ⟨_,List.getLast?_concat,hdigit _ (Nat.mod_lt _ (by decide))⟩

/-- The value of a key that is no modifier is its name, or ends otherwise than the name. -/
theorem plain_value {keysym : Int32} (h : (guaclogKeydefAlloc keysym).modifier=false) :
    (guaclogKeydefAlloc keysym).value=some (guaclogKeydefAlloc keysym).name ∨
      ((printed (guaclogKeydefAlloc keysym).value).getLast? ≠ none ∧
        (guaclogKeydefAlloc keysym).name.getLast? ≠ none ∧
        (printed (guaclogKeydefAlloc keysym).value).getLast?≠
          (guaclogKeydefAlloc keysym).name.getLast?) := by
  have htable : ∀ keydef∈knownKeys, keydef.modifier=false → keydef.value=some keydef.name ∨
        ((printed keydef.value).getLast? ≠ none ∧ keydef.name.getLast? ≠ none ∧
          (printed keydef.value).getLast? ≠ keydef.name.getLast?) := by decide
  rcases guaclogKeydefAlloc_cases keysym with hmem | ⟨-,hvalue | hunknown⟩
  · exact htable _ hmem h
  · exact Or.inl hvalue
  · right
    obtain ⟨d,hlast,hd⟩ := hexadecimal_last keysym.toUInt32.toNat
    have hnull : (ascii "(null)").getLast? = some 41 := by decide
    have hname : (guaclogGetUnknownKey keysym).name.getLast? = some d := by
      rw [guaclogGetUnknownKey,List.getLast?_append,hlast]
      rfl
    rw [hunknown,hname]
    simp only [guaclogGetUnknownKey,printed,Option.getD_none,hnull]
    refine ⟨Option.some_ne_none _,Option.some_ne_none _,fun heq => hd ?_⟩
    exact (Option.some.inj heq).symm

end GuacServer.KeyDefinitions
