import Mathlib.Data.List.Induction
import GuacServer.TerminalStatics

/-!
# Characters in the output of a program

guac_terminal_echo decodes UTF-8 with a code point and a number of missing bytes
that it keeps from byte to byte. A continuation is taken for one whether or not
one was expected, but the number of missing bytes is negative then and stays so
until the next byte that is no continuation. The two are integers here, so that
no number of continuations brings it back to zero.
-/

namespace GuacServer.Terminal

open DecimalNumerals List Unicode

/-! ## Characters of a stream -/

/-- The number of continuations that the form of a lead byte calls for. -/
def continuationsOf (c : UInt8) : Option ℕ :=
  if c.toNat<0x80 then some 0
  else if 0xC0≤c.toNat ∧ c.toNat<0xE0 then some 1
  else if 0xE0≤c.toNat ∧ c.toNat<0xF0 then some 2
  else if 0xF0≤c.toNat ∧ c.toNat<0xF8 then some 3
  else none

/-- A byte continues a character. -/
def IsContinuation (c : UInt8) : Prop := 0x80≤c.toNat ∧ c.toNat<0xC0

instance (c : UInt8) : Decidable (IsContinuation c) := inferInstanceAs (Decidable (_ ∧ _))

/-- What a lead byte has of the code point, given the number of its continuations. -/
def leadBits (c : UInt8) (count : ℕ) : ℤ := (c.toNat%(if count=0 then 0x80 else 2^(6-count)) : ℕ)

/-- The bits of continuations follow those of a code point. -/
def continued (codepoint : ℤ) (bytes : List UInt8) : ℤ :=
  bytes.foldl (fun codepoint c => codepoint*0x40+(c.toNat%0x40 : ℕ)) codepoint

/-- A lead byte and exactly the continuations that its form calls for, which together have
the given code point. -/
structure IsCharacter (bytes : List UInt8) (codepoint : ℤ) : Prop where
  exists_lead : ∃ lead count rest, bytes=lead::rest ∧ continuationsOf lead=some count ∧
    rest.length=count ∧ (∀ c∈rest, IsContinuation c) ∧
      codepoint=continued (leadBits lead count) rest

/-! ## Decoding -/

/-- What decodeByte is where the code point and the number of missing bytes are any
integers. -/
def decodeUnbounded (mapping : Option CharMapping) (codepoint bytesRemaining : ℤ) (c : UInt8) :
    ℤ×ℤ :=
  if mapping.isSome then (c.toNat,0)
  else if c &&& 0x80=0x00 then ((c &&& 0x7F).toNat,0)
  else if c &&& 0xE0=0xC0 then ((c &&& 0x1F).toNat,1)
  else if c &&& 0xF0=0xE0 then ((c &&& 0x0F).toNat,2)
  else if c &&& 0xF8=0xF0 then ((c &&& 0x07).toNat,3)
  else if c &&& 0xC0=0x80 then (codepoint*64+(c &&& 0x3F).toNat,bytesRemaining-1)
  else (63,0)

/-- Bytes are decoded without overflow. -/
theorem decodeByte_eq_unbounded (mapping : Option CharMapping) {codepoint bytesRemaining : ℤ}
    (hcodepoint : -(2^31)≤codepoint*64 ∧ codepoint*64<2^31)
    (hremaining : -(2^31)<bytesRemaining ∧ bytesRemaining≤2^31) (c : UInt8) :
    decodeByte mapping codepoint bytesRemaining c=
      decodeUnbounded mapping codepoint bytesRemaining c := by
  unfold decodeByte decodeUnbounded
  rw [wrap32_of_range hcodepoint.1 hcodepoint.2,wrap32_of_range (by omega) (by omega)]

/-- guac_terminal_echo with a code point and a number of missing bytes that are any integers,
and the code point that is dispatched, if one is. -/
def echoUnbounded (env : TerminalEnv) (term : GuacTerminal) (c : UInt8) : GuacTerminal×Option ℤ :=
  let piped := term.pipeStream && decide (c≠0x1B)
  let term := if piped then guacTerminalPipeStreamWrite term c else term
  if piped ∧ term.pipeStreamFlags%2≠1 then (term,none)
  else
    let decoded :=
      decodeUnbounded term.activeMapping term.statics.codepoint term.statics.bytesRemaining c
    let term := { term with
      statics := { term.statics with codepoint := decoded.1, bytesRemaining := decoded.2 } }
    if decoded.2≠0 then (term,none) else (echoCodepoint env term decoded.1,some decoded.1)

/-- The integers are those of guac_terminal_echo as long as they are ints. -/
theorem echo_eq_unbounded (env : TerminalEnv) (term : GuacTerminal)
    (hcodepoint : -(2^31)≤term.statics.codepoint*64 ∧ term.statics.codepoint*64<2^31)
    (hremaining : -(2^31)<term.statics.bytesRemaining ∧
      term.statics.bytesRemaining≤2^31) (c : UInt8) :
    guacTerminalEcho env term c=(echoUnbounded env term c).1 := by
  have hstatics : (if (term.pipeStream && decide (c≠0x1B))=true then
      guacTerminalPipeStreamWrite term c else term).statics=term.statics := by
    obtain ⟨pipeBuffer,pipeSent,heq⟩ :=
      pipeStreamWrite_eq (term.pipeStream && decide (c≠0x1B)) term c
    rw [heq]
    rfl
  unfold guacTerminalEcho echoUnbounded
  dsimp only
  rw [hstatics,decodeByte_eq_unbounded _ hcodepoint hremaining]
  split_ifs <;> rfl

/-- What becomes of a terminal, and what is dispatched for each of the bytes. -/
def echoBytes (env : TerminalEnv) : GuacTerminal→List UInt8→GuacTerminal×List (Option ℤ)
  | term, [] => (term,[])
  | term, c::bytes =>
    let (term,dispatched) := echoUnbounded env term c
    let (term,rest) := echoBytes env term bytes
    (term,dispatched::rest)

/-- What is dispatched for each of the bytes, given the code point and the number of missing
bytes before them. -/
def dispatches : ℤ×ℤ→List UInt8→List (Option ℤ)
  | _, [] => []
  | (codepoint,bytesRemaining), c::bytes =>
    let decoded := decodeUnbounded none codepoint bytesRemaining c
    (if decoded.2≠0 then none else some decoded.1)::dispatches decoded bytes

/-- The code point and the number of missing bytes after bytes. -/
def decodedAfter (decoded : ℤ×ℤ) (bytes : List UInt8) : ℤ×ℤ :=
  bytes.foldl (fun decoded c => decodeUnbounded none decoded.1 decoded.2 c) decoded

section Bytes

variable {codepoint bytesRemaining : ℤ} {c : UInt8}

/-- What is true of the bytes of all numbers is true of all bytes. -/
theorem forall_byte {P : UInt8→Prop} (h : ∀ n<256, P (UInt8.ofNat n)) (c : UInt8) : P c := by
  have hc := h c.toNat c.toNat_lt
  rwa [UInt8.ofNat_toNat] at hc

theorem decode_continuation (h : IsContinuation c) :
    decodeUnbounded none codepoint bytesRemaining c=(continued codepoint [c],bytesRemaining-1) := by
  have hbits : ∀ n<256, IsContinuation (UInt8.ofNat n) →
      (UInt8.ofNat n &&& 0x80≠0x00 ∧ UInt8.ofNat n &&& 0xE0≠0xC0 ∧
        UInt8.ofNat n &&& 0xF0≠0xE0 ∧ UInt8.ofNat n &&& 0xF8≠0xF0) ∧
      UInt8.ofNat n &&& 0xC0=0x80 ∧
        (UInt8.ofNat n &&& 0x3F).toNat=(UInt8.ofNat n).toNat%0x40 := by decide +kernel
  obtain ⟨⟨hone,htwo,hthree,hfour⟩,hform,hvalue⟩ :=
    forall_byte (P := fun c => IsContinuation c→(c &&& 0x80≠0x00 ∧ c &&& 0xE0≠0xC0 ∧
      c &&& 0xF0≠0xE0 ∧ c &&& 0xF8≠0xF0) ∧ c &&& 0xC0=0x80 ∧
        (c &&& 0x3F).toNat=c.toNat%0x40) hbits c h
  unfold decodeUnbounded
  rw [Option.isSome_none,if_neg Bool.false_ne_true,if_neg hone,if_neg htwo,if_neg hthree,
    if_neg hfour,if_pos hform,hvalue]
  rfl

/-- The code point and the missing bytes after a byte that is no continuation do not depend on
those before it. -/
theorem decode_of_not_continuation (h : ¬IsContinuation c) :
    decodeUnbounded none codepoint bytesRemaining c=decodeUnbounded none 0 0 c := by
  have hbits : ∀ n<256, ¬IsContinuation (UInt8.ofNat n)→UInt8.ofNat n &&& 0xC0≠0x80 := by
    decide +kernel
  have hform := forall_byte (P := fun c => ¬IsContinuation c → c &&& 0xC0≠0x80) hbits c h
  unfold decodeUnbounded
  rw [if_neg hform,if_neg hform]

theorem decode_lead {count : ℕ} (hlead : continuationsOf c=some count) :
    decodeUnbounded none codepoint bytesRemaining c=(leadBits c count,(count : ℤ)) := by
  have hbits : ∀ n<256, ∀ count<4, continuationsOf (UInt8.ofNat n)=some count →
      ¬IsContinuation (UInt8.ofNat n) ∧ decodeUnbounded none 0 0 (UInt8.ofNat n)=
        (leadBits (UInt8.ofNat n) count,(count : ℤ)) := by decide +kernel
  have hcount : count<4 := by
    unfold continuationsOf at hlead
    split_ifs at hlead <;> cases hlead <;> decide
  obtain ⟨hnot,hdecoded⟩ := forall_byte (P := fun c => ∀ count<4,
    continuationsOf c=some count→¬IsContinuation c ∧ decodeUnbounded none 0 0 c=
      (leadBits c count,(count : ℤ))) hbits c count hcount hlead
  rw [decode_of_not_continuation hnot,hdecoded]

/-- A byte of no form is taken for a question mark. -/
theorem decode_other (hlead : continuationsOf c=none) (h : ¬IsContinuation c) :
    decodeUnbounded none codepoint bytesRemaining c=(63,0) := by
  have hbits : ∀ n<256, continuationsOf (UInt8.ofNat n)=none →
      ¬IsContinuation (UInt8.ofNat n) → decodeUnbounded none 0 0 (UInt8.ofNat n)=(63,0) := by
    decide +kernel
  rw [decode_of_not_continuation h]
  exact forall_byte (P := fun c => continuationsOf c=none→¬IsContinuation c →
    decodeUnbounded none 0 0 c=(63,0)) hbits c hlead h

end Bytes

/-! ## What is dispatched for bytes -/

theorem dispatches_length (decoded : ℤ×ℤ) (bytes : List UInt8) :
    (dispatches decoded bytes).length=bytes.length := by
  induction bytes generalizing decoded with
  | nil => rfl
  | cons c bytes ih => exact congrArg (· + 1) (ih _)

theorem dispatches_append (decoded : ℤ×ℤ) (bytes bytes' : List UInt8) :
    dispatches decoded (bytes++bytes')=
      dispatches decoded bytes++dispatches (decodedAfter decoded bytes) bytes' := by
  induction bytes generalizing decoded with
  | nil => rfl
  | cons c bytes ih => exact congrArg (List.cons _) (ih _)

/-- The expected continuations of a character: the last one dispatches it. -/
theorem dispatches_continuations (codepoint : ℤ) (c : UInt8) (rest : List UInt8)
    (h : ∀ c' ∈ c::rest, IsContinuation c') :
    dispatches (codepoint,((c::rest).length : ℤ)) (c::rest)=
      List.replicate rest.length none++[some (continued codepoint (c::rest))] := by
  induction rest generalizing codepoint c with
  | nil =>
    unfold dispatches
    dsimp only
    rw [decode_continuation (h c mem_cons_self)]
    rfl
  | cons c' rest ih =>
    rw [forall_mem_cons] at h
    have hremaining : ((c::c' :: rest).length : ℤ)-1=(c' :: rest).length := by
      rw [length_cons]
      push_cast
      ring
    unfold dispatches
    dsimp only
    rw [decode_continuation h.1,hremaining,ih _ _ h.2,if_pos (by
      rw [length_cons]
      omega)]
    rfl

/-- A character is dispatched with its last byte, whatever came before it. -/
theorem dispatches_character {bytes : List UInt8} {codepoint : ℤ}
    (h : IsCharacter bytes codepoint) (decoded : ℤ×ℤ) :
    dispatches decoded bytes=List.replicate (bytes.length-1) none++[some codepoint] := by
  obtain ⟨lead,count,rest,rfl,hlead,hlength,hrest,rfl⟩ := h.exists_lead
  unfold dispatches
  dsimp only
  rw [decode_lead hlead]
  cases rest with
  | nil =>
    rw [←hlength]
    rfl
  | cons c rest =>
    dsimp only
    rw [←hlength,dispatches_continuations _ _ _ hrest,if_pos (by
      rw [length_cons]
      omega)]
    rfl

/-- If bytes are missing, what has been decoded ends with a lead byte and the continuations
that it had so far. -/
theorem exists_lead_of_missing {decoded : ℤ×ℤ} (hidle : decoded.2≤0) (bytes : List UInt8)
    (hmissing : 0<(decodedAfter decoded bytes).2) :
    ∃ before lead rest count, bytes=before++lead::rest ∧
      continuationsOf lead=some count ∧ (∀ c∈rest, IsContinuation c) ∧
        (rest.length : ℤ)+(decodedAfter decoded bytes).2=count ∧
          (decodedAfter decoded bytes).1=continued (leadBits lead count) rest := by
  induction bytes using List.reverseRecOn with
  | nil => exact absurd hmissing (not_lt.mpr hidle)
  | append_singleton bytes c ih =>
    have hafter : decodedAfter decoded (bytes++[c])=decodeUnbounded none
        (decodedAfter decoded bytes).1 (decodedAfter decoded bytes).2 c := by
      unfold decodedAfter
      rw [foldl_append,foldl_cons,foldl_nil]
    rw [hafter] at hmissing ⊢
    cases hlead : continuationsOf c with
    | some count =>
      rw [decode_lead hlead]
      exact ⟨bytes,c,[],count,rfl,hlead,fun _ h => absurd h not_mem_nil,zero_add _,rfl⟩
    | none =>
      by_cases hc : IsContinuation c
      · rw [decode_continuation hc] at hmissing ⊢
        dsimp only at hmissing ⊢
        obtain ⟨before,lead,rest,count,heq,hform,hrest,hcount,hcodepoint⟩ := ih (by omega)
        refine ⟨before,lead,rest++[c],count,?_,hform,?_,?_,?_⟩
        · rw [heq,append_assoc,cons_append]
        · exact forall_mem_append.mpr ⟨hrest,forall_mem_singleton.mpr hc⟩
        · rw [length_append,length_singleton]
          push_cast
          omega
        · rw [hcodepoint]
          unfold continued
          rw [foldl_append]
      · rw [decode_other hlead hc] at hmissing
        exact absurd hmissing (lt_irrefl 0)

/-- The byte in a position is one of a character of a stream. -/
def OfCharacter (bytes : List UInt8) (position : ℕ) : Prop :=
  ∃ before character after codepoint, bytes=before++(character++after) ∧
    IsCharacter character codepoint ∧
      before.length≤position ∧ position<before.length+character.length

/-- The characters of a stream are dispatched with their own code points, each with its last
byte, and nothing or question marks for its other bytes. -/
structure Resynchronises (bytes : List UInt8) (dispatched : List (Option ℤ)) : Prop where
  each : dispatched.length=bytes.length
  characters : ∀ before character after codepoint, bytes=before++(character++after) →
    IsCharacter character codepoint → (dispatched.drop before.length).take character.length=
        List.replicate (character.length-1) none++[some codepoint]
  others : ∀ position<bytes.length, ¬OfCharacter bytes position →
    dispatched[position]? = some none ∨ dispatched[position]? = some (some 63)

theorem dispatches_resynchronises {decoded : ℤ×ℤ} (hidle : decoded.2≤0)
    (bytes : List UInt8) : Resynchronises bytes (dispatches decoded bytes) := by
  refine ⟨dispatches_length decoded bytes,?_,fun position hposition hnot => ?_⟩
  · rintro before character after codepoint rfl hcharacter
    have hbefore := dispatches_length decoded before
    have hlength := dispatches_length (decodedAfter decoded before) character
    rw [dispatches_append,dispatches_append,←hbefore,drop_left,←hlength,take_left,hlength]
    exact dispatches_character hcharacter _
  · obtain ⟨before,c,after,heq,rfl⟩ : ∃ before c after, bytes=before++c::after ∧
        before.length=position :=
      ⟨bytes.take position,bytes[position],bytes.drop (position+1),by simp,
        length_take_of_le hposition.le⟩
    have hdispatched : (dispatches decoded bytes)[before.length]?=
        (dispatches (decodedAfter decoded before) (c::after)).head? := by
      rw [heq,dispatches_append,List.getElem?_append_right (dispatches_length ..).le,
        dispatches_length,Nat.sub_self,List.head?_eq_getElem?]
    have hmissing := exists_lead_of_missing hidle before
    generalize decodedAfter decoded before=after' at *
    rw [hdispatched]
    unfold dispatches
    dsimp only
    rw [List.head?_cons]
    cases hlead : continuationsOf c with
    | some count =>
      rw [decode_lead hlead]
      dsimp only
      rcases Nat.eq_zero_or_pos count with rfl | hpos
      · refine absurd ⟨before,[c],after,_,heq,⟨c,0,[],rfl,hlead,rfl,
          fun _ h => absurd h not_mem_nil,rfl⟩,le_rfl,?_⟩ hnot
        exact Nat.lt_succ_self _
      · rw [if_pos (by omega)]
        exact Or.inl rfl
    | none =>
      by_cases hc : IsContinuation c
      · rw [decode_continuation hc]
        dsimp only
        by_cases hone : after'.2=1
        · -- the continuation that was missing
          obtain ⟨before',lead,rest,count,hbefore,hform,hrest,hcount,-⟩ := hmissing (by omega)
          refine absurd ⟨before',lead::(rest++[c]),after,_,?_,⟨lead,count,rest++[c],
            rfl,hform,?_,forall_mem_append.mpr ⟨hrest,forall_mem_singleton.mpr hc⟩,
            rfl⟩,?_,?_⟩ hnot
          · rw [heq,hbefore]
            simp
          · rw [length_append,length_singleton]
            omega
          · rw [hbefore,length_append]
            omega
          · rw [hbefore]
            simp
        · rw [if_pos (by omega)]
          exact Or.inl rfl
      · rw [decode_other hlead hc]
        exact Or.inr rfl

/-! ## What a terminal dispatches -/

/-- Output goes to the screen alone, as Unicode. -/
structure Undirected (term : GuacTerminal) : Prop where
  pipeStream : term.pipeStream=false
  charMapping : term.charMapping=(none,none)

/-- A terminal has the same means of decoding. -/
structure SameDecoder (term term' : GuacTerminal) : Prop where
  pipeStream : term'.pipeStream=term.pipeStream
  charMapping : term'.charMapping=term.charMapping
  statics : term'.statics=term.statics

variable {env : TerminalEnv} {term term' : GuacTerminal}

theorem SameDecoder.refl (term : GuacTerminal) : SameDecoder term term := ⟨rfl,rfl,rfl⟩

/-- Contents and the place of the cursor do not matter. -/
theorem SameButCursor.decoder (h : SameButCursor term term') : SameDecoder term term' := by
  rw [h]
  exact ⟨rfl,rfl,rfl⟩

/-- What is dispatched does not change how the next byte is decoded. -/
theorem sameDecoder_echoCodepoint (env : TerminalEnv) (term : GuacTerminal)
    (hmapping : term.charMapping=(none,none)) (codepoint : ℤ) :
    SameDecoder term (echoCodepoint env term codepoint) := by
  have hactive : term.activeMapping=none := by
    unfold GuacTerminal.activeMapping
    rw [hmapping,ite_self]
  have hmoved : ∀ {fed : GuacTerminal} row col, SameButCursor term fed →
      SameDecoder term (guacTerminalMoveCursor fed row col) :=
    fun row col hfed => SameButCursor.decoder (hfed.trans rfl)
  have hfed := sameButCursor_linefeed term
  have hstill := SameButCursor.refl term
  have hsame := SameDecoder.refl term
  unfold echoCodepoint
  rw [hactive]
  refine ite_keeps hsame (ite_keeps (hmoved _ _ hstill) (ite_keeps
    (hmoved _ _ hstill) (ite_keeps (ite_keeps (hmoved _ _ hfed) hfed.decoder) ?_)))
  refine ite_keeps (hmoved _ _ hstill) (ite_keeps ⟨rfl,rfl,rfl⟩ (ite_keeps
    ⟨rfl,rfl,rfl⟩ (ite_keeps ⟨rfl,rfl,rfl⟩ (ite_keeps ⟨rfl,rfl,rfl⟩ ?_))))
  exact ite_keeps hsame (sameButCursor_displayCharacter env term codepoint).decoder

/-- What is done for a code point does not depend on what is decoded, and leaves it alone. -/
theorem echoCodepoint_withStatics (env : TerminalEnv) (hmapping : term.charMapping=(none,none))
    (statics : HandlerStatics) (codepoint : ℤ) :
    echoCodepoint env (term.withStatics statics) codepoint=
      (echoCodepoint env term codepoint).withStatics statics := by
  obtain ⟨shown,kept,hshown⟩ := echoCodepoint_showsAlike env term codepoint
  have hterm : echoCodepoint env term codepoint=_ := hshown term.statics
  have hstatics :=
    (sameDecoder_echoCodepoint env (term.withStatics statics) hmapping codepoint).statics
  have hother : echoCodepoint env (term.withStatics statics) codepoint=_ := hshown statics
  rw [hother] at hstatics ⊢
  rw [hterm,withStatics_withStatics]
  exact congrArg shown.withStatics hstatics

/-- A byte is kept, or dispatches a code point, apart from what is being decoded. -/
theorem echoUnbounded_eq (env : TerminalEnv) (h : Undirected term) (c : UInt8) :
    ∃ statics, echoUnbounded env term c=(term.withStatics statics,none) ∨
      ∃ codepoint, echoUnbounded env term c=
        ((echoCodepoint env term codepoint).withStatics statics,some codepoint) := by
  have hpiped : (term.pipeStream && decide (c≠0x1B))=false := by
    rw [h.pipeStream,Bool.false_and]
  unfold echoUnbounded
  rw [hpiped]
  dsimp only
  rw [if_neg (fun hpiped => Bool.false_ne_true hpiped.1),if_neg Bool.false_ne_true]
  generalize decodeUnbounded term.activeMapping term.statics.codepoint
    term.statics.bytesRemaining c=decoded
  refine ⟨term.statics.decoded decoded,?_⟩
  split_ifs
  · exact Or.inl rfl
  · exact Or.inr ⟨decoded.1,congrArg (·,some decoded.1)
      (echoCodepoint_withStatics env h.charMapping (term.statics.decoded decoded) decoded.1)⟩

/-- What a byte is decoded to is what decides on what is dispatched. -/
theorem echoUnbounded_spec (env : TerminalEnv) (h : Undirected term) (c : UInt8) :
    let decoded := decodeUnbounded none term.statics.codepoint term.statics.bytesRemaining c
    (echoUnbounded env term c).2=(if decoded.2≠0 then none else some decoded.1) ∧
      Undirected (echoUnbounded env term c).1 ∧
      ((echoUnbounded env term c).1.statics.codepoint,
        (echoUnbounded env term c).1.statics.bytesRemaining)=decoded := by
  intro decoded
  have hactive : term.activeMapping=none := by
    unfold GuacTerminal.activeMapping
    rw [h.charMapping,ite_self]
  have hecho : echoUnbounded env term c=
      if decoded.2≠0 then ({ term with statics := { term.statics with
        codepoint := decoded.1, bytesRemaining := decoded.2 } },none)
      else (echoCodepoint env { term with statics := { term.statics with
        codepoint := decoded.1, bytesRemaining := decoded.2 } } decoded.1,some decoded.1) := by
    have hpiped : (term.pipeStream && decide (c≠0x1B))=false := by
      rw [h.pipeStream,Bool.false_and]
    unfold echoUnbounded
    rw [hpiped]
    dsimp only
    rw [if_neg (fun hpiped => Bool.false_ne_true hpiped.1),if_neg Bool.false_ne_true,hactive]
  rw [hecho]
  split_ifs with hmissing
  · exact ⟨rfl,⟨h.pipeStream,h.charMapping⟩,rfl⟩
  · obtain ⟨hpipe,hmapping,hstatics⟩ := sameDecoder_echoCodepoint env
      { term with statics := { term.statics with
        codepoint := decoded.1, bytesRemaining := decoded.2 } } h.charMapping decoded.1
    refine ⟨rfl,⟨hpipe.trans h.pipeStream,hmapping.trans h.charMapping⟩,?_⟩
    dsimp only
    rw [hstatics]

/-- What a terminal dispatches for bytes depends on nothing else. -/
theorem echoBytes_dispatches (env : TerminalEnv) (h : Undirected term) (bytes : List UInt8) :
    (echoBytes env term bytes).2=
      dispatches (term.statics.codepoint,term.statics.bytesRemaining) bytes := by
  induction bytes generalizing term with
  | nil => rfl
  | cons c bytes ih =>
    obtain ⟨hdispatched,hundirected,hdecoded⟩ := echoUnbounded_spec env h c
    unfold dispatches
    dsimp only
    rw [←hdecoded,←ih hundirected,hdecoded]
    exact congrArg₂ List.cons hdispatched rfl

/-- The same of any number of code points. -/
theorem foldl_echoCodepoint_withStatics (env : TerminalEnv)
    (hmapping : term.charMapping=(none,none)) (statics : HandlerStatics)
    (codepoints : List ℤ) :
    codepoints.foldl (echoCodepoint env) (term.withStatics statics)=
      (codepoints.foldl (echoCodepoint env) term).withStatics statics := by
  induction codepoints generalizing term with
  | nil => rfl
  | cons codepoint codepoints ih =>
    rw [foldl_cons,echoCodepoint_withStatics env hmapping]
    exact ih ((sameDecoder_echoCodepoint env term hmapping codepoint).charMapping.trans hmapping)

/-- The screen after bytes is what the dispatched code points make of it. -/
theorem echoBytes_screen (env : TerminalEnv) (h : Undirected term) (bytes : List UInt8) :
    (echoBytes env term bytes).1=
      (((echoBytes env term bytes).2.filterMap id).foldl (echoCodepoint env) term).withStatics
        (echoBytes env term bytes).1.statics := by
  induction bytes generalizing term with
  | nil => rfl
  | cons c bytes ih =>
    obtain ⟨-,hundirected,-⟩ := echoUnbounded_spec env h c
    obtain ⟨statics,hecho⟩ := echoUnbounded_eq env h c
    have hrest := ih hundirected
    have hcons : echoBytes env term (c::bytes)=
        ((echoBytes env (echoUnbounded env term c).1 bytes).1,
          (echoUnbounded env term c).2::(echoBytes env (echoUnbounded env term c).1 bytes).2) := rfl
    rw [hcons]
    generalize (echoBytes env (echoUnbounded env term c).1 bytes)=echoed at hrest ⊢
    rcases hecho with hecho | ⟨codepoint,hecho⟩
    · rw [hecho,foldl_echoCodepoint_withStatics env h.charMapping,withStatics_withStatics] at hrest
      rw [hecho]
      exact hrest
    · have hmapping := (sameDecoder_echoCodepoint env term h.charMapping codepoint).charMapping
      rw [hecho,foldl_echoCodepoint_withStatics env (hmapping.trans h.charMapping),
        withStatics_withStatics] at hrest
      rw [hecho]
      exact hrest

/-- A terminal of which no output is redirected or mapped dispatches each character of its
output once, with its own code point and in order, whatever bytes come before or after it,
and for all other bytes nothing or question marks. What is dispatched is all that changes it
besides what is being decoded. -/
theorem echo_resynchronises (env : TerminalEnv) (term : GuacTerminal) (h : Undirected term)
    (hidle : term.statics.bytesRemaining≤0) (bytes : List UInt8) :
    Resynchronises bytes (echoBytes env term bytes).2 ∧ (echoBytes env term bytes).1=
        (((echoBytes env term bytes).2.filterMap id).foldl (echoCodepoint env) term).withStatics
          (echoBytes env term bytes).1.statics := by
  refine ⟨?_,echoBytes_screen env h bytes⟩
  rw [echoBytes_dispatches env h]
  exact dispatches_resynchronises hidle bytes

/-- Three stray continuations, a lead byte without its continuation, and a character of two
bytes. -/
theorem echo_resynchronises_stray :
    ∃ echoed, echoBytes consoleEnv (guacTerminalAlloc consoleMemory consoleSettings 640 384)
        [0x80,0x80,0x80,0xE2,0xC3,0xA9]=echoed ∧
      Resynchronises [0x80,0x80,0x80,0xE2,0xC3,0xA9] echoed.2 ∧
      echoed.2=[none,none,none,none,none,some 0xE9] ∧
      echoed.1=(echoCodepoint consoleEnv (guacTerminalAlloc consoleMemory consoleSettings 640 384)
        0xE9).withStatics echoed.1.statics := by
  obtain ⟨hresynchronises,hscreen⟩ :=
    echo_resynchronises consoleEnv (guacTerminalAlloc consoleMemory consoleSettings 640 384)
      ⟨rfl,rfl⟩ le_rfl [0x80,0x80,0x80,0xE2,0xC3,0xA9]
  have hdispatched : (echoBytes consoleEnv (guacTerminalAlloc consoleMemory consoleSettings 640 384)
      [0x80,0x80,0x80,0xE2,0xC3,0xA9]).2=[none,none,none,none,none,some 0xE9] :=
    (echoBytes_dispatches consoleEnv ⟨rfl,rfl⟩ _).trans rfl
  refine ⟨_,rfl,hresynchronises,hdispatched,hscreen.trans ?_⟩
  rw [hdispatched]
  rfl

end GuacServer.Terminal
