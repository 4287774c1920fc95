import GuacServer.DecimalNumerals
import GuacServer.StateRuns
import GuacServer.Unicode

/-!
# Typescripts

terminal/typescript.c. Terminal output is buffered and goes to a data file. With
each flush the time since the last one and the number of bytes go to a timing
file, as a line. Both files are open and take all that is written to them. Every
call reads the time, in milliseconds.
-/

namespace GuacServer.Typescript

open DecimalNumerals List StateRuns Unicode

/-- GUAC_TERMINAL_TYPESCRIPT_HEADER. -/
def typescriptHeader : List UInt8 := ascii "[BEGIN TYPESCRIPT]\n"

/-- GUAC_TERMINAL_TYPESCRIPT_FOOTER. -/
def typescriptFooter : List UInt8 := ascii "\n[END TYPESCRIPT]\n"

/-- GUAC_TERMINAL_TYPESCRIPT_MAX_DELAY. -/
def typescriptMaxDelay : ℤ := 86400000

/-- The size of the buffer of a typescript. -/
def bufferSize : ℕ := 4096

/-- The size of the buffer of a line. -/
def timestampBufferSize : ℕ := 32

/-- A typescript that is written. -/
structure GuacTerminalTypescript where
  /-- The bytes that are stored in the buffer. -/
  buffer : List UInt8
  /-- The time of the last flush, or of the creation. -/
  lastFlush : ℤ
  /-- What was written to data_fd. -/
  dataFile : List UInt8
  /-- What was written to timing_fd. -/
  timingFile : List UInt8

/-- The three digits of a number of thousandths. -/
def thousandths (n : ℕ) : List UInt8 :=
  [UInt8.ofNat (48+n/100),UInt8.ofNat (48+n/10%10),UInt8.ofNat (48+n%10)]

/-- An int divided by 1000.0, as %0.6f prints it. The quotient differs from the exact one by far
less than the last of the six places. -/
def formatSeconds (milliseconds : ℤ) : List UInt8 :=
  let text := decimal (milliseconds.natAbs/1000)++
    46::(thousandths (milliseconds.natAbs%1000)++[48,48,48])
  if milliseconds<0 then 45::text else text

/-- A line of the timing file. -/
def timestampLine (elapsedTime : ℤ) (length : ℕ) : List UInt8 :=
  formatSeconds elapsedTime++32::(decimal length++[10])

/-- snprintf: what the buffer holds, and the length of the whole text. -/
def snprintf (size : ℕ) (text : List UInt8) : List UInt8×ℕ := (text.take (size-1)++[0],text.length)

/-- guac_terminal_typescript_alloc, once the files are open. -/
def guacTerminalTypescriptAlloc (time : ℤ) : GuacTerminalTypescript := ⟨[],time,typescriptHeader,[]⟩

/-- guac_terminal_typescript_flush. -/
def guacTerminalTypescriptFlush (thisFlush : ℤ) (typescript : GuacTerminalTypescript) :
    GuacTerminalTypescript :=
  if typescript.buffer.length=0 then typescript
  else
    let elapsedTime := wrap32 (thisFlush-typescript.lastFlush)
    let elapsedTime :=
      if elapsedTime > typescriptMaxDelay then typescriptMaxDelay else elapsedTime
    let printed := snprintf timestampBufferSize (timestampLine elapsedTime typescript.buffer.length)
    let timestampLength :=
      if printed.2 > timestampBufferSize then timestampBufferSize else printed.2
    { buffer := []
      lastFlush := thisFlush
      dataFile := typescript.dataFile++typescript.buffer
      timingFile := typescript.timingFile++printed.1.take timestampLength }

/-- guac_terminal_typescript_write. A store outside of the buffer has no result. -/
def guacTerminalTypescriptWrite (time : ℤ) (c : UInt8) (typescript : GuacTerminalTypescript) :
    Option GuacTerminalTypescript :=
  let typescript :=
    if typescript.buffer.length=bufferSize then guacTerminalTypescriptFlush time typescript
    else typescript
  if typescript.buffer.length<bufferSize then
    some { typescript with buffer := typescript.buffer++[c] }
  else none

/-- guac_terminal_typescript_free. -/
def guacTerminalTypescriptFree (time : ℤ) (typescript : GuacTerminalTypescript) :
    GuacTerminalTypescript :=
  let typescript := guacTerminalTypescriptFlush time typescript
  { typescript with dataFile := typescript.dataFile++typescriptFooter }

/-! ## Runs -/

/-- Calls on a typescript. -/
inductive TypescriptCall
  /-- guac_terminal_typescript_write. -/
  | write (c : UInt8)
  /-- guac_terminal_typescript_flush. -/
  | flush

/-- A typescript and what was done to it. -/
structure TypescriptSession where
  typescript : GuacTerminalTypescript
  /-- All bytes that were written. -/
  written : List UInt8
  /-- When data went to the file, and how much, the latest time first. -/
  flushes : List (ℤ×ℕ)

/-- A typescript that was just created. -/
def freshTypescript (created : ℤ) : TypescriptSession := ⟨guacTerminalTypescriptAlloc created,[],[]⟩

/-- The session after a call at some time. -/
def TypescriptSession.next (session : TypescriptSession) (time : ℤ) (bytes : List UInt8)
    (typescript : GuacTerminalTypescript) : TypescriptSession where
  typescript := typescript
  written := session.written++bytes
  flushes :=
    if session.typescript.dataFile.length<typescript.dataFile.length then
      (time,typescript.dataFile.length-session.typescript.dataFile.length)::session.flushes
    else session.flushes

/-- One call at some time. -/
def typescriptStep (call : ℤ×TypescriptCall) (session : TypescriptSession) :
    Option TypescriptSession :=
  match call.2 with
  | .write c =>
    (guacTerminalTypescriptWrite call.1 c session.typescript).map (session.next call.1 [c])
  | .flush => some (session.next call.1 [] (guacTerminalTypescriptFlush call.1 session.typescript))

/-- The session once the typescript is freed, which flushes it first. -/
def TypescriptSession.free (session : TypescriptSession) (ended : ℤ) : TypescriptSession :=
  { session.next ended [] (guacTerminalTypescriptFlush ended session.typescript) with
    typescript := guacTerminalTypescriptFree ended session.typescript }

/-- The time of the latest flush, or of the creation. -/
def previousFlush (created : ℤ) : List (ℤ×ℕ)→ℤ
  | [] => created
  | flushed::_ => flushed.1

/-- The delays and lengths to record for flushes, the earliest first. -/
def timingEntries (delay : ℤ→ℤ) (created : ℤ) : List (ℤ×ℕ)→List (ℤ×ℕ)
  | [] => []
  | (time,length)::earlier =>
    timingEntries delay created earlier++[(delay (time-previousFlush created earlier),length)]

/-- The lines of a timing file. -/
def timingLines (entries : List (ℤ×ℕ)) : List UInt8 :=
  entries.flatMap fun entry => timestampLine entry.1 entry.2

/-- The time since the previous flush, capped. -/
def cappedDelay (gap : ℤ) : ℤ := min gap typescriptMaxDelay

/-- Both files are as they should be. -/
structure FilesMatch (created : ℤ) (session : TypescriptSession) : Prop where
  /-- The data file holds what was written, in order. -/
  data : session.typescript.dataFile=typescriptHeader++session.written++typescriptFooter
  /-- The timing file consists of complete lines with the delays. -/
  timing : session.typescript.timingFile=
    timingLines (timingEntries cappedDelay created session.flushes)
  /-- The lengths add up to what was written. -/
  lengths : ((timingEntries cappedDelay created session.flushes).map Prod.snd).sum=
    session.written.length
  /-- No delay is negative. -/
  delays : ∀ entry∈timingEntries cappedDelay created session.flushes, 0≤entry.1

/-- All calls are taken, and after them the files match. -/
def TypescriptMatches (created : ℤ) (calls : List (ℤ×TypescriptCall)) (ended : ℤ) : Prop :=
  ∃ session, run typescriptStep calls (freshTypescript created)=some session ∧
    FilesMatch created (session.free ended)

/-- A call makes data go to the file. -/
def Flushes (call : TypescriptCall) (typescript : GuacTerminalTypescript) : Prop :=
  match call with
  | .write _ => typescript.buffer.length=bufferSize
  | .flush => typescript.buffer.length≠0

instance (call : TypescriptCall) (typescript : GuacTerminalTypescript) :
    Decidable (Flushes call typescript) :=
  match call with
  | .write _ => inferInstanceAs (Decidable (_ = _))
  | .flush => inferInstanceAs (Decidable (_ ≠ _))

/-- A time since the previous flush is an int, or one that is capped all the same once it is
narrowed to an int. -/
def GapFits (gap : ℤ) : Prop := gap<2^31 ∨ typescriptMaxDelay≤wrap32 gap

instance (gap : ℤ) : Decidable (GapFits gap) := inferInstanceAs (Decidable (_ ∨ _))

/-- A call that makes data go to the file comes at a time that fits. -/
def DelayFits (call : ℤ×TypescriptCall) (session : TypescriptSession) : Prop :=
  Flushes call.2 session.typescript→GapFits (call.1-session.typescript.lastFlush)

instance (call : ℤ×TypescriptCall) (session : TypescriptSession) :
    Decidable (DelayFits call session) :=
  inferInstanceAs (Decidable (_ → _))

/-! ## Lines -/

/-- What comes before the first delimiter is determined. -/
theorem eq_of_delimited {α : Type} {delimiter : α} {a b rest rest' : List α}
    (ha : delimiter ∉ a) (hb : delimiter ∉ b)
    (h : a++delimiter::rest=b++delimiter::rest') : a=b ∧ rest=rest' := by
  induction a generalizing b with
  | nil =>
    cases b with
    | nil => exact ⟨rfl,(List.cons.inj h).2⟩
    | cons x b => exact absurd (mem_cons.mpr (Or.inl (List.cons.inj h).1)) hb
  | cons x a ih =>
    cases b with
    | nil => exact absurd (mem_cons.mpr (Or.inl (List.cons.inj h).1.symm)) ha
    | cons y b =>
      obtain ⟨hxy,hrest⟩ := List.cons.inj h
      obtain ⟨hab,hrest'⟩ := ih (fun hmem => ha (mem_cons_of_mem x hmem))
        (fun hmem => hb (mem_cons_of_mem y hmem)) hrest
      exact ⟨congrArg₂ List.cons hxy hab,hrest'⟩

/-- What is no digit is not in a decimal form. -/
theorem not_mem_decimal {c : UInt8} (hc : ¬IsDigit c) (n : ℕ) : c ∉ decimal n :=
  fun hmem => hc (decimal_digits n c hmem)

/-- Three digits have the value that they are made from. -/
theorem thousandths_spec {n : ℕ} (h : n<1000) :
    (∀ c∈thousandths n, IsDigit c) ∧ numeral (thousandths n)=n := by
  obtain ⟨hdigit₁,hvalue₁⟩ := digit_ofNat (by omega : n/100<10)
  obtain ⟨hdigit₂,hvalue₂⟩ := digit_ofNat (by omega : n/10%10<10)
  obtain ⟨hdigit₃,hvalue₃⟩ := digit_ofNat (by omega : n%10<10)
  unfold thousandths
  constructor
  · simp only [forall_mem_cons,not_mem_nil,false_implies,implies_true,and_true]
    exact ⟨hdigit₁,hdigit₂,hdigit₃⟩
  · rw [numeral,numeralFrom,numeralFrom,numeralFrom,numeralFrom,hvalue₁,hvalue₂,hvalue₃]
    omega

/-- The digits of a number of milliseconds. -/
def secondsText (n : ℕ) : List UInt8 := decimal (n/1000)++46::(thousandths (n%1000)++[48,48,48])

theorem formatSeconds_eq (milliseconds : ℤ) : formatSeconds milliseconds=
    if milliseconds<0 then 45::secondsText milliseconds.natAbs
    else secondsText milliseconds.natAbs := rfl

theorem mem_secondsText {n : ℕ} {c : UInt8} (h : c∈secondsText n) : IsDigit c ∨ c=46 := by
  rcases mem_append.mp h with h | h
  · exact Or.inl (decimal_digits _ c h)
  rcases mem_cons.mp h with h | h
  · exact Or.inr h
  rcases mem_append.mp h with h | h
  · exact Or.inl ((thousandths_spec (Nat.mod_lt n (by decide))).1 c h)
  · have hzero : c=48 := eq_of_mem_replicate (n := 3) h
    rw [hzero]
    exact Or.inl (by decide)

theorem secondsText_injective : Function.Injective secondsText := by
  intro n m h
  have hdot : ¬IsDigit 46 := by decide
  obtain ⟨hseconds,hrest⟩ := eq_of_delimited (not_mem_decimal hdot _) (not_mem_decimal hdot _) h
  have hquotient := congrArg numeral hseconds
  rw [numeral_decimal,numeral_decimal] at hquotient
  have hremainder := congrArg numeral (append_cancel_right hrest)
  rw [(thousandths_spec (Nat.mod_lt n (by decide))).2,
    (thousandths_spec (Nat.mod_lt m (by decide))).2] at hremainder
  omega

theorem mem_formatSeconds {milliseconds : ℤ} {c : UInt8} (h : c∈formatSeconds milliseconds) :
    IsDigit c ∨ c=46 ∨ c=45 := by
  rw [formatSeconds_eq] at h
  split_ifs at h with hneg
  · rcases mem_cons.mp h with h | h
    · exact Or.inr (Or.inr h)
    · exact (mem_secondsText h).imp_right Or.inl
  · exact (mem_secondsText h).imp_right Or.inl

/-- Only a negative number has a sign. -/
theorem sign_not_mem {milliseconds : ℤ} (h : 0 ≤ milliseconds) :
    45 ∉ formatSeconds milliseconds := by
  rw [formatSeconds_eq,if_neg (not_lt.mpr h)]
  intro hmem
  have hsign : ¬(IsDigit 45 ∨ (45 : UInt8)=46) := by decide
  exact hsign (mem_secondsText hmem)

theorem formatSeconds_injective : Function.Injective formatSeconds := by
  have hsigned : ∀ {a b : ℤ}, a<0→0≤b → formatSeconds a≠formatSeconds b := by
    intro a b ha hb heq
    refine sign_not_mem hb ?_
    rw [←heq,formatSeconds_eq,if_pos ha]
    exact mem_cons_self ..
  intro a b h
  rcases lt_or_ge a 0 with ha | ha <;> rcases lt_or_ge b 0 with hb | hb
  · rw [formatSeconds_eq,formatSeconds_eq,if_pos ha,if_pos hb] at h
    have habs := secondsText_injective (List.cons.inj h).2
    omega
  · exact absurd h (hsigned ha hb)
  · exact absurd h.symm (hsigned hb ha)
  · rw [formatSeconds_eq,formatSeconds_eq,if_neg (not_lt.mpr ha),if_neg (not_lt.mpr hb)] at h
    have habs := secondsText_injective h
    omega

/-- What follows a line is determined, and so is the line. -/
theorem timestampLine_injective {entry entry' : ℤ×ℕ} {rest rest' : List UInt8}
    (h : timestampLine entry.1 entry.2++rest=timestampLine entry'.1 entry'.2++rest') :
    entry=entry' ∧ rest=rest' := by
  have hblank : ∀ milliseconds, 32 ∉ formatSeconds milliseconds := by
    intro milliseconds hmem
    have hnot : ¬(IsDigit 32 ∨ (32 : UInt8)=46 ∨ (32 : UInt8)=45) := by decide
    exact hnot (mem_formatSeconds hmem)
  have hnewline : ¬IsDigit 10 := by decide
  unfold timestampLine at h
  simp only [append_assoc,cons_append] at h
  obtain ⟨hdelay,hmore⟩ := eq_of_delimited (hblank _) (hblank _) h
  obtain ⟨hlength,hrest⟩ :=
    eq_of_delimited (not_mem_decimal hnewline _) (not_mem_decimal hnewline _) hmore
  have hnumber := congrArg numeral hlength
  rw [numeral_decimal,numeral_decimal] at hnumber
  exact ⟨Prod.ext (formatSeconds_injective hdelay) hnumber,hrest⟩

/-- A timing file has one list of entries. -/
theorem timingLines_injective : Function.Injective timingLines := by
  have hnonempty : ∀ (entry : ℤ×ℕ) rest, timestampLine entry.1 entry.2++rest≠[] := by
    intro entry rest hempty
    have hlength := congrArg List.length hempty
    unfold timestampLine at hlength
    simp only [length_append,length_cons,length_nil] at hlength
    omega
  intro entries entries' h
  unfold timingLines at h
  induction entries generalizing entries' with
  | nil =>
    cases entries' with
    | nil => rfl
    | cons entry' entries' => exact absurd h.symm (hnonempty entry' _)
  | cons entry entries ih =>
    cases entries' with
    | nil => exact absurd h (hnonempty entry _)
    | cons entry' entries' =>
      rw [flatMap_cons,flatMap_cons] at h
      obtain ⟨hentry,hrest⟩ := timestampLine_injective h
      exact congrArg₂ List.cons hentry (ih hrest)

/-- Every line fits the buffer that it is printed to. -/
theorem length_timestampLine {elapsedTime : ℤ} (h₀ : -(2^31)≤elapsedTime)
    (h₁ : elapsedTime<2^31) {length : ℕ} (hlength : length≤bufferSize) :
    (timestampLine elapsedTime length).length<timestampBufferSize := by
  have hseconds : (decimal (elapsedTime.natAbs/1000)).length≤6+1 := length_decimal_le (by omega)
  have hcount : (decimal length).length≤3+1 :=
    length_decimal_le (by unfold bufferSize at hlength; omega)
  have hformat : (formatSeconds elapsedTime).length≤15 := by
    rw [formatSeconds_eq]
    unfold secondsText thousandths
    split_ifs
    all_goals
      simp only [length_append,length_cons,length_nil]
      omega
  unfold timestampLine timestampBufferSize
  simp only [length_append,length_cons,length_nil]
  omega

/-! ## What every call keeps -/

/-- The time since the previous flush as it is recorded. -/
def recordedDelay (gap : ℤ) : ℤ := min (wrap32 gap) typescriptMaxDelay

/-- A flush writes what is stored and a complete line. -/
theorem flush_eq {typescript : GuacTerminalTypescript} (hstored : typescript.buffer.length≠0)
    (hfits : typescript.buffer.length≤bufferSize) (thisFlush : ℤ) :
    guacTerminalTypescriptFlush thisFlush typescript=
      { buffer := []
        lastFlush := thisFlush
        dataFile := typescript.dataFile++typescript.buffer
        timingFile := typescript.timingFile++
          timestampLine (recordedDelay (thisFlush-typescript.lastFlush))
            typescript.buffer.length } := by
  have hcapped : (if wrap32 (thisFlush-typescript.lastFlush) > typescriptMaxDelay then
      typescriptMaxDelay else wrap32 (thisFlush-typescript.lastFlush))=
      recordedDelay (thisFlush-typescript.lastFlush) := by
    unfold recordedDelay
    split_ifs <;> omega
  have hlow := neg_le_wrap32 (thisFlush-typescript.lastFlush)
  have hhigh := wrap32_lt (thisFlush-typescript.lastFlush)
  have hline : (timestampLine (recordedDelay (thisFlush-typescript.lastFlush))
      typescript.buffer.length).length<timestampBufferSize := by
    refine length_timestampLine ?_ ?_ hfits
    all_goals
      unfold recordedDelay typescriptMaxDelay
      omega
  unfold guacTerminalTypescriptFlush
  rw [if_neg hstored]
  dsimp only
  rw [hcapped]
  generalize timestampLine (recordedDelay (thisFlush-typescript.lastFlush))
    typescript.buffer.length=line at hline
  unfold snprintf
  dsimp only
  rw [if_neg (not_lt.mpr hline.le),take_of_length_le (Nat.le_sub_one_of_lt hline),
    take_left]

/-- The files and the buffer hold what was written, with the delays that are recorded. -/
structure Consistent (created : ℤ) (session : TypescriptSession) : Prop where
  lastFlush : session.typescript.lastFlush=previousFlush created session.flushes
  timing : session.typescript.timingFile=
    timingLines (timingEntries recordedDelay created session.flushes)
  data : session.typescript.dataFile++session.typescript.buffer=typescriptHeader++session.written
  lengths : session.typescript.dataFile.length=
    typescriptHeader.length+(session.flushes.map Prod.snd).sum
  fits : session.typescript.buffer.length≤bufferSize

theorem freshTypescript_consistent (created : ℤ) : Consistent created (freshTypescript created) :=
  ⟨rfl,rfl,rfl,rfl,Nat.zero_le _⟩

/-- A flush at some time is logged. -/
def TypescriptSession.flushed (session : TypescriptSession) (time : ℤ) : TypescriptSession :=
  session.next time [] (guacTerminalTypescriptFlush time session.typescript)

variable {session : TypescriptSession} {created : ℤ}

theorem flushed_empty (hempty : session.typescript.buffer.length=0) (time : ℤ) :
    session.flushed time=session := by
  have hflush : guacTerminalTypescriptFlush time session.typescript=session.typescript :=
    if_pos hempty
  unfold TypescriptSession.flushed TypescriptSession.next
  rw [hflush,append_nil,if_neg (lt_irrefl _)]

theorem flushed_eq (hstored : session.typescript.buffer.length≠0)
    (hfits : session.typescript.buffer.length≤bufferSize) (time : ℤ) :
    session.flushed time=
      { typescript :=
          { buffer := []
            lastFlush := time
            dataFile := session.typescript.dataFile++session.typescript.buffer
            timingFile := session.typescript.timingFile++
              timestampLine (recordedDelay (time-session.typescript.lastFlush))
                session.typescript.buffer.length }
        written := session.written
        flushes := (time,session.typescript.buffer.length)::session.flushes } := by
  unfold TypescriptSession.flushed TypescriptSession.next
  rw [flush_eq hstored hfits]
  dsimp only
  rw [append_nil,length_append,if_pos (by omega),Nat.add_sub_cancel_left]

theorem Consistent.flushed (h : Consistent created session) (time : ℤ) :
    Consistent created (session.flushed time) := by
  by_cases hempty : session.typescript.buffer.length=0
  · rw [flushed_empty hempty]
    exact h
  · rw [flushed_eq hempty h.fits]
    refine ⟨rfl,?_,?_,?_,Nat.zero_le _⟩
    · unfold timingEntries timingLines
      rw [flatMap_append,flatMap_singleton,h.lastFlush,h.timing]
      rfl
    · dsimp only
      rw [append_nil,h.data]
    · dsimp only
      rw [length_append,h.lengths,map_cons,sum_cons]
      omega

/-- The bytes that a call writes. -/
def TypescriptCall.bytes : TypescriptCall→List UInt8
  | .write c => [c]
  | .flush => []

/-- Bytes are stored in the buffer. -/
def TypescriptSession.stored (session : TypescriptSession) (bytes : List UInt8) :
    TypescriptSession :=
  { session with
    typescript := { session.typescript with buffer := session.typescript.buffer++bytes }
    written := session.written++bytes }

theorem Consistent.stored (h : Consistent created session) {bytes : List UInt8}
    (hroom : session.typescript.buffer.length+bytes.length≤bufferSize) :
    Consistent created (session.stored bytes) := by
  refine ⟨h.lastFlush,h.timing,?_,h.lengths,?_⟩
  · unfold TypescriptSession.stored
    dsimp only
    rw [←append_assoc,h.data,append_assoc]
  · unfold TypescriptSession.stored
    dsimp only
    rw [length_append]
    exact hroom

/-- The state in which the bytes of a call are stored. -/
def TypescriptSession.emptied (session : TypescriptSession) (call : ℤ×TypescriptCall) :
    TypescriptSession :=
  if Flushes call.2 session.typescript then session.flushed call.1 else session

theorem Flushes.stored {call : TypescriptCall} {typescript : GuacTerminalTypescript}
    (h : Flushes call typescript) : typescript.buffer.length≠0 := by
  cases call with
  | write c =>
    intro hempty
    exact absurd (hempty.symm.trans h) (by decide)
  | flush => exact h

/-- The bytes of a call find room, after a flush where there was none. -/
theorem emptied_room (hfits : session.typescript.buffer.length≤bufferSize)
    (call : ℤ×TypescriptCall) :
    (session.emptied call).typescript.buffer.length+call.2.bytes.length≤bufferSize := by
  obtain ⟨time,call⟩ := call
  unfold TypescriptSession.emptied
  split_ifs with hflushes
  · rw [flushed_eq hflushes.stored hfits]
    cases call with
    | write c => exact (by decide : 1≤bufferSize)
    | flush => exact Nat.zero_le _
  · cases call with
    | write c => exact lt_of_le_of_ne hfits hflushes
    | flush => exact hfits

/-- What a call keeps. -/
theorem Consistent.step (h : Consistent created session) (call : ℤ×TypescriptCall) :
    Consistent created ((session.emptied call).stored call.2.bytes) := by
  have hkept : Consistent created (session.emptied call) := by
    unfold TypescriptSession.emptied
    split
    · exact h.flushed call.1
    · exact h
  exact hkept.stored (emptied_room h.fits call)

theorem stored_nil (session : TypescriptSession) : session.stored []=session := by
  unfold TypescriptSession.stored
  rw [append_nil,append_nil]

/-- Every call is taken. -/
theorem typescriptStep_eq (hfits : session.typescript.buffer.length≤bufferSize)
    (call : ℤ×TypescriptCall) :
    typescriptStep call session=some ((session.emptied call).stored call.2.bytes) := by
  have hroom := emptied_room hfits call
  obtain ⟨time,call⟩ := call
  cases call with
  | write c =>
    unfold typescriptStep guacTerminalTypescriptWrite
    by_cases hfull : session.typescript.buffer.length=bufferSize
    · have hemptied : session.emptied (time,.write c)=session.flushed time := if_pos hfull
      rw [hemptied] at hroom ⊢
      have hless : (guacTerminalTypescriptFlush time session.typescript).buffer.length<
          bufferSize := Nat.lt_of_succ_le hroom
      dsimp only
      rw [if_pos hfull,if_pos hless,Option.map_some]
      unfold TypescriptSession.flushed TypescriptSession.next TypescriptSession.stored
      dsimp only
      rw [append_nil]
      rfl
    · have hemptied : session.emptied (time,.write c)=session := if_neg hfull
      rw [hemptied] at hroom ⊢
      dsimp only
      rw [if_neg hfull,if_pos (Nat.lt_of_succ_le hroom),Option.map_some]
      unfold TypescriptSession.next
      dsimp only
      rw [if_neg (lt_irrefl _)]
      rfl
  | flush =>
    have hemptied : session.emptied (time,.flush)=session.flushed time := by
      by_cases hempty : session.typescript.buffer.length=0
      · rw [flushed_empty hempty]
        exact if_neg (not_not.mpr hempty)
      · exact if_pos hempty
    rw [hemptied]
    exact congrArg some (stored_nil _).symm

/-! ## Delays -/

/-- The delays are recorded as they should be. -/
def Agrees (created : ℤ) (flushes : List (ℤ×ℕ)) : Prop :=
  timingEntries recordedDelay created flushes=timingEntries cappedDelay created flushes

/-- A flush agrees if its delay is recorded as it is capped. -/
theorem agrees_cons {time : ℤ} {length : ℕ} {earlier : List (ℤ×ℕ)} :
    Agrees created ((time,length)::earlier) ↔ Agrees created earlier ∧
      recordedDelay (time-previousFlush created earlier)=
        cappedDelay (time-previousFlush created earlier) := by
  unfold Agrees
  rw [timingEntries,timingEntries,append_singleton_inj,Prod.mk.injEq,
    and_iff_left (rfl : length=length)]

/-- No delay is negative. -/
def DelaysNonneg (created : ℤ) (flushes : List (ℤ×ℕ)) : Prop :=
  ∀ entry∈timingEntries cappedDelay created flushes, 0≤entry.1

/-- A delay is recorded as it should be exactly if its gap fits. -/
theorem recordedDelay_eq_iff {gap : ℤ} (h : 0≤gap) :
    recordedDelay gap=cappedDelay gap ↔ GapFits gap := by
  unfold recordedDelay cappedDelay GapFits
  by_cases hint : gap<2^31
  · rw [wrap32_of_range (by omega) hint]
    exact iff_of_true rfl (Or.inl hint)
  · have hcap : typescriptMaxDelay=86400000 := rfl
    omega

/-- A call that is not before the last flush keeps the delays right exactly if its own
fits. -/
theorem emptied_agrees (h : Consistent created session) {call : ℤ×TypescriptCall}
    (hlater : session.typescript.lastFlush≤call.1) :
    (Agrees created (session.emptied call).flushes ↔
      Agrees created session.flushes ∧ DelayFits call session) ∧
    (DelaysNonneg created session.flushes → DelaysNonneg created (session.emptied call).flushes) ∧
    ((session.emptied call).typescript.lastFlush=session.typescript.lastFlush ∨
      (session.emptied call).typescript.lastFlush=call.1) := by
  have hgap : 0≤call.1-session.typescript.lastFlush := sub_nonneg.mpr hlater
  unfold TypescriptSession.emptied DelayFits
  by_cases hflushes : Flushes call.2 session.typescript
  · rw [if_pos hflushes,flushed_eq hflushes.stored h.fits]
    refine ⟨?_,fun hdelays entry hentry => ?_,Or.inr rfl⟩
    · rw [←recordedDelay_eq_iff hgap,h.lastFlush]
      dsimp only
      rw [agrees_cons]
      exact ⟨fun hagrees => ⟨hagrees.1,fun _ => hagrees.2⟩,
        fun hagrees => ⟨hagrees.1,hagrees.2 hflushes⟩⟩
    · rcases mem_append.mp hentry with hentry | hentry
      · exact hdelays entry hentry
      · rw [mem_singleton.mp hentry,←h.lastFlush]
        exact le_min hgap (by decide)
  · rw [if_neg hflushes]
    exact ⟨(and_iff_left fun hflushes' => absurd hflushes' hflushes).symm,fun hdelays => hdelays,
      Or.inl rfl⟩

/-- Calls one after the other are all taken, and keep the delays right exactly if all of
theirs fit. -/
theorem run_agrees (calls : List (ℤ×TypescriptCall)) (h : Consistent created session)
    (hordered : (session.typescript.lastFlush::calls.map Prod.fst).Pairwise (· ≤ ·)) :
    ∃ session', run typescriptStep calls session=some session' ∧ Consistent created session' ∧
      (Agrees created session'.flushes ↔
        Agrees created session.flushes ∧ Along typescriptStep DelayFits calls session) ∧
      (DelaysNonneg created session.flushes→DelaysNonneg created session'.flushes) := by
  induction calls generalizing session with
  | nil => exact ⟨session,rfl,h,(and_iff_left trivial).symm,fun hdelays => hdelays⟩
  | cons call calls ih =>
    obtain ⟨hlater,hrest⟩ := pairwise_cons.mp hordered
    have hnow := hlater call.1 (mem_cons_self ..)
    obtain ⟨hagrees,hdelays,hlast⟩ := emptied_agrees h hnow
    have hstep := typescriptStep_eq h.fits call
    have hordered' : (((session.emptied call).stored call.2.bytes).typescript.lastFlush::
        calls.map Prod.fst).Pairwise (· ≤ ·) := by
      refine pairwise_cons.mpr ⟨fun time htime => ?_,(pairwise_cons.mp hrest).2⟩
      rcases hlast with heq | heq
      · exact heq.trans_le (hlater time (mem_cons_of_mem _ htime))
      · exact heq.trans_le ((pairwise_cons.mp hrest).1 time htime)
    obtain ⟨session',hrun,hconsistent,hagrees',hdelays'⟩ := ih (h.step call) hordered'
    refine ⟨session',?_,hconsistent,?_,fun hnonneg => hdelays' (hdelays hnonneg)⟩
    · rw [run,hstep]
      exact hrun
    · rw [hagrees',Along,hstep,←and_assoc]
      exact and_congr_left' hagrees

/-- The lengths that are recorded are those of the flushes. -/
theorem timingEntries_lengths (delay : ℤ→ℤ) (created : ℤ) (flushes : List (ℤ×ℕ)) :
    ((timingEntries delay created flushes).map Prod.snd).sum=(flushes.map Prod.snd).sum := by
  induction flushes with
  | nil => rfl
  | cons flushed earlier ih =>
    obtain ⟨time,length⟩ := flushed
    rw [timingEntries,map_append,sum_append,ih,map_cons,sum_cons,Nat.add_comm]
    rfl

/-- The buffer is empty after a flush. -/
theorem flushed_buffer (hfits : session.typescript.buffer.length≤bufferSize) (time : ℤ) :
    (session.flushed time).typescript.buffer=[] := by
  by_cases hempty : session.typescript.buffer.length=0
  · rw [flushed_empty hempty]
    exact length_eq_zero_iff.mp hempty
  · rw [flushed_eq hempty hfits]

/-- Once a typescript is freed, only the delays may be wrong. -/
theorem filesMatch_free (hfits : session.typescript.buffer.length≤bufferSize) {ended : ℤ}
    (h : Consistent created (session.flushed ended))
    (hdelays : DelaysNonneg created (session.flushed ended).flushes) :
    FilesMatch created (session.free ended) ↔ Agrees created (session.flushed ended).flushes := by
  have hdata := h.data
  rw [flushed_buffer hfits,append_nil] at hdata
  have hlengths := h.lengths
  rw [hdata,length_append,Nat.add_left_cancel_iff] at hlengths
  constructor
  · intro hmatch
    exact timingLines_injective (h.timing.symm.trans hmatch.timing)
  · intro hagrees
    refine ⟨congrArg (· ++ typescriptFooter) hdata,?_,?_,hdelays⟩
    · exact h.timing.trans (congrArg timingLines hagrees)
    · rw [timingEntries_lengths]
      exact hlengths.symm

/-- Where time does not go back, the files of a typescript match exactly if every time since the
previous flush is an int, or is capped all the same once it is narrowed to an int. -/
theorem typescriptMatches_iff (created : ℤ) (calls : List (ℤ×TypescriptCall)) (ended : ℤ)
    (hordered : (created::(calls.map Prod.fst++[ended])).Pairwise (· ≤ ·)) :
    TypescriptMatches created calls ended ↔
      Along typescriptStep DelayFits (calls++[(ended,.flush)]) (freshTypescript created) := by
  have hfresh := freshTypescript_consistent created
  have htimes : (freshTypescript created).typescript.lastFlush::
      (calls++[(ended,TypescriptCall.flush)]).map Prod.fst=
      created::(calls.map Prod.fst++[ended]) := by
    rw [map_append]
    rfl
  rw [←htimes] at hordered
  obtain ⟨freed,hfreed,hconsistent,hagrees,hdelays⟩ := run_agrees _ hfresh hordered
  rw [run_append] at hfreed
  obtain ⟨session,hrun,hlast⟩ := Option.bind_eq_some_iff.mp hfreed
  obtain rfl : session.flushed ended=freed := Option.some.inj hlast
  have hkept : Consistent created session := by
    refine run_keeps (fun {call made next} hmade hstep => ?_) hfresh hrun
    cases (typescriptStep_eq hmade.fits call).symm.trans hstep
    exact hmade.step call
  have hmatch := filesMatch_free hkept.fits hconsistent (hdelays nofun)
  have hnone : Agrees created (freshTypescript created).flushes := rfl
  rw [and_iff_right hnone] at hagrees
  rw [←hagrees,←hmatch]
  constructor
  · rintro ⟨session',hrun',hmatch'⟩
    cases hrun.symm.trans hrun'
    exact hmatch'
  · exact fun hmatch' => ⟨session,hrun,hmatch'⟩

/-- Two keys, and another after a while. -/
theorem typescriptMatches_iff_keys :
    TypescriptMatches 0 [(5,.write 104),(7,.write 105),(40,.flush),(9000,.write 33)] 9100 :=
  (typescriptMatches_iff 0 [(5,.write 104),(7,.write 105),(40,.flush),(9000,.write 33)] 9100
    (by decide)).mpr (by decide)

/-- Nothing is output for almost 25 days. The time since the creation, narrowed to an int, is
negative, and so is the delay that is recorded. -/
theorem not_typescriptMatches_idle : ¬TypescriptMatches 0 [(2^31,.write 97)] (2^31) := by
  rintro ⟨session,hrun,hmatch⟩
  obtain rfl := Option.some.inj hrun
  have hdelay : recordedDelay (2^31-0) = -(2^31) := by decide
  have hflushed : guacTerminalTypescriptFlush (2^31) ⟨[97],0,typescriptHeader,[]⟩=
      ⟨[],2^31,typescriptHeader++[97],timingLines [(-(2^31),1)]⟩ := by
    rw [flush_eq (by decide) (by decide),hdelay,timingLines,flatMap_singleton]
    rfl
  have htiming : timingLines [(-(2^31),1)]=timingLines [(typescriptMaxDelay,1)] :=
    (congrArg GuacTerminalTypescript.timingFile hflushed).symm.trans hmatch.timing
  exact absurd (timingLines_injective htiming) (by decide)

end GuacServer.Typescript
