import GuacServer.ConfParse

/-!
# The grammar of guacd.conf

The lines of the grammar that is stated for the parser, with the characters of
a name and the text of an unquoted value left open. The parser takes exactly the
lines of one such grammar from the beginning of its buffer, and what an attempt
on an incomplete line has changed already is changed again by the whole line.
-/

namespace GuacServer.ConfGrammar

open ConfParse LineReaders List

/-- What the grammar needs to be told. -/
structure Grammar where
  /-- The characters of a name. -/
  nameChar : UInt8→Bool
  /-- The text of an unquoted value. -/
  plainValue : List UInt8→Bool

/-- opt-whitespace: any number of tabs or spaces. -/
abbrev Blanks := {chars : List UInt8 // ∀ c∈chars, isBlank c}

/-- The text of a comment, without an EOL. -/
abbrev Comment := {chars : List UInt8 // ∀ c∈chars, !isEol c}

/-- A name within its limit. -/
structure Name (g : Grammar) where
  /-- The characters of the name. -/
  chars : List UInt8
  nonempty : chars≠[]
  nameChars : ∀ c∈chars, g.nameChar c
  limit : chars.length≤guacdConfMaxNameLength

/-- A character of a quoted value. -/
inductive QuotedChar where
  /-- One that stands for itself. -/
  | plain (c : UInt8) (h : c≠quote ∧ c≠backslash ∧ isEol c=false)
  /-- Any character behind a backslash. -/
  | escaped (c : UInt8)

/-- How a character of a quoted value is written. -/
def QuotedChar.bytes : QuotedChar→List UInt8
  | .plain c _ => [c]
  | .escaped c => [backslash,c]

/-- The character itself. -/
def QuotedChar.char : QuotedChar→UInt8
  | .plain c _ => c
  | .escaped c => c

/-- How the characters of a quoted value are written. -/
def quotedBytes (chars : List QuotedChar) : List UInt8 := chars.flatMap QuotedChar.bytes

/-- A value within its limit. -/
inductive Value (g : Grammar) where
  /-- A value without quotes. -/
  | plain (chars : List UInt8) (h : g.plainValue chars)
      (limit : chars.length≤guacdConfMaxValueLength)
  /-- A value between quotes. -/
  | quoted (chars : List QuotedChar) (limit : (quotedBytes chars).length<guacdConfMaxValueLength)

/-- A section-name, a parameter-value, or nothing. -/
inductive Declaration (g : Grammar) where
  | null
  | sectionName (name : Name g)
  | parameterValue (name : Name g) (before after : Blanks) (value : Value g)

/-- The line-end of the grammar. -/
structure LineEnd where
  /-- Whitespace before the comment. -/
  gap : Blanks
  /-- The comment, if there is one. -/
  comment : Option Comment
  /-- A carriage return or line feed. -/
  eol : UInt8
  isEol : ConfParse.isEol eol

/-- A line of the grammar. -/
structure Line (g : Grammar) where
  /-- Whitespace before the declaration. -/
  indent : Blanks
  declaration : Declaration g
  /-- The rest of the line. -/
  ending : LineEnd

variable {g : Grammar} {δ : Type}

/-- How a value is written. -/
def Value.bytes : Value g→List UInt8
  | .plain chars _ _ => chars
  | .quoted chars _ => quote::quotedBytes chars++[quote]

/-- The text that a value stands for. -/
def Value.text : Value g→List UInt8
  | .plain chars _ _ => chars
  | .quoted chars _ => chars.map QuotedChar.char

/-- How a declaration is written. -/
def Declaration.bytes : Declaration g→List UInt8
  | .null => []
  | .sectionName name => openBracket::name.chars++[closeBracket]
  | .parameterValue name before after value =>
    name.chars++(before.1++equals::(after.1++value.bytes))

/-- How the comment of a line is written. -/
def commentBytes : Option Comment→List UInt8
  | none => []
  | some text => hashSign::text.1

/-- How the end of a line is written. -/
def LineEnd.bytes (ending : LineEnd) : List UInt8 :=
  ending.gap.1++(commentBytes ending.comment++[ending.eol])

/-- How a line is written. -/
def Line.bytes (line : Line g) : List UInt8 :=
  line.indent.1++(line.declaration.bytes++line.ending.bytes)

/-- What a declaration means: a parameter belongs to the section before it, and the callback
has to accept it. -/
def Declaration.apply (callback : ParamCallback δ) (s : ConfState δ) :
    Declaration g→Option (ConfState δ)
  | .null => some s
  | .sectionName name => some ⟨name.chars,s.data⟩
  | .parameterValue name _ _ value =>
    if s.currentSection=[] then none
    else
      match callback s.currentSection name.chars value.text s.data with
      | .error _ => none
      | .ok data => some ⟨s.currentSection,data⟩

/-- What lines mean, one after the other. -/
def applyLines (callback : ParamCallback δ) (lines : List (Line g)) (s : ConfState δ) :
    Option (ConfState δ) :=
  lines.foldlM (fun s line => line.declaration.apply callback s) s

/-- The grammar stated at the top of conf-parse.c. -/
def statedGrammar : Grammar where
  nameChar := fun c => isNameChar c || c == 0x2D
  plainValue := fun chars => chars.all fun c => !(isEol c || c == hashSign)

/-- The grammar of the functions in conf-parse.c: names have no dash, and a value without
quotes is a word. -/
def implementedGrammar : Grammar where
  nameChar := isNameChar
  plainValue := fun chars => chars≠[] && chars.all isValueChar

/-- The characters that may follow a declaration. -/
def endChar (c : UInt8) : Bool := isBlank c || c == hashSign || isEol c

/-- Where reading characters of a kind stops. -/
def Stops (p : UInt8→Bool) (rest : List UInt8) : Prop := ∀ c, rest.head? = some c → p c=false

variable {rest buffer text : List UInt8}

variable {chars : List UInt8}

/-- Reading stops where other characters follow. -/
theorem takeWhile_stops {p : UInt8→Bool} (h : ∀ c∈chars, p c)
    (hstops : Stops p rest) : (chars++rest).takeWhile p=chars := by
  rw [takeWhile_append_of_pos h]
  cases rest with
  | nil => rw [takeWhile_nil,append_nil]
  | cons c rest =>
    rw [takeWhile_cons_of_neg (by simp only [hstops c rfl,Bool.false_eq_true,
      not_false_eq_true]),append_nil]

/-- What is read, and where reading stops. -/
theorem takeWhile_split (p : UInt8→Bool) (buffer : List UInt8) :
    ∃ rest, buffer=buffer.takeWhile p++rest ∧ Stops p rest := by
  refine ⟨buffer.dropWhile p,takeWhile_append_dropWhile.symm,fun c hc => ?_⟩
  have hhead := List.head?_dropWhile_not p buffer
  rw [hc] at hhead
  exact hhead

/-- Whitespace is read up to what follows it. -/
theorem guacdParseWhitespace_append (blanks : Blanks) (hstops : Stops isBlank rest) :
    guacdParseWhitespace (blanks.1++rest)=blanks.1.length := by
  rw [guacdParseWhitespace,takeWhile_stops blanks.2 hstops]

/-- The whitespace that is read. -/
theorem guacdParseWhitespace_split (buffer : List UInt8) :
    ∃ (blanks : Blanks) (rest : List UInt8), buffer=blanks.1++rest ∧
      guacdParseWhitespace buffer=blanks.1.length ∧ Stops isBlank rest := by
  obtain ⟨rest,hsplit,hstops⟩ := takeWhile_split isBlank buffer
  exact ⟨⟨buffer.takeWhile isBlank,fun c hc => mem_takeWhile_imp hc⟩,rest,hsplit,rfl,hstops⟩

/-- The characters of a name are those that are read through. -/
theorem Name.reads (name : Name implementedGrammar) : ∀ c∈name.chars, isNameChar c := name.nameChars

/-- A name is read up to what follows it. -/
theorem guacdParseName_append (name : Name implementedGrammar) (hstops : Stops isNameChar rest) :
    guacdParseName (name.chars++rest)=.ok name.chars := by
  rw [guacdParseName,takeWhile_stops name.reads hstops]
  exact if_neg (Nat.not_lt.mpr name.limit)

/-- What is read where there is a name. -/
theorem guacdParseName_split (h : guacdParseName buffer=.ok chars)
    (hne : chars≠[]) :
    ∃ (name : Name implementedGrammar) (rest : List UInt8), buffer=name.chars++rest ∧
      chars=name.chars ∧ Stops isNameChar rest := by
  obtain ⟨rest,hsplit,hstops⟩ := takeWhile_split isNameChar buffer
  simp only [guacdParseName] at h
  split at h
  next => cases h
  next hlimit =>
    cases h
    exact ⟨⟨_,hne,fun c hc => mem_takeWhile_imp hc,Nat.not_lt.mp hlimit⟩,rest,hsplit,
      rfl,hstops⟩

/-- There is no name where other characters are. -/
theorem guacdParseName_stops (h : Stops isNameChar buffer) : guacdParseName buffer=.ok [] := by
  have hnone := takeWhile_stops (forall_mem_nil _) h
  rw [nil_append] at hnone
  rw [guacdParseName,hnone]
  rfl

/-- Where no name is read there is none. -/
theorem stops_of_guacdParseName (h : guacdParseName buffer=.ok []) : Stops isNameChar buffer := by
  obtain ⟨rest,hsplit,hstops⟩ := takeWhile_split isNameChar buffer
  simp only [guacdParseName] at h
  split at h
  next => cases h
  next =>
    injection h with hnil
    rw [hnil,nil_append] at hsplit
    rwa [hsplit]

/-- One character of a quoted value is read where more follow. -/
theorem readQuoted_cons (escaped : Bool) (charsRead : ℕ) (value : List UInt8) (c : UInt8)
    (hne : rest≠[]) :
    readQuoted escaped charsRead value (c::rest)=
      if !escaped && (c == quote || isEol c) then .ok (c::rest,charsRead,value)
      else if guacdConfMaxValueLength<charsRead+1 then
        .error ⟨"Values can be no more than 8191 characters long", charsRead+1⟩
      else if !escaped && c == backslash then readQuoted true (charsRead+1) value rest
      else readQuoted false (charsRead+1) (value++[c]) rest := by
  cases rest with
  | nil => exact absurd rfl hne
  | cons d rest => rw [readQuoted]

/-- A quoted value is read up to the closing quote, if something follows it. -/
theorem readQuoted_append (chars : List QuotedChar) {charsRead : ℕ} {tail : List UInt8}
    (htail : tail≠[]) (hlimit : charsRead+(quotedBytes chars).length≤guacdConfMaxValueLength)
    (value : List UInt8) :
    readQuoted false charsRead value (quotedBytes chars++quote::tail)=
      .ok (quote::tail,charsRead+(quotedBytes chars).length,value++chars.map QuotedChar.char) := by
  induction chars generalizing charsRead value with
  | nil =>
    rw [quotedBytes,flatMap_nil,nil_append,readQuoted_cons _ _ _ _ htail]
    simp
  | cons char chars ih =>
    have hmore : quotedBytes chars++quote::tail≠[] :=
      append_ne_nil_of_right_ne_nil _ (cons_ne_nil _ _)
    have hbytes : quotedBytes (char::chars)=char.bytes++quotedBytes chars := flatMap_cons
    rw [hbytes,length_append] at hlimit
    rw [hbytes,append_assoc,length_append,map_cons]
    cases char with
    | plain c hc =>
      simp only [QuotedChar.bytes,length_singleton] at hlimit
      rw [QuotedChar.bytes,singleton_append,readQuoted_cons _ _ _ _ hmore,
        if_neg (by simp [hc]),if_neg (by omega),if_neg (by simp [hc]),ih (by omega)]
      simp [QuotedChar.char,Nat.add_assoc]
    | escaped c =>
      simp only [QuotedChar.bytes,length_cons,length_nil] at hlimit
      rw [QuotedChar.bytes,cons_append,singleton_append,
        readQuoted_cons _ _ _ _ (cons_ne_nil _ _),if_neg (by simp [backslash,quote,isEol]),
        if_neg (by omega),if_pos (by simp),readQuoted_cons _ _ _ _ hmore,if_neg (by simp),
        if_neg (by omega),if_neg (by simp),ih (by omega)]
      simp [QuotedChar.char,Nat.add_assoc]

/-- Every character of a quoted value is counted. -/
theorem readQuoted_length {escaped : Bool} {charsRead n : ℕ} {value tail : List UInt8}
    (h : readQuoted escaped charsRead value buffer=.ok (tail,n,text)) :
    n+tail.length=charsRead+buffer.length := by
  fun_induction readQuoted escaped charsRead value buffer with
  | case1 => cases h; rfl
  | case2 => cases h
  | case3 escaped charsRead value b d rest hstop hroom hescape ih =>
    rw [ih h,length_cons,length_cons,length_cons]
    omega
  | case4 escaped charsRead value b d rest hstop hroom hplain ih =>
    rw [ih h,length_cons,length_cons,length_cons]
    omega
  | case5 => cases h; rfl

variable {c : UInt8}

/-- What is read of a quoted value where reading does not stop for want of characters. A
character that is escaped still has its backslash before it. -/
theorem readQuoted_split {escaped : Bool} {charsRead n : ℕ} {value : List UInt8} {tail : List UInt8}
    (htail : tail≠[]) (hlimit : charsRead≤guacdConfMaxValueLength)
    (h : readQuoted escaped charsRead value buffer=.ok (c::tail,n,text)) :
    n≤guacdConfMaxValueLength ∧ ∃ chars,
      (if escaped then backslash::buffer else buffer)=quotedBytes chars++c::tail ∧
      text=value++chars.map QuotedChar.char := by
  fun_induction readQuoted escaped charsRead value buffer with
  | case1 escaped charsRead value b d rest hstop =>
    cases h
    cases escaped with
    | true => simp at hstop
    | false => exact ⟨hlimit,[],rfl,(append_nil _).symm⟩
  | case2 => cases h
  | case3 escaped charsRead value b d rest hstop hroom hescape ih =>
    obtain ⟨hn,chars,hsplit,htext⟩ := ih (Nat.not_lt.mp hroom) h
    simp only [Bool.and_eq_true,Bool.not_eq_true',beq_iff_eq] at hescape
    obtain ⟨rfl,rfl⟩ := hescape
    exact ⟨hn,chars,hsplit,htext⟩
  | case4 escaped charsRead value b d rest hstop hroom hplain ih =>
    obtain ⟨hn,chars,hsplit,htext⟩ := ih (Nat.not_lt.mp hroom) h
    have htext' : text=value++b::chars.map QuotedChar.char := by
      rw [htext,append_assoc,singleton_append]
    rw [if_neg Bool.false_ne_true] at hsplit
    cases escaped with
    | true =>
      refine ⟨hn,.escaped b::chars,?_,htext'⟩
      rw [if_pos rfl,hsplit]
      rfl
    | false =>
      simp only [Bool.not_false,Bool.true_and,Bool.or_eq_true,beq_iff_eq,not_or,
        Bool.not_eq_true] at hstop hplain
      refine ⟨hn,.plain b ⟨hstop.1,hplain,hstop.2⟩::chars,?_,htext'⟩
      rw [if_neg Bool.false_ne_true,hsplit]
      rfl
  | case5 escaped charsRead value buffer hshort =>
    cases h
    cases tail with
    | nil => exact absurd rfl htail
    | cons d tail => exact absurd rfl (hshort c d tail)

/-- A word is a value of the grammar of the functions. -/
theorem plainValue_iff :
    implementedGrammar.plainValue chars ↔ chars≠[] ∧ ∀ c∈chars, isValueChar c := by
  simp [implementedGrammar]

/-- A value between quotes is read if something follows it. -/
theorem guacdParseQuotedValue_append {chars : List QuotedChar}
    (limit : (quotedBytes chars).length<guacdConfMaxValueLength) (hne : rest≠[]) :
    guacdParseQuotedValue (quote::(quotedBytes chars++quote::rest))=
      .ok (1+(quotedBytes chars).length+1,chars.map QuotedChar.char) := by
  have hread := readQuoted_append chars hne (Nat.one_add_le_iff.mpr limit) []
  rw [guacdParseQuotedValue,List.head?_cons,if_pos rfl,drop_one,tail_cons,hread]
  rfl

/-- A value is read up to what follows it. -/
theorem readValue_append (value : Value implementedGrammar) (hne : rest≠[])
    (hstops : Stops isValueChar rest) :
    readValue (value.bytes++rest)=.ok (value.bytes.length,value.text) := by
  cases value with
  | plain chars h limit =>
    obtain ⟨hchars,hall⟩ := plainValue_iff.mp h
    obtain ⟨c,chars,rfl⟩ := exists_cons_of_ne_nil hchars
    have hfirst : (c::chars++rest).head? ≠ some quote := by
      intro hquote
      injection hquote with hquote
      exact absurd (hall c mem_cons_self) (by rw [hquote]; decide)
    rw [readValue,guacdParseQuotedValue,Value.bytes,if_neg hfirst]
    simp only [guacdParseValue,takeWhile_stops hall hstops,if_neg (Nat.not_lt.mpr limit),
      if_neg hchars,Value.text]
  | quoted chars limit =>
    have hlength : (quote::quotedBytes chars++[quote]).length=1+(quotedBytes chars).length+1 := by
      simp only [cons_append,length_cons,length_append,length_nil]
      omega
    rw [Value.bytes,Value.text,hlength,append_assoc,cons_append,
      singleton_append,readValue,guacdParseQuotedValue_append limit hne]

/-- The value between quotes that is read where something follows it. -/
theorem guacdParseQuotedValue_split {n : ℕ} (h : guacdParseQuotedValue buffer=.ok (n+1,text))
    (hn : n+1<buffer.length) :
    ∃ (value : Value implementedGrammar) (rest : List UInt8), buffer=value.bytes++rest ∧
      n+1=value.bytes.length ∧ text=value.text := by
  cases buffer with
  | nil => contradiction
  | cons c buffer =>
    rw [guacdParseQuotedValue,drop_one,tail_cons] at h
    by_cases hquote : (c::buffer).head? = some quote
    · rw [if_pos hquote] at h
      injection hquote with hquote
      subst hquote
      cases hread : readQuoted false 1 [] buffer with
      | error e =>
        rw [hread] at h
        cases h
      | ok result =>
        obtain ⟨tail,charsRead,value⟩ := result
        simp only [hread] at h
        by_cases hclose : tail.head? = some quote
        · rw [if_pos hclose] at h
          cases h
          obtain ⟨rest,rfl⟩ := List.head?_eq_some_iff.mp hclose
          have hlength := readQuoted_length hread
          rw [length_cons] at hlength hn
          have hrest : rest≠[] := by
            intro hnil
            rw [hnil,length_nil] at hlength
            omega
          obtain ⟨hlimit,chars,hsplit,htext⟩ := readQuoted_split hrest (by decide) hread
          rw [if_neg Bool.false_ne_true] at hsplit
          rw [hsplit,length_append,length_cons] at hlength
          refine ⟨.quoted chars (by omega),rest,?_,?_,htext⟩
          · rw [hsplit,Value.bytes,append_assoc,singleton_append,cons_append]
          · rw [Value.bytes,length_append,length_cons,length_singleton]
            omega
        · rw [if_neg hclose] at h
          cases h
    · rw [if_neg hquote] at h
      cases h

/-- A value without quotes that is read. -/
theorem guacdParseValue_split (h : guacdParseValue buffer=.ok text) :
    ∃ (value : Value implementedGrammar) (rest : List UInt8), buffer=value.bytes++rest ∧
      text.length=value.bytes.length ∧ text=value.text := by
  obtain ⟨rest,hsplit,hstops⟩ := takeWhile_split isValueChar buffer
  simp only [guacdParseValue] at h
  split at h
  next => cases h
  next hlimit =>
    split at h
    next => cases h
    next hne =>
      cases h
      have hword := plainValue_iff.mpr ⟨hne,fun c hc => mem_takeWhile_imp hc⟩
      exact ⟨.plain _ hword (Nat.not_lt.mp hlimit),rest,hsplit,rfl,rfl⟩

/-- The value that is read where something follows it. -/
theorem readValue_split {n : ℕ} (h : readValue buffer=.ok (n,text)) (hn : n<buffer.length) :
    ∃ (value : Value implementedGrammar) (rest : List UInt8), buffer=value.bytes++rest ∧
      n=value.bytes.length ∧ text=value.text := by
  rw [readValue] at h
  split at h
  next => cases h
  next =>
    split at h
    next => cases h
    next hvalue =>
      cases h
      exact guacdParseValue_split hvalue
  next hquoted =>
    cases h
    exact guacdParseQuotedValue_split hquoted hn

/-- Reading stops at the first character that is not read. -/
theorem stops_cons {p : UInt8→Bool} (h : p c=false) (rest : List UInt8) :
    Stops p (c::rest) := by
  intro d hd
  injection hd with hd
  rwa [←hd]

/-- The characters that may follow a declaration. -/
theorem endChar_iff : endChar c ↔ c=0x20 ∨ c=0x09 ∨ c=0x23 ∨ c=0x0D ∨ c=0x0A := by
  simp only [endChar,isBlank,isEol,hashSign,Bool.or_eq_true,beq_iff_eq,or_assoc]

/-- They do not belong to a name, nor to a value, nor do they begin a section. -/
theorem not_of_endChar (h : endChar c) :
    isNameChar c=false ∧ isValueChar c=false ∧ c≠openBracket := by
  rcases endChar_iff.mp h with rfl | rfl | rfl | rfl | rfl <;> decide

/-- A character of a name is no whitespace and begins no section. -/
theorem not_of_isNameChar (h : isNameChar c) :
    isBlank c=false ∧ c≠openBracket ∧ endChar c=false := by
  have hend : endChar c=false := by
    by_contra hend
    rw [(not_of_endChar (by simpa using hend)).1] at h
    cases h
  refine ⟨?_,?_,hend⟩
  · simp only [endChar,Bool.or_eq_false_iff] at hend
    exact hend.1.1
  · rintro rfl
    revert h
    decide

/-- A blank does not belong to a name. -/
theorem not_isNameChar_of_isBlank (h : isBlank c) : isNameChar c=false :=
  (not_of_endChar (by simp only [endChar,h,Bool.true_or])).1

/-- A name has a first character. -/
theorem Name.head (name : Name implementedGrammar) :
    ∃ c tail, name.chars=c::tail ∧ isNameChar c := by
  obtain ⟨c,tail,h⟩ := exists_cons_of_ne_nil name.nonempty
  exact ⟨c,tail,h,name.reads c (h ▸ mem_cons_self)⟩

/-- A value does not begin with whitespace. -/
theorem Value.stops (value : Value implementedGrammar) (rest : List UInt8) :
    Stops isBlank (value.bytes++rest) := by
  cases value with
  | plain chars h limit =>
    obtain ⟨hne,hall⟩ := plainValue_iff.mp h
    obtain ⟨c,chars,rfl⟩ := exists_cons_of_ne_nil hne
    have hc := hall c mem_cons_self
    simp only [isValueChar,Bool.not_eq_true',Bool.or_eq_false_iff] at hc
    exact stops_cons hc.2 _
  | quoted chars limit => exact stops_cons (by decide) _

/-- The end of a line begins with a character that may follow a declaration. -/
theorem LineEnd.head (ending : LineEnd) : ∃ c rest, ending.bytes=c::rest ∧ endChar c := by
  obtain ⟨⟨gap,hgap⟩,comment,eol,heol⟩ := ending
  cases gap with
  | cons c gap =>
    have hc := hgap c mem_cons_self
    exact ⟨c,_,rfl,by simp only [endChar,hc,Bool.true_or]⟩
  | nil =>
    cases comment with
    | none => exact ⟨eol,[],rfl,by simp only [endChar,heol,Bool.or_true]⟩
    | some text => exact ⟨hashSign,_,rfl,by decide⟩

end GuacServer.ConfGrammar
