import GuacServer.ConfGrammar

/-!
# Lines of guacd.conf

The parser takes the lines of its grammar, and a line may be tried any number of
times before it is complete: the section that an attempt has set and the
parameter that it has given to the callback are those of the line itself.
-/

namespace GuacServer.ConfLines

open ConfGrammar ConfParse LineReaders List

variable {δ : Type} {callback : ParamCallback δ}

/-- Only the last value of a parameter matters. -/
structure Overwrites (callback : ParamCallback δ) : Prop where
  again : ∀ {sect name value data data'}, callback sect name value data=.ok data' →
    ∀ value', callback sect name value' data' = callback sect name value' data

/-- The name of a parameter ends before whitespace and the equals sign. -/
theorem stops_assignment (before : Blanks) (rest : List UInt8) :
    Stops isNameChar (before.1++equals::rest) := by
  obtain ⟨chars,hblank⟩ := before
  cases chars with
  | nil => exact stops_cons (by decide) rest
  | cons c chars => exact stops_cons (not_isNameChar_of_isBlank (hblank c mem_cons_self)) _

variable {buffer rest : List UInt8} {s s' : ConfState δ}
variable {declaration : Declaration implementedGrammar} {line : Line implementedGrammar}

variable {n : ℕ}

/-- What readAssignment needs: an equals sign between whitespace, and a value. -/
theorem readAssignment_split {text : List UInt8} (h : readAssignment buffer=.ok (n,text)) :
    ∃ (before after : Blanks) (rest : List UInt8) (m : ℕ),
      buffer=before.1++equals::(after.1++rest) ∧ readValue rest=.ok (m,text) ∧
      n=before.1.length+1+after.1.length+m := by
  obtain ⟨before,rest,rfl,hbefore,-⟩ := guacdParseWhitespace_split buffer
  simp only [readAssignment,hbefore,drop_left,drop_length_add_append,Nat.add_assoc] at h
  split at h
  next hequals =>
    obtain ⟨rest,rfl⟩ := List.head?_eq_some_iff.mp hequals
    obtain ⟨after,rest,rfl,hafter,-⟩ := guacdParseWhitespace_split rest
    rw [drop_one,tail_cons,hafter,Nat.add_comm 1,drop_succ_cons,drop_left] at h
    cases hvalue : readValue rest with
    | error e =>
      rw [hvalue] at h
      cases h
    | ok result =>
      rw [hvalue] at h
      cases h
      refine ⟨before,after,rest,result.1,rfl,hvalue,?_⟩
      omega
  next => cases h

/-- An equals sign between whitespace and a value are read. -/
theorem readAssignment_append (before after : Blanks) (value : Value implementedGrammar)
    (hne : rest≠[]) (hstops : Stops isValueChar rest) :
    readAssignment (before.1++equals::(after.1++(value.bytes++rest)))=
      .ok (before.1.length+1+after.1.length+value.bytes.length,value.text) := by
  have hbefore : guacdParseWhitespace
      (before.1++equals::(after.1++(value.bytes++rest)))=before.1.length :=
    guacdParseWhitespace_append before (stops_cons (by decide) _)
  have hafter : guacdParseWhitespace (after.1++(value.bytes++rest))=after.1.length :=
    guacdParseWhitespace_append after (value.stops rest)
  simp only [readAssignment,hbefore,drop_left,drop_length_add_append,Nat.add_assoc,
    List.head?_cons,if_true,drop_one,tail_cons,hafter]
  rw [Nat.add_comm 1 after.1.length,drop_succ_cons,drop_left,
    readValue_append value hne hstops]

/-- What guacd_parse_declaration can do. The section is set by what begins with a bracket, even
if it is no section name, and only a name with an equals sign is given to the callback. -/
inductive Attempt (callback : ParamCallback δ) (buffer : List UInt8) (s : ConfState δ) :
    Except ConfError ℕ×ConfState δ→Prop
  | null (hname : Stops isNameChar buffer) (hsect : buffer.head? ≠ some openBracket) :
      Attempt callback buffer s (.ok 0,s)
  | failed (e : ConfError) : Attempt callback buffer s (.error e,s)
  | unclosed (e : ConfError) (sect : List UInt8) {rest : List UInt8}
      (h : buffer=openBracket::rest) : Attempt callback buffer s (.error e,⟨sect,s.data⟩)
  | sectionName (name : Name implementedGrammar) {rest : List UInt8}
      (h : buffer=openBracket::(name.chars++closeBracket::rest)) :
      Attempt callback buffer s (.ok (1+name.chars.length+1),⟨name.chars,s.data⟩)
  | parameterValue (name : Name implementedGrammar) (before after : Blanks) {rest : List UInt8}
      {m : ℕ} {text : List UInt8} {data : δ}
      (h : buffer=name.chars++(before.1++equals::(after.1++rest)))
      (hsect : s.currentSection≠[]) (hvalue : readValue rest=.ok (m,text))
      (hdata : callback s.currentSection name.chars text s.data=.ok data) :
      Attempt callback buffer s
        (.ok (name.chars.length+(before.1.length+1+after.1.length+m)),⟨s.currentSection,data⟩)

/-- What guacd_parse_parameter does where there is no section name. -/
theorem guacdParseParameter_attempt (s : ConfState δ) (hbracket : buffer.head? ≠ some openBracket) :
    Attempt callback buffer s (guacdParseParameter callback buffer s) := by
  rw [guacdParseParameter]
  split
  next e _ => exact .failed e
  next chars hchars =>
    split_ifs with hempty hsect
    · rw [hempty] at hchars
      exact .null (stops_of_guacdParseName hchars) hbracket
    · exact .failed _
    · obtain ⟨name,rest,rfl,rfl,-⟩ := guacdParseName_split hchars hempty
      rw [drop_left]
      split
      next e _ => exact .failed _
      next m text hassignment =>
        obtain ⟨before,after,tail,k,rfl,hvalue,rfl⟩ := readAssignment_split hassignment
        split
        next message _ => exact .failed _
        next data hdata => exact .parameterValue name before after rfl hsect hvalue hdata

/-- What guacd_parse_declaration does. -/
theorem guacdParseDeclaration_attempt (callback : ParamCallback δ) (buffer : List UInt8)
    (s : ConfState δ) :
    Attempt callback buffer s (guacdParseDeclaration callback buffer s) := by
  by_cases hbracket : buffer.head? = some openBracket
  · obtain ⟨rest,rfl⟩ := List.head?_eq_some_iff.mp hbracket
    simp only [guacdParseDeclaration,guacdParseSection,if_pos hbracket,drop_one,tail_cons]
    cases hname : guacdParseName rest with
    | error e => exact .failed _
    | ok chars =>
      by_cases hempty : chars=[]
      · simp only [if_pos hempty]
        exact .failed _
      · obtain ⟨name,tail,rfl,rfl,-⟩ := guacdParseName_split hname hempty
        simp only [if_neg hempty,Nat.add_comm 1,drop_succ_cons,drop_left]
        by_cases hclose : tail.head? = some closeBracket
        · obtain ⟨tail,rfl⟩ := List.head?_eq_some_iff.mp hclose
          simp only [if_pos hclose]
          exact Nat.add_comm 1 _ ▸ .sectionName name rfl
        · simp only [if_neg hclose]
          exact .unclosed _ _ rfl
  · rw [guacdParseDeclaration,guacdParseSection,if_neg hbracket]
    exact guacdParseParameter_attempt s hbracket

/-- Where something follows it, what is parsed is a declaration with its meaning. -/
theorem Attempt.sound (h : Attempt callback buffer s (.ok n,s')) (hn : n<buffer.length) :
    ∃ (declaration : Declaration implementedGrammar) (rest : List UInt8),
      buffer=declaration.bytes++rest ∧ n=declaration.bytes.length ∧
      declaration.apply callback s=some s' := by
  cases h with
  | null hname hsect => exact ⟨.null,buffer,rfl,rfl,rfl⟩
  | @sectionName name rest h =>
    refine ⟨.sectionName name,rest,?_,?_,rfl⟩
    · simp only [h,Declaration.bytes,cons_append,append_assoc,nil_append]
    · rw [Declaration.bytes,length_append,length_cons,length_singleton]
      omega
  | @parameterValue name before after rest m text data h hsect hvalue hdata =>
    have hm : m<rest.length := by
      rw [h] at hn
      simp only [length_append,length_cons] at hn
      omega
    obtain ⟨value,rest,rfl,rfl,rfl⟩ := readValue_split hvalue hm
    refine ⟨.parameterValue name before after value,rest,?_,?_,?_⟩
    · simp only [h,Declaration.bytes,append_assoc,cons_append]
    · simp only [Declaration.bytes,length_append,length_cons]
      omega
    · rw [Declaration.apply,if_neg hsect,hdata]

variable {c : UInt8}

/-- What may follow a declaration ends its name. -/
theorem stops_isNameChar (h : endChar c) (rest : List UInt8) :
    Stops isNameChar (c::rest) :=
  stops_cons (not_of_endChar h).1 rest

/-- A declaration of the grammar is parsed up to what follows it. -/
theorem guacdParseDeclaration_append (h : declaration.apply callback s=some s') (hend : endChar c)
    (rest : List UInt8) :
    guacdParseDeclaration callback (declaration.bytes++c::rest) s=
      (.ok declaration.bytes.length,s') := by
  obtain ⟨-,hvalue,hbracket⟩ := not_of_endChar hend
  cases declaration with
  | null =>
    have hhead : (c::rest).head? ≠ some openBracket := fun heq => hbracket (Option.some.inj heq)
    cases h
    rw [Declaration.bytes,nil_append,guacdParseDeclaration,guacdParseSection,if_neg hhead]
    simp only [guacdParseParameter,guacdParseName_stops (stops_isNameChar hend rest),if_true]
    rfl
  | sectionName name =>
    cases h
    have hbytes : (Declaration.sectionName name).bytes++c::rest=
        openBracket::(name.chars++closeBracket::(c::rest)) := by
      simp only [Declaration.bytes,cons_append,append_assoc,nil_append]
    have hname : guacdParseName (name.chars++closeBracket::(c::rest))=.ok name.chars :=
      guacdParseName_append name (stops_cons (by decide) _)
    have hlength : (Declaration.sectionName name).bytes.length=name.chars.length+1+1 := by
      simp only [Declaration.bytes,length_cons,length_append,length_nil]
    rw [hbytes,hlength,guacdParseDeclaration,guacdParseSection]
    simp only [List.head?_cons,if_true,Nat.add_comm 1,drop_succ_cons,drop_zero,hname,
      if_neg name.nonempty,drop_left]
  | parameterValue name before after value =>
    obtain ⟨first,tail,hchars,hfirst⟩ := name.head
    have hbytes : (Declaration.parameterValue name before after value).bytes++c::rest=
        name.chars++(before.1++equals::(after.1++(value.bytes++c::rest))) := by
      simp only [Declaration.bytes,cons_append,append_assoc]
    have hhead : (name.chars++(before.1++equals::(after.1++
        (value.bytes++c::rest)))).head? ≠ some openBracket := by
      rw [hchars]
      intro heq
      exact (not_of_isNameChar hfirst).2.1 (Option.some.inj heq)
    have hassignment := readAssignment_append before after value (cons_ne_nil c rest)
      (stops_cons hvalue rest)
    rw [hbytes,guacdParseDeclaration,guacdParseSection,if_neg hhead]
    simp only [Declaration.apply] at h
    split at h
    next => cases h
    next hsect =>
      split at h
      next => cases h
      next data hdata =>
        cases h
        simp only [guacdParseParameter,guacdParseName_append name (stops_assignment before _),
          if_neg name.nonempty,if_neg hsect,drop_left,hassignment,hdata,
          Declaration.bytes,length_append,length_cons]
        congr 2
        omega

/-- What begins with a bracket is a section name. -/
theorem exists_sectionName {tail : List UInt8} (hend : endChar c)
    (h : openBracket::tail=declaration.bytes++c::rest) :
    ∃ name, declaration=.sectionName name := by
  cases declaration with
  | null =>
    injection h with hc
    exact absurd hc.symm (not_of_endChar hend).2.2
  | sectionName name => exact ⟨name,rfl⟩
  | parameterValue name before after value =>
    obtain ⟨first,chars,hchars,hfirst⟩ := name.head
    rw [Declaration.bytes,hchars] at h
    injection h with hc
    exact absurd hc.symm (not_of_isNameChar hfirst).2.1

/-- What begins with a name and an equals sign is a parameter of this name. -/
theorem exists_parameterValue {name : Name implementedGrammar} {before : Blanks} {tail : List UInt8}
    (hend : endChar c)
    (h : name.chars++(before.1++equals::tail)=declaration.bytes++c::rest) :
    ∃ name' before' after value, declaration=.parameterValue name' before' after value ∧
      name'.chars=name.chars := by
  obtain ⟨first,chars,hchars,hfirst⟩ := name.head
  cases declaration with
  | null =>
    rw [hchars] at h
    injection h with hc
    rw [hc,(not_of_endChar hend).1] at hfirst
    cases hfirst
  | sectionName name =>
    rw [hchars] at h
    injection h with hc
    exact absurd hc (not_of_isNameChar hfirst).2.1
  | parameterValue name' before' after value =>
    refine ⟨name',before',after,value,rfl,?_⟩
    have hread := congrArg (List.takeWhile isNameChar) h
    rw [Declaration.bytes,append_assoc,append_assoc,cons_append,
      takeWhile_stops name.reads (stops_assignment before _),
      takeWhile_stops name'.reads (stops_assignment before' _)] at hread
    exact hread.symm

/-- The declaration that an attempt was made on means the same after it. -/
theorem Attempt.apply_eq (hcallback : Overwrites callback) {result : Except ConfError ℕ}
    (h : Attempt callback buffer s (result,s')) {more : List UInt8} (hend : endChar c)
    (hbytes : buffer++more=declaration.bytes++c::rest) :
    declaration.apply callback s' = declaration.apply callback s := by
  cases h with
  | null => rfl
  | failed => rfl
  | unclosed e sect h =>
    rw [h,cons_append] at hbytes
    obtain ⟨name,rfl⟩ := exists_sectionName hend hbytes
    rfl
  | sectionName name h =>
    rw [h,cons_append] at hbytes
    obtain ⟨name,rfl⟩ := exists_sectionName hend hbytes
    rfl
  | @parameterValue name before after tail m text data h hsect hvalue hdata =>
    rw [h,append_assoc,append_assoc,cons_append] at hbytes
    obtain ⟨name',before',after',value,rfl,hname⟩ := exists_parameterValue hend hbytes
    simp only [Declaration.apply,hname,hcallback.again hdata value.text]

/-- Where there is nothing, an attempt changes nothing. -/
theorem Attempt.nil {result : Except ConfError ℕ×ConfState δ} (h : Attempt callback [] s result) :
    result.2=s := by
  cases h with
  | null => rfl
  | failed => rfl
  | unclosed e sect h => cases h
  | sectionName name h => cases h
  | parameterValue name before after h =>
    exact absurd (append_eq_nil_iff.mp h.symm).1 name.nonempty

/-- What is read of a comment is followed by the end of the line. -/
theorem guacdParseComment_split (h : guacdParseComment buffer=.ok n) :
    ∃ (comment : Option Comment) (rest : List UInt8), buffer=commentBytes comment++rest ∧
      n=(commentBytes comment).length := by
  rw [guacdParseComment] at h
  split at h
  next hhash =>
    obtain ⟨tail,rfl⟩ := List.head?_eq_some_iff.mp hhash
    obtain ⟨rest,hsplit,-⟩ := takeWhile_split (fun c => !isEol c) tail
    simp only [drop_one,tail_cons] at h
    split at h
    next =>
      cases h
      have htext : ∀ c∈tail.takeWhile (fun c => !isEol c), (!isEol c)=true :=
        fun _ => mem_takeWhile_imp (p := fun c => !isEol c)
      refine ⟨some ⟨_,htext⟩,rest,?_,?_⟩
      · rw [commentBytes,cons_append,←hsplit]
      · rw [commentBytes,length_cons,Nat.add_comm]
    next => cases h
  next =>
    cases h
    exact ⟨none,buffer,rfl,rfl⟩

/-- A comment is read up to the end of the line. -/
theorem guacdParseComment_append (comment : Option Comment) {eol : UInt8} (heol : isEol eol)
    (rest : List UInt8) :
    guacdParseComment (commentBytes comment++eol::rest)=.ok (commentBytes comment).length := by
  cases comment with
  | none =>
    have hhash : (eol::rest).head? ≠ some hashSign := by
      intro heq
      rw [Option.some.inj heq] at heol
      revert heol
      decide
    rw [commentBytes,nil_append,guacdParseComment,if_neg hhash,length_nil]
  | some text =>
    have hstops : Stops (fun c => !isEol c) (eol::rest) :=
      stops_cons (by simp only [heol,Bool.not_true]) rest
    simp only [commentBytes,guacdParseComment,cons_append,List.head?_cons,if_true,
      drop_one,tail_cons,takeWhile_stops text.2 hstops,length_cons,
      length_append]
    rw [if_pos (by omega),Nat.add_comm]

/-- What is read of the end of a line. -/
theorem guacdParseLineEnd_split (h : guacdParseLineEnd buffer=.ok n) :
    ∃ (ending : LineEnd) (rest : List UInt8), buffer=ending.bytes++rest ∧
      n=ending.bytes.length := by
  obtain ⟨gap,tail,rfl,hgap,-⟩ := guacdParseWhitespace_split buffer
  simp only [guacdParseLineEnd,hgap,drop_left,drop_length_add_append] at h
  split at h
  next => cases h
  next m hcomment =>
    obtain ⟨comment,rest,rfl,rfl⟩ := guacdParseComment_split hcomment
    rw [drop_left] at h
    split at h
    next heol =>
      cases h
      rw [Option.any_eq_true] at heol
      obtain ⟨eol,hhead,heol⟩ := heol
      obtain ⟨rest,rfl⟩ := List.head?_eq_some_iff.mp hhead
      refine ⟨⟨gap,comment,eol,heol⟩,rest,?_,?_⟩
      · simp only [LineEnd.bytes,append_assoc,cons_append,nil_append]
      · simp only [LineEnd.bytes,length_append,length_singleton,Nat.add_assoc]
    next => cases h

/-- Neither a comment nor the end of a line begins with whitespace. -/
theorem stops_commentBytes (comment : Option Comment) {eol : UInt8} (heol : isEol eol)
    (rest : List UInt8) : Stops isBlank (commentBytes comment++eol::rest) := by
  cases comment with
  | none =>
    refine stops_cons ?_ rest
    simp only [isEol,Bool.or_eq_true,beq_iff_eq] at heol
    rcases heol with rfl | rfl <;> decide
  | some text => exact stops_cons (by decide) _

/-- The end of a line is read. -/
theorem guacdParseLineEnd_append (ending : LineEnd) (rest : List UInt8) :
    guacdParseLineEnd (ending.bytes++rest)=.ok ending.bytes.length := by
  obtain ⟨gap,comment,eol,heol⟩ := ending
  have hstops := stops_commentBytes comment heol rest
  have hbytes : LineEnd.bytes ⟨gap,comment,eol,heol⟩++rest=
      gap.1++(commentBytes comment++eol::rest) := by
    simp only [LineEnd.bytes,append_assoc,cons_append,nil_append]
  rw [hbytes,guacdParseLineEnd]
  simp only [guacdParseWhitespace_append gap hstops,drop_left,drop_length_add_append,
    guacdParseComment_append comment heol rest,List.head?_cons,Option.any_some,heol,if_true,
    LineEnd.bytes,length_append,length_singleton,Nat.add_assoc]

/-- What guacd_parse_line has read is a line, in the state that the line leads to. Its indent is
all whitespace that it begins with. -/
theorem guacdParseLine_split (h : guacdParseLine callback buffer s=(.ok n,s')) :
    ∃ (line : Line implementedGrammar) (rest : List UInt8), buffer=line.bytes++rest ∧
      n=line.bytes.length ∧ line.declaration.apply callback s=some s' ∧
      Stops isBlank (line.declaration.bytes++(line.ending.bytes++rest)) := by
  obtain ⟨indent,tail,rfl,hindent,hstops⟩ := guacdParseWhitespace_split buffer
  have hattempt := guacdParseDeclaration_attempt callback tail s
  simp only [guacdParseLine,hindent,drop_left,drop_length_add_append] at h
  split at h
  next => cases h
  next m t hdeclaration =>
    rw [hdeclaration] at hattempt
    split at h
    next => cases h
    next k hending =>
      cases h
      obtain ⟨ending,rest,hrest,rfl⟩ := guacdParseLineEnd_split hending
      obtain ⟨c,chars,hchars,-⟩ := ending.head
      have hm : m<tail.length := by
        have hlength := congrArg List.length hrest
        rw [length_drop,hchars,length_append,length_cons] at hlength
        omega
      obtain ⟨declaration,after,rfl,rfl,happly⟩ := hattempt.sound hm
      rw [drop_left] at hrest
      subst hrest
      refine ⟨⟨indent,declaration,ending⟩,rest,?_,?_,happly,hstops⟩
      · simp only [Line.bytes,append_assoc]
      · simp only [Line.bytes,length_append,Nat.add_assoc]

/-- A line whose indent is all whitespace that it begins with is read. -/
theorem guacdParseLine_append_of_stops (h : line.declaration.apply callback s=some s')
    (hstops : Stops isBlank (line.declaration.bytes++(line.ending.bytes++rest))) :
    guacdParseLine callback (line.bytes++rest) s=(.ok line.bytes.length,s') := by
  obtain ⟨c,chars,hchars,hend⟩ := line.ending.head
  have hdeclaration : guacdParseDeclaration callback
      (line.declaration.bytes++(line.ending.bytes++rest)) s=
        (.ok line.declaration.bytes.length,s') := by
    rw [hchars,cons_append]
    exact guacdParseDeclaration_append h hend _
  simp only [guacdParseLine,Line.bytes,append_assoc,
    guacdParseWhitespace_append line.indent hstops,drop_left,drop_length_add_append,
    hdeclaration,guacdParseLineEnd_append line.ending rest,length_append,Nat.add_assoc]

/-- Whitespace before nothing may as well stand before the end of the line. -/
theorem Line.exists_stops (line : Line implementedGrammar) (rest : List UInt8) :
    ∃ line' : Line implementedGrammar, line'.bytes=line.bytes ∧ line'.declaration=line.declaration ∧
      Stops isBlank (line'.declaration.bytes++(line'.ending.bytes++rest)) := by
  obtain ⟨indent,declaration,gap,comment,eol,heol⟩ := line
  cases declaration with
  | null =>
    refine ⟨⟨⟨indent.1++gap.1,?_⟩,.null,⟨[],forall_mem_nil _⟩,comment,eol,heol⟩,?_,rfl,?_⟩
    · intro c hc
      exact (mem_append.mp hc).elim (indent.2 c) (gap.2 c)
    · simp only [Line.bytes,LineEnd.bytes,Declaration.bytes,append_assoc,nil_append]
    · simp only [LineEnd.bytes,Declaration.bytes,append_assoc,nil_append,cons_append]
      exact stops_commentBytes comment heol rest
  | sectionName name => exact ⟨_,rfl,rfl,stops_cons (by decide) _⟩
  | parameterValue name before after value =>
    obtain ⟨c,chars,hchars,hc⟩ := name.head
    refine ⟨_,rfl,rfl,?_⟩
    rw [Declaration.bytes,hchars]
    exact stops_cons (not_of_isNameChar hc).1 _

/-- Every line of the grammar is read. -/
theorem guacdParseLine_append (h : line.declaration.apply callback s=some s') (rest : List UInt8) :
    guacdParseLine callback (line.bytes++rest) s=(.ok line.bytes.length,s') := by
  obtain ⟨line',hbytes,hdeclaration,hstops⟩ := Line.exists_stops line rest
  rw [←hbytes]
  exact guacdParseLine_append_of_stops (hdeclaration ▸ h) hstops

/-- A line is not empty. -/
theorem line_ne_nil (line : Line implementedGrammar) : line.bytes≠[] := by
  obtain ⟨c,rest,h,-⟩ := line.ending.head
  rw [Line.bytes,h]
  exact append_ne_nil_of_right_ne_nil _
    (append_ne_nil_of_right_ne_nil _ (cons_ne_nil c rest))

/-- The parser takes the lines of the grammar that mean something, and nothing else. -/
theorem guacdParseConf_iff (hne : buffer≠[]) : guacdParseConf callback buffer s=(.ok n,s') ↔
      ∃ (line : Line implementedGrammar) (rest : List UInt8), buffer=line.bytes++rest ∧
        n=line.bytes.length ∧ line.declaration.apply callback s=some s' := by
  rw [guacdParseConf,if_neg hne]
  constructor
  · intro h
    obtain ⟨line,rest,hbuffer,hn,happly,-⟩ := guacdParseLine_split h
    exact ⟨line,rest,hbuffer,hn,happly⟩
  · rintro ⟨line,rest,rfl,rfl,happly⟩
    exact guacdParseLine_append happly rest

/-- The line that an attempt was made on means the same after it. -/
theorem guacdParseLine_apply_eq (hcallback : Overwrites callback) {result : Except ConfError ℕ}
    (h : guacdParseLine callback buffer s=(result,s')) {more : List UInt8}
    (hbytes : buffer++more=line.bytes++rest)
    (hstops : Stops isBlank (line.declaration.bytes++(line.ending.bytes++rest))) :
    line.declaration.apply callback s' = line.declaration.apply callback s := by
  obtain ⟨indent,tail,rfl,hindent,htail⟩ := guacdParseWhitespace_split buffer
  have hattempt := guacdParseDeclaration_attempt callback tail s
  have hstate : (guacdParseDeclaration callback tail s).2=s' := by
    simp only [guacdParseLine,hindent,drop_left] at h
    split at h
    next hdeclaration =>
      rw [hdeclaration]
      exact congrArg Prod.snd h
    next hdeclaration =>
      rw [hdeclaration]
      split at h
      all_goals exact congrArg Prod.snd h
  cases tail with
  | nil =>
    rw [←hstate,hattempt.nil]
  | cons c tail =>
    have hmore : Stops isBlank (c::tail++more) := htail
    rw [Line.bytes,append_assoc,append_assoc,append_assoc] at hbytes
    have hindents := congrArg (List.takeWhile isBlank) hbytes
    rw [takeWhile_stops indent.2 hmore,takeWhile_stops line.indent.2 hstops] at hindents
    rw [hindents] at hbytes
    have hrest := append_cancel_left hbytes
    obtain ⟨d,chars,hchars,hend⟩ := line.ending.head
    rw [hchars] at hrest
    rw [←hstate]
    exact hattempt.apply_eq hcallback hend hrest

/-- A line is read in every state in which it means the same. -/
theorem guacdParseLine_congr {t : ConfState δ}
    (happly : ∀ (line : Line implementedGrammar) (rest : List UInt8),buffer=line.bytes++rest →
      Stops isBlank (line.declaration.bytes++(line.ending.bytes++rest)) →
      line.declaration.apply callback t=line.declaration.apply callback s)
    (h : guacdParseLine callback buffer s=(.ok n,s')) :
    guacdParseLine callback buffer t=(.ok n,s') := by
  obtain ⟨line,rest,hbytes,rfl,hmeaning,hstops⟩ := guacdParseLine_split h
  rw [←happly line rest hbytes hstops] at hmeaning
  rw [hbytes]
  exact guacdParseLine_append hmeaning rest

/-- Lines can be read through a buffer. -/
theorem guacdParseConf_resumable (hcallback : Overwrites callback) :
    Resumable (guacdParseConf callback) where
  nil := fun s => if_pos rfl
  bounds := by
    intro buffer s n s' hne h
    obtain ⟨line,rest,rfl,rfl,-⟩ := (guacdParseConf_iff hne).mp h
    refine ⟨length_pos_of_ne_nil (line_ne_nil line),?_⟩
    rw [length_append]
    omega
  extend := by
    intro buffer s n s' hne h more
    obtain ⟨line,rest,rfl,rfl,happly⟩ := (guacdParseConf_iff hne).mp h
    refine (guacdParseConf_iff (append_ne_nil_of_left_ne_nil hne more)).mpr
      ⟨line,rest++more,?_,rfl,happly⟩
    rw [append_assoc]
  restrict := by
    intro buffer more s n s' hne h hn
    obtain ⟨line,rest,hbuffer,rfl,happly⟩ :=
      (guacdParseConf_iff (append_ne_nil_of_left_ne_nil hne more)).mp h
    refine (guacdParseConf_iff hne).mpr ⟨line,buffer.drop line.bytes.length,?_,rfl,happly⟩
    have htake := congrArg (List.take line.bytes.length) hbuffer
    rw [take_append_of_le_length hn,take_left] at htake
    rw [←htake,length_take,Nat.min_eq_left hn,take_append_drop]
  retry := by
    intro buffer s e s' h more n s''
    by_cases hne : buffer=[]
    · rw [guacdParseConf,if_pos hne] at h
      cases h
    · rw [guacdParseConf,if_neg hne] at h
      have hmore : buffer++more≠[] := append_ne_nil_of_left_ne_nil hne more
      simp only [guacdParseConf,if_neg hmore]
      have hsame : ∀ (line : Line implementedGrammar) (rest : List UInt8),
          buffer++more=line.bytes++rest →
          Stops isBlank (line.declaration.bytes++(line.ending.bytes++rest)) →
          line.declaration.apply callback s' = line.declaration.apply callback s :=
        fun _ _ hbytes hstops => guacdParseLine_apply_eq hcallback h hbytes hstops
      exact ⟨guacdParseLine_congr fun line rest hbytes hstops =>
        (hsame line rest hbytes hstops).symm,guacdParseLine_congr hsame⟩

/-- What is read as lines consists of lines of the grammar that fit in the buffer, one after the
other. -/
theorem lines_iff {size : ℕ} {content : List UInt8} :
    Lines (guacdParseConf callback) size content s s' ↔
      ∃ lines : List (Line implementedGrammar), (∀ line∈lines, line.bytes.length ≤ size) ∧
        content=lines.flatMap Line.bytes ∧ applyLines callback lines s=some s' := by
  constructor
  · intro h
    induction h with
    | nil => exact ⟨[],forall_mem_nil _,rfl,rfl⟩
    | @line bytes rest s₀ s₁ s₂ hne hline hsize hrest ih =>
      obtain ⟨lines,hfit,hcontent,happly⟩ := ih
      obtain ⟨line,after,hbytes,hlength,hmeaning⟩ := (guacdParseConf_iff hne).mp hline
      have hafter : after=[] := by
        rw [hbytes,length_append] at hlength
        exact eq_nil_of_length_eq_zero (by omega)
      rw [hafter,append_nil] at hbytes
      refine ⟨line::lines,?_,?_,?_⟩
      · exact forall_mem_cons.mpr ⟨hbytes ▸ hsize,hfit⟩
      · rw [hbytes,hcontent,flatMap_cons]
      · rw [applyLines,foldlM_cons,hmeaning]
        exact happly
  · rintro ⟨lines,hfit,rfl,happly⟩
    induction lines generalizing s with
    | nil =>
      cases happly
      exact .nil _
    | cons line lines ih =>
      obtain ⟨hline,hfit⟩ := forall_mem_cons.mp hfit
      rw [applyLines,foldlM_cons] at happly
      obtain ⟨s₁,hmeaning,happly⟩ := Option.bind_eq_some_iff.mp happly
      rw [flatMap_cons]
      refine .line (line_ne_nil line) ?_ hline (ih hfit happly)
      refine (guacdParseConf_iff (line_ne_nil line)).mpr ⟨line,[],?_,rfl,hmeaning⟩
      rw [append_nil]

end GuacServer.ConfLines
