import GuacServer.DecimalNumerals
import GuacServer.PathResolution

/-!
# Splitting of strings

guac_split allocates as many elements as guac_count_occurrences finds delimiters, and two more,
before it looks for the tokens. Both counts are ints. Strings are the bytes before their null
terminators, which are not delimiters.
-/

namespace GuacServer.TokenSplitting

open DecimalNumerals List

/-- The loop of guac_count_occurrences. -/
def countLoop (c : UInt8) : List UInt8→ℤ→Option ℤ
  | [], count => some count
  | b::string, count =>
    if b=c then (checked (count+1)).bind (countLoop c string) else countLoop c string count

/-- guac_count_occurrences. -/
def guacCountOccurrences (string : List UInt8) (c : UInt8) : Option ℤ := countLoop c string 0

/-- A token is copied. Its length is stored in an int, and malloc grants what is no negative
int. -/
def copyToken (token : List UInt8) : Option (List UInt8) := do
  let length := wrap32 token.length
  let size ← checked (length+1)
  if 0≤length ∧ 0 ≤ size then some (token.take length.toNat) else none

/-- An element is stored in an array of so many, which there is none of if the number is
negative. -/
def storeElement {α : Type} (capacity : ℤ) (elements : List α) (element : α) : Option (List α) :=
  if elements.length<capacity then some (elements++[element]) else none

/-- The loop of guac_split, with what has been passed of the current token. -/
def splitLoop (tokenCount capacity : ℤ) (delim : UInt8) :
    List UInt8→List UInt8→List (List UInt8)→Option (List (List UInt8))
  | [], current, tokens => do storeElement capacity tokens (← copyToken current)
  | c::string, current, tokens =>
    if c=delim then do
      let tokens ← storeElement capacity tokens (← copyToken current)
      if tokens.length<tokenCount then splitLoop tokenCount capacity delim string [] tokens
      else some tokens
    else splitLoop tokenCount capacity delim string (current++[c]) tokens

/-- guac_split, as the elements of the array before NULL. -/
def guacSplit (string : List UInt8) (delim : UInt8) : Option (List (List UInt8)) := do
  let tokenCount ← checked ((← guacCountOccurrences string delim)+1)
  let capacity ← checked (tokenCount+1)
  let tokens ← splitLoop tokenCount capacity delim string [] []
  if tokens.length<capacity then some tokens else none

variable {string : List UInt8} {delim : UInt8} {tokenCount : ℤ} {tokens : List (List UInt8)}

theorem countLoop_eq_some {count result : ℤ} (hcount : 0≤count ∧ count<2^31) :
    countLoop delim string count=some result ↔
      result=count+string.count delim ∧ count+string.count delim<2^31 := by
  induction string generalizing count with
  | nil =>
    rw [countLoop,Option.some.injEq,count_nil]
    omega
  | cons b string ih =>
    rw [countLoop,count_cons]
    by_cases hb : b=delim
    · simp only [hb,if_true,BEq.rfl,Option.bind_eq_some_iff,checked_eq_some]
      constructor
      · rintro ⟨_,⟨hrange,rfl⟩,hrest⟩
        have hcounted := (ih ⟨by omega,hrange.2⟩).mp hrest
        omega
      · intro h
        exact ⟨count+1,⟨⟨by omega,by omega⟩,rfl⟩,(ih ⟨by omega,by omega⟩).mpr (by omega)⟩
    · simp only [hb,if_false,beq_iff_eq,Nat.add_zero]
      exact ih hcount

/-- A token is copied as a whole exactly if its length and one more are ints. -/
theorem copyToken_self {token : List UInt8} : copyToken token=some token ↔ token.length+1<2^31 := by
  unfold copyToken
  simp only [Option.bind_eq_bind,Option.bind_eq_some_iff,checked_eq_some,
    Option.ite_none_right_eq_some,Option.some.injEq,take_eq_self_iff]
  have hlt := wrap32_lt token.length
  constructor
  · rintro ⟨_,⟨hrange,rfl⟩,hnonneg,hwhole⟩
    omega
  · intro h
    rw [wrap32_of_range (by omega) (by omega)]
    exact ⟨_,⟨⟨by omega,by omega⟩,rfl⟩,by omega,by omega⟩

theorem storeElement_of_lt {α : Type} {capacity : ℤ} {elements : List α}
    (h : elements.length<capacity) (element : α) :
    storeElement capacity elements element=some (elements++[element]) := if_pos h

theorem modifyHead_nil_append (parts : List (List UInt8)) : parts.modifyHead ([] ++ ·)=parts := by
  cases parts <;> rfl

/-- The loop stays in step with the count: it copies all parts of what is left of the
string. -/
theorem splitLoop_eq_some {found : List (List UInt8)} (current : List UInt8)
    (hcount : (tokens.length : ℤ)+string.count delim+1=tokenCount) :
    splitLoop tokenCount (tokenCount+1) delim string current tokens=some found ↔
      ∃ copies, List.Forall₂ (fun part copy => copyToken part=some copy)
        ((string.splitOn delim).modifyHead (current ++ ·)) copies ∧ tokens++copies=found := by
  induction string generalizing current tokens with
  | nil =>
    rw [count_nil] at hcount
    have hstore : ∀ token, storeElement (tokenCount+1) tokens token=some (tokens++[token]) :=
      storeElement_of_lt (by omega)
    simp [splitLoop,Option.bind_eq_some_iff,List.forall₂_cons_left_iff,hstore]
  | cons c string ih =>
    rw [count_cons] at hcount
    rw [splitLoop,splitOn_cons_eq_if_modifyHead]
    by_cases hc : c=delim
    · simp only [hc,if_true,BEq.rfl] at hcount ⊢
      have hstore : ∀ token, storeElement (tokenCount+1) tokens token=some (tokens++[token]) :=
        storeElement_of_lt (by omega)
      have hrest : ∀ token, (tokens++[token]).length=tokens.length+1 :=
        fun token => length_append
      have hmore : ((tokens.length+1 : ℕ) : ℤ)<tokenCount := by omega
      simp only [Option.bind_eq_bind,Option.bind_eq_some_iff,hstore,Option.some.injEq,
        exists_eq_left',hrest,if_pos hmore,modifyHead_cons,append_nil,
        List.forall₂_cons_left_iff]
      have hih (token : List UInt8) :
          splitLoop tokenCount (tokenCount+1) delim string [] (tokens++[token])=some found ↔ _ :=
        ih [] (by rw [hrest]; omega)
      simp only [hih,modifyHead_nil_append]
      constructor
      · rintro ⟨token,htoken,copies,hcopies,rfl⟩
        exact ⟨token::copies,⟨token,copies,htoken,hcopies,rfl⟩,by simp⟩
      · rintro ⟨_,⟨token,copies,htoken,hcopies,rfl⟩,rfl⟩
        exact ⟨token,htoken,copies,hcopies,by simp⟩
    · simp only [hc,if_false,beq_iff_eq,Nat.add_zero] at hcount ⊢
      rw [ih (current++[c]) hcount,modifyHead_modifyHead]
      simp only [Function.comp_def,append_assoc,singleton_append]

theorem length_splitOn (string : List UInt8) (delim : UInt8) :
    (string.splitOn delim).length=string.count delim+1 := by
  induction string with
  | nil => rfl
  | cons c string ih =>
    rw [splitOn_cons_eq_if_modifyHead,count_cons]
    split <;> simp_all

/-- What is found are the copies of the parts of the string, if one more than their number is an
int. -/
theorem guacSplit_eq_some : guacSplit string delim=some tokens ↔ string.count delim+2<2^31 ∧
      List.Forall₂ (fun part copy => copyToken part=some copy) (string.splitOn delim) tokens := by
  have hloop : splitLoop _ _ delim string [] []=some tokens ↔ _ := splitLoop_eq_some [] rfl
  rw [modifyHead_nil_append] at hloop
  simp only [nil_append,length_nil,Nat.cast_zero,exists_eq_right] at hloop
  have hcounted : ∀ result, countLoop delim string 0=some result ↔
      result=0+string.count delim ∧ 0+(string.count delim : ℤ)<2^31 :=
    fun result => countLoop_eq_some ⟨le_rfl,by decide⟩
  unfold guacSplit guacCountOccurrences
  simp only [Option.bind_eq_bind,Option.bind_eq_some_iff,checked_eq_some,
    Option.ite_none_right_eq_some,Option.some.injEq,hcounted]
  constructor
  · rintro ⟨_,⟨rfl,-⟩,_,⟨-,rfl⟩,_,⟨hrange,rfl⟩,found,hfound,-,rfl⟩
    exact ⟨by omega,hloop.mp hfound⟩
  · rintro ⟨hcount,hfound⟩
    have hlength := hfound.length_eq
    rw [length_splitOn] at hlength
    exact ⟨_,⟨rfl,by omega⟩,_,⟨⟨by omega,by omega⟩,rfl⟩,_,⟨⟨by omega,by omega⟩,rfl⟩,
      tokens,hloop.mpr hfound,by omega,rfl⟩

/-- The tokens are as many as there are delimiters and one more, have none in them, and are
joined by delimiters to the string. -/
structure Splits (string : List UInt8) (delim : UInt8) (tokens : List (List UInt8)) : Prop where
  counted : (guacCountOccurrences string delim).map (· + 1)=some (tokens.length : ℤ)
  whole : ∀ token∈tokens, delim ∉ token
  joined : [delim].intercalate tokens=string

/-- A string is split into tokens that are joined to it again exactly if one more than their
number is an int, and so is one more than the length of each. -/
theorem splits_iff (string : List UInt8) (delim : UInt8) :
    (∃ tokens, guacSplit string delim=some tokens ∧ Splits string delim tokens) ↔
      string.count delim+2<2^31 ∧ ∀ token∈string.splitOn delim, token.length+1<2^31 := by
  have hcopies : List.Forall₂ (fun part copy => copyToken part=some copy)
      (string.splitOn delim) (string.splitOn delim) ↔
      ∀ token∈string.splitOn delim, token.length+1<2^31 := by
    rw [List.forall₂_same]
    exact forall₂_congr fun token _ => copyToken_self
  rw [←hcopies]
  constructor
  · rintro ⟨tokens,hsplit,hsplits⟩
    have hfound := guacSplit_eq_some.mp hsplit
    have hne : tokens≠[] := by
      rintro rfl
      have hlength := hfound.2.length_eq
      rw [length_splitOn] at hlength
      exact absurd hlength (Nat.succ_ne_zero _)
    have hparts := splitOn_intercalate delim hsplits.whole hne
    rw [hsplits.joined] at hparts
    rwa [hparts] at hfound ⊢
  · intro h
    refine ⟨_,guacSplit_eq_some.mpr h,?_,fun token htoken => ?_,intercalate_splitOn delim⟩
    · rw [length_splitOn]
      exact Option.map_eq_some_iff.mpr ⟨string.count delim,
        (countLoop_eq_some ⟨le_rfl,by decide⟩).mpr ⟨by omega,by omega⟩,by omega⟩
    · intro hmem
      rw [splitOn_eq_splitOnP] at htoken
      exact absurd (PathResolution.of_mem_splitOnP htoken _ hmem).2 (by simp)

example : guacSplit [0x2C,0x61,0x2C] 0x2C=some [[],[0x61],[]] := by decide

/-- A string of so many delimiters that one more than the number of tokens is no int. -/
theorem not_splits : ¬∀ string delim, 0 ∉ string → delim≠0 →
    ∃ tokens, guacSplit string delim=some tokens ∧ Splits string delim tokens := by
  intro h
  obtain ⟨tokens,htokens,-⟩ := h (List.replicate (2^31-2) 0x2C) 0x2C
    (fun hmem => absurd (eq_of_mem_replicate hmem) (by decide)) (by decide)
  have hcount := (guacSplit_eq_some.mp htokens).1
  rw [count_replicate_self] at hcount
  omega

end GuacServer.TokenSplitting
