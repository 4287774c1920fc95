import Mathlib.Algebra.Order.Ring.Nat
import Mathlib.Data.List.Basic

/-!
# Reading lines through a buffer

A buffer is filled by reads of any size, and after each read as many lines as
there are in it are parsed. What is left may be an incomplete line, which is
parsed again from its beginning after the next read, although the attempt may
have changed the state already. A parser for which such attempts make no
difference reads the same lines however the reads come.
-/

namespace GuacServer.LineReaders

open List

variable {β σ ε : Type*}

/-- What a parser does with the contents of the buffer: how much of it is a line, or an
error, and the state in either case. -/
abbrev LineParser (β σ ε : Type*) := List β→σ→Except ε ℕ×σ

/-- The state of a reader between two reads. -/
structure Reader (β σ ε : Type*) where
  /-- What is in the buffer. -/
  buffer : List β
  /-- How many lines were parsed. -/
  lines : ℕ
  /-- The error of the last attempt, if it failed. -/
  failure : Option ε
  /-- The state of the parser. -/
  state : σ

/-- All lines in the buffer are parsed. -/
def parseLines (parse : LineParser β σ ε) (buffer : List β) (lines : ℕ) (s : σ) : Reader β σ ε :=
  match parse buffer s with
  | (.error e,s') => ⟨buffer,lines,some e,s'⟩
  | (.ok n,s') =>
    if _h : 0<n ∧ 0<buffer.length then parseLines parse (buffer.drop n) (lines+1) s'
    else ⟨buffer,lines,none,s'⟩
termination_by buffer.length
decreasing_by
  rw [length_drop]
  omega

/-- What the coming reads return, which may fail: a read takes no more than there is room. -/
def takeRead (capacity : ℕ) : List (Option (List β))→Option (List β)×List (Option (List β))
  | [] => (some [],[])
  | none::reads => (none,reads)
  | some bytes::reads =>
    (some (bytes.take capacity),
      if bytes.length≤capacity then reads else some (bytes.drop capacity)::reads)

/-- What the reads return in all. -/
def readBytes : List (Option (List β))→List β
  | [] => []
  | none::reads => readBytes reads
  | some bytes::reads => bytes++readBytes reads

/-- A read takes the first of it. -/
theorem takeRead_bytes {capacity : ℕ} {reads reads' : List (Option (List β))} {bytes : List β}
    (h : takeRead capacity reads=(some bytes,reads')) :
    readBytes reads=bytes++readBytes reads' := by
  cases reads with
  | nil =>
    cases h
    rfl
  | cons read reads =>
    cases read with
    | none => cases h
    | some more =>
      simp only [takeRead,Prod.mk.injEq,Option.some.injEq] at h
      obtain ⟨rfl,rfl⟩ := h
      rw [readBytes]
      split
      next hle => rw [take_of_length_le hle]
      next => rw [readBytes,←append_assoc,take_append_drop]

/-- A reader goes on until a read returns nothing or fails. -/
def readLines (size : ℕ) (parse : LineParser β σ ε) (reads : List (Option (List β)))
    (reader : Reader β σ ε) : Reader β σ ε×Bool :=
  match _hread : takeRead (size-reader.buffer.length) reads with
  | (some (b::bytes),reads') =>
    readLines size parse reads'
      (parseLines parse (reader.buffer++b::bytes) reader.lines reader.state)
  | (some [],_) => (reader,false)
  | (none,_) => (reader,true)
termination_by (readBytes reads).length
decreasing_by
  rw [takeRead_bytes _hread,length_append,length_cons]
  omega

/-- Two attempts find the same line and lead to the same state, or both fail. -/
def SameLine (r r' : Except ε ℕ×σ) : Prop := ∀ n s, r=(.ok n,s) ↔ r' = (.ok n,s)

/-- The parser takes a line whenever all of it is in the buffer, whatever follows it, and it
makes no difference that it was tried on a part of the line before. -/
structure Resumable (parse : LineParser β σ ε) : Prop where
  /-- Nothing is no line. -/
  nil : ∀ s, parse [] s=(.ok 0,s)
  /-- A line is not empty and in the buffer. -/
  bounds : ∀ {buffer s n s'}, buffer≠[] → parse buffer s=(.ok n,s') → 0<n ∧ n≤buffer.length
  /-- More may follow a line. -/
  extend : ∀ {buffer s n s'}, buffer≠[] → parse buffer s=(.ok n,s') →
    ∀ more, parse (buffer++more) s=(.ok n,s')
  /-- Nothing needs to follow a line. -/
  restrict : ∀ {buffer more s n s'}, buffer≠[] → parse (buffer++more) s=(.ok n,s') →
    n≤buffer.length → parse buffer s=(.ok n,s')
  /-- An attempt that fails changes nothing that matters. -/
  retry : ∀ {buffer s e s'}, parse buffer s=(.error e,s') →
    ∀ more, SameLine (parse (buffer++more) s') (parse (buffer++more) s)

/-- Contents that consist of lines which fit in the buffer, with the states before and after
them. -/
inductive Lines (parse : LineParser β σ ε) (size : ℕ) : List β→σ→σ→Prop
  | nil (s) : Lines parse size [] s s
  | line {line rest : List β} {s s' s'' : σ} (hne : line≠[])
      (hline : parse line s=(.ok line.length,s')) (hsize : line.length ≤ size)
      (hrest : Lines parse size rest s' s'') : Lines parse size (line++rest) s s''

variable {parse : LineParser β σ ε} {size : ℕ}

/-- Contents that consist of lines are empty or begin with one. -/
theorem Lines.split {content : List β} {s s'' : σ} (h : Lines parse size content s s'') :
    content=[] ∧ s=s'' ∨ ∃ line rest s', content=line++rest ∧ line≠[] ∧
      parse line s=(.ok line.length,s') ∧ line.length ≤ size ∧
      Lines parse size rest s' s'' := by
  cases h with
  | nil => exact .inl ⟨rfl,rfl⟩
  | line hne hline hsize hrest => exact .inr ⟨_,_,_,rfl,hne,hline,hsize,hrest⟩

/-- Lines that are followed by lines are lines. -/
theorem Lines.append {front back : List β} {s s' s'' : σ} (h : Lines parse size front s s')
    (h' : Lines parse size back s' s'') : Lines parse size (front++back) s s'' := by
  induction h with
  | nil s => exact h'
  | line hne hline hsize hrest ih =>
    rw [append_assoc]
    exact .line hne hline hsize (ih h')

/-- After lines the rest consists of lines if everything does, as the parser finds the same
lines again. -/
theorem Lines.of_append (h : Resumable parse) {front back : List β} {s s' s'' : σ}
    (hfront : Lines parse size front s s') (hall : Lines parse size (front++back) s s'') :
    Lines parse size back s' s'' := by
  induction hfront with
  | nil s => exact hall
  | @line line rest s₀ s₁ s₂ hne hline hsize hrest ih =>
    rw [append_assoc] at hall
    obtain ⟨hnil,-⟩ | ⟨line',rest',s₁',hcontent,hne',hline',-,hrest'⟩ := hall.split
    · exact absurd (append_eq_nil_iff.mp hnil).1 hne
    · have hfirst := h.extend hne hline (rest++back)
      rw [hcontent,h.extend hne' hline' rest'] at hfirst
      injection hfirst with hresult hstate
      injection hresult with hlength
      have hsame := append_inj hcontent hlength.symm
      subst hstate
      exact ih (hsame.2 ▸ hrest')

/-- What holds of a reader between two reads: what is left in its buffer begins no complete
line in the state that the lines before it lead to, and attempts on it have changed nothing
that matters. -/
structure Reader.Holds (parse : LineParser β σ ε) (size : ℕ) (reader : Reader β σ ε)
    (clean : σ) : Prop where
  same : ∀ more, SameLine (parse (reader.buffer++more) reader.state)
    (parse (reader.buffer++more) clean)
  incomplete : reader.buffer≠[]→∀ n s', parse reader.buffer clean≠(.ok n,s')
  empty : reader.buffer=[] → reader.state=clean
  failure : reader.failure=none ↔ reader.buffer=[]
  fits : reader.buffer.length ≤ size

/-- Before the first read nothing has been tried. -/
theorem Reader.holds_start (parse : LineParser β σ ε) (size lines : ℕ) (s : σ) :
    (⟨[],lines,none,s⟩ : Reader β σ ε).Holds parse size s where
  same := fun _ _ _ => Iff.rfl
  incomplete := fun hne => absurd rfl hne
  empty := fun _ => rfl
  failure := ⟨fun _ => rfl,fun _ => rfl⟩
  fits := Nat.zero_le size

/-- Lines are parsed from what is in the buffer, and the rest is kept. -/
theorem Resumable.parseLines (h : Resumable parse) {buffer : List β} {clean s : σ}
    (hsame : ∀ more, SameLine (parse (buffer++more) s) (parse (buffer++more) clean))
    (hempty : buffer=[] → s=clean) (hsize : buffer.length ≤ size) (lines : ℕ) :
    ∃ taken clean', buffer=taken++(LineReaders.parseLines parse buffer lines s).buffer ∧
      Lines parse size taken clean clean' ∧
      (LineReaders.parseLines parse buffer lines s).Holds parse size clean' := by
  induction hn : buffer.length using Nat.strong_induction_on generalizing buffer clean s lines with
  | _ n ih =>
    rw [LineReaders.parseLines]
    by_cases hnil : buffer=[]
    · subst hnil
      rw [hempty rfl,h.nil]
      exact ⟨[],clean,rfl,.nil clean,Reader.holds_start parse size lines clean⟩
    · cases hparse : parse buffer s with
      | mk result s' =>
        cases result with
        | error e =>
          have hretry := h.retry hparse
          have hincomplete : ∀ k s'', parse buffer clean≠(.ok k,s'') := by
            intro k s'' hok
            have hboth := (hsame [] k s'').mpr (by rwa [append_nil])
            rw [append_nil,hparse] at hboth
            cases hboth
          exact ⟨[],clean,rfl,.nil clean,
            fun more k s'' => (hretry more k s'').trans (hsame more k s''),
            fun _ => hincomplete,fun heq => absurd heq hnil,iff_of_false nofun hnil,hsize⟩
        | ok k =>
          obtain ⟨hpos,hle⟩ := h.bounds hnil hparse
          have htake : (buffer.take k).length=k := by
            rw [length_take,Nat.min_eq_left hle]
          have hne : buffer.take k≠[] := by
            intro heq
            rw [heq] at htake
            exact absurd htake hpos.ne
          have hclean : parse buffer clean=(.ok k,s') := by
            have hboth := (hsame [] k s').mp (by rwa [append_nil])
            rwa [append_nil] at hboth
          have hline : parse (buffer.take k) clean=(.ok (buffer.take k).length,s') := by
            rw [←take_append_drop k buffer] at hclean
            rw [htake]
            exact h.restrict hne hclean htake.ge
          have hlength : 0<buffer.length := length_pos_of_ne_nil hnil
          simp only [hpos,hlength,and_self,dite_true]
          obtain ⟨taken,clean',hsplit,hlines,hholds⟩ := ih (buffer.drop k).length
            (by rw [length_drop]; omega) (fun _ _ _ => Iff.rfl) (fun _ => rfl)
            (by rw [length_drop]; omega) (lines+1) rfl
          refine ⟨buffer.take k++taken,clean',?_,.line hne hline (by omega) hlines,hholds⟩
          rw [append_assoc,←hsplit,take_append_drop]

/-- A reader that gets no more has read lines if its buffer is empty: either nothing follows,
or the buffer is full and the line in it does not fit. -/
theorem Reader.Holds.done (h : Resumable parse) {reader : Reader β σ ε} {clean : σ}
    (hholds : reader.Holds parse size clean) {more : List β}
    (hend : more=[] ∨ reader.buffer.length=size ∧ 0<size) (s' : σ) :
    reader.failure=none ∧ reader.state=s' ↔ Lines parse size (reader.buffer++more) clean s' := by
  rw [hholds.failure]
  constructor
  · rintro ⟨hbuffer,rfl⟩
    rw [hholds.empty hbuffer,hbuffer]
    rcases hend with rfl | ⟨hfull,hpos⟩
    · exact .nil clean
    · rw [hbuffer] at hfull
      exact absurd hfull hpos.ne
  · intro hlines
    by_cases hbuffer : reader.buffer=[]
    · refine ⟨hbuffer,?_⟩
      rw [hbuffer] at hlines
      rcases hend with rfl | ⟨hfull,hpos⟩
      · rw [hholds.empty hbuffer]
        obtain ⟨-,rfl⟩ | ⟨line,rest,_,hcontent,hne,-⟩ := hlines.split
        · rfl
        · exact absurd (append_eq_nil_iff.mp hcontent.symm).1 hne
      · rw [hbuffer] at hfull
        exact absurd hfull hpos.ne
    · exfalso
      obtain ⟨hnil,-⟩ | ⟨line,rest,_,hcontent,hne,hline,hfits,-⟩ := hlines.split
      · exact hbuffer (append_eq_nil_iff.mp hnil).1
      · have hle : line.length≤reader.buffer.length := by
          rcases hend with rfl | ⟨hfull,hpos⟩
          · rw [append_nil] at hcontent
            rw [hcontent,length_append]
            omega
          · omega
        have hall := h.extend hne hline rest
        rw [←hcontent] at hall
        exact hholds.incomplete hbuffer _ _ (h.restrict hbuffer hall hle)

/-- While there is room and something to come, a read takes some of it and leaves the rest. -/
theorem takeRead_chunks {capacity : ℕ} (hroom : 0<capacity) {chunk : List β}
    {chunks : List (List β)} (hne : ∀ c∈chunk::chunks, c≠[]) :
    ∃ (b : β) (bytes : List β) (left : List (List β)),
      takeRead capacity ((chunk::chunks).map some)=(some (b::bytes),left.map some) ∧
      (∀ c∈left, c≠[]) ∧ (b::bytes).length≤capacity ∧
      (chunk::chunks).flatten=b::bytes++left.flatten := by
  cases htake : chunk.take capacity with
  | nil =>
    rw [take_eq_nil_iff] at htake
    rcases htake with hzero | hnil
    · exact absurd hzero hroom.ne'
    · exact absurd hnil (hne chunk (mem_cons_self))
  | cons b bytes =>
    have hlength : (b::bytes).length≤capacity := htake ▸ length_take_le capacity chunk
    have hrest : ∀ c∈chunks, c≠[] := fun c hc => hne c (mem_cons_of_mem _ hc)
    rw [map_cons,takeRead,htake]
    by_cases hle : chunk.length≤capacity
    · rw [if_pos hle]
      refine ⟨b,bytes,chunks,rfl,hrest,hlength,?_⟩
      rw [flatten_cons,←htake,take_of_length_le hle]
    · rw [if_neg hle]
      refine ⟨b,bytes,chunk.drop capacity::chunks,rfl,?_,hlength,?_⟩
      · intro c hc
        rcases mem_cons.mp hc with rfl | hc
        · intro hnil
          exact hle (drop_eq_nil_iff.mp hnil)
        · exact hrest c hc
      · rw [flatten_cons,flatten_cons,←append_assoc,←htake,take_append_drop]

/-- However the reads come, a reader reads lines and nothing else. -/
theorem Reader.Holds.readLines (h : Resumable parse) (hpos : 0<size)
    {reader : Reader β σ ε} {clean : σ} (hholds : reader.Holds parse size clean)
    {chunks : List (List β)} (hne : ∀ c∈chunks, c≠[]) :
    (LineReaders.readLines size parse (chunks.map some) reader).2=false ∧ ∀ s',
      (LineReaders.readLines size parse (chunks.map some) reader).1.failure=none ∧
        (LineReaders.readLines size parse (chunks.map some) reader).1.state=s' ↔
      Lines parse size (reader.buffer++chunks.flatten) clean s' := by
  induction hn : chunks.flatten.length using Nat.strong_induction_on
    generalizing chunks reader clean with
  | _ n ih =>
    rw [LineReaders.readLines]
    by_cases hmore : chunks=[]
    · subst hmore
      exact ⟨rfl,hholds.done h (.inl rfl)⟩
    · obtain ⟨chunk,rest,rfl⟩ := exists_cons_of_ne_nil hmore
      by_cases hroom : 0<size-reader.buffer.length
      · obtain ⟨b,bytes,left,hread,hleft,hlength,hflatten⟩ := takeRead_chunks hroom hne
        rw [hread]
        have hsplit : ∀ more, reader.buffer++b::bytes++more=
            reader.buffer++(b::bytes++more) := fun more => append_assoc _ _ _
        have hsame : ∀ more, SameLine (parse (reader.buffer++b::bytes++more) reader.state)
            (parse (reader.buffer++b::bytes++more) clean) := by
          intro more
          rw [hsplit]
          exact hholds.same _
        have hfits : (reader.buffer++b::bytes).length ≤ size := by
          rw [length_append]
          omega
        obtain ⟨taken,clean',hbuffer,hlines,hafter⟩ := h.parseLines hsame
          (fun hnil => absurd (append_eq_nil_iff.mp hnil).2 (cons_ne_nil b bytes))
          hfits reader.lines
        have hfewer : left.flatten.length<n := by
          rw [←hn,hflatten,length_append,length_cons]
          omega
        obtain ⟨hok,hiff⟩ := ih _ hfewer hafter hleft rfl
        refine ⟨hok,fun s' => (hiff s').trans ?_⟩
        have hcontent : reader.buffer++(chunk::rest).flatten=taken++
            ((parseLines parse (reader.buffer++b::bytes) reader.lines reader.state).buffer++
              left.flatten) := by
          rw [hflatten,←hsplit,←append_assoc,←hbuffer]
        rw [hcontent]
        exact ⟨hlines.append,hlines.of_append h⟩
      · have hfull : size-reader.buffer.length=0 := Nat.eq_zero_of_not_pos hroom
        have hfits := hholds.fits
        rw [hfull]
        exact ⟨rfl,hholds.done h (.inr ⟨by omega,hpos⟩)⟩

end GuacServer.LineReaders
