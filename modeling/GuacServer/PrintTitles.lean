import GuacServer.DeviceRequests

/-!
# Titles of printed documents

The first data of a print job is searched for a title. As the place moves on while the
length shrinks, only the first half of the search area is looked at, and a header is compared
without a check of what is left of the data.
-/

namespace GuacServer.DeviceRedirection

open ByteStreams List PrintJobs Unicode

/-- The part of the data in which a header may lie. -/
def searchArea (buffer : List UInt8) : List UInt8 :=
  buffer.take guacRdpPrintJobTitleSearchLength.toNat

/-- A header starts at a place and lies completely within the search area. -/
def HeaderAt (buffer : List UInt8) (place : ℕ) : Prop :=
  titleHeader <+: (searchArea buffer).drop place

/-- The place of the first header. -/
def FirstHeader (buffer : List UInt8) (place : ℕ) : Prop :=
  HeaderAt buffer place ∧ ∀ earlier<place, ¬HeaderAt buffer earlier

/-- A text up to the end of its line. -/
def lineText (text : List UInt8) : List UInt8 := text.takeWhile fun c => decide (c≠13 ∧ c≠10)

/-- The title behind a header at a place, as far as there is room for it in a filename. -/
def titleAt (buffer : List UInt8) (place : ℕ) : List UInt8 :=
  (lineText (buffer.drop (place+titleHeader.length))).take
    (guacRdpPrintJobFilenameMaxLength-(ascii ".pdf").length-1)

/-- A filename is taken from the first header, or left as it is if there is none. Nothing is
read behind the data. -/
def NamedByTitle (buffer filename : List UInt8) : Prop :=
  ∃ named, guacRdpPrintJobReadFilename ⟨buffer,0⟩ buffer.length filename=some named ∧
    (∀ place, FirstHeader buffer place → named=titleAt buffer place++ascii ".pdf") ∧
    ((∀ place, ¬HeaderAt buffer place) → named=filename)

/-- The first header is in the first half of the search area, with as much of the title behind
it as a filename has room for. At none of the places before it in that half do the data end
within the start of a header. -/
def TitleReached (buffer : List UInt8) : Prop :=
  (∀ place, FirstHeader buffer place→2*place<(searchArea buffer).length ∧
    place+titleHeader.length+(titleAt buffer place).length≤(searchArea buffer).length) ∧
  TitleFits 0 (searchArea buffer).length ⟨buffer,0⟩

variable {input : ByteStream}

/-- What is copied is the line, as far as the length goes. -/
theorem copyTitle_eq {remaining : ℕ} {title : List UInt8}
    (h : copyTitle remaining input=some title) :
    title=(lineText input.rest).take remaining := by
  induction remaining generalizing input title with
  | zero =>
    cases h
    rfl
  | succ remaining ih =>
    obtain ⟨⟨c,next⟩,hread,h⟩ := Option.bind_eq_some_iff.mp h
    obtain ⟨hhas,hsame⟩ := ByteStream.readUInt_eq_some_iff.mp hread
    cases hrest : input.rest with
    | nil => exact absurd hrest (ByteStream.has_one_iff.mp hhas)
    | cons b rest =>
      obtain ⟨huint,hnext⟩ := ByteStream.uint_one_of_rest hrest
      rw [huint] at hsame
      cases hsame
      have hcr : b.toNat=13 ↔ b=13 := UInt8.toNat_inj (b := 13)
      have hlf : b.toNat=10 ↔ b=10 := UInt8.toNat_inj (b := 10)
      simp only [hcr,hlf] at h
      unfold lineText
      by_cases hend : b=13 ∨ b=10
      · rw [if_pos hend] at h
        cases h
        rw [takeWhile_cons_of_neg (by simpa [←or_iff_not_imp_left] using hend),take_nil]
      · rw [if_neg hend] at h
        obtain ⟨copied,hcopied,rfl⟩ := Option.map_eq_some_iff.mp h
        rw [takeWhile_cons_of_pos (by simpa using hend),take_succ_cons,ih hcopied,
          hnext,UInt8.ofNat_toNat]
        rfl

/-- The filename for a title behind a header, of which so many bytes are looked at. -/
def titleFilename (length : ℤ) (text : List UInt8) : List UInt8 :=
  (lineText (text.drop 9)).take
    (min (length-9) (guacRdpPrintJobFilenameMaxLength-5)).toNat++ascii ".pdf"

theorem rest_seek (count : ℕ) (input : ByteStream) :
    (input.seek count).rest=input.rest.drop count := by
  rw [ByteStream.rest,ByteStream.rest,drop_drop]
  rfl

/-- What is found is the filename for the title. -/
theorem parseTitleHeader_eq {length : ℤ} {filename : List UInt8}
    (h : guacRdpPrintJobParseTitleHeader input length=some (some filename)) :
    filename=titleFilename length input.rest := by
  simp only [guacRdpPrintJobParseTitleHeader,Option.bind_eq_bind,Option.bind_eq_some_iff] at h
  obtain ⟨compared,-,h⟩ := h
  cases compared with
  | false => cases h
  | true =>
    rw [if_pos rfl] at h
    obtain ⟨title,htitle,h⟩ := Option.bind_eq_some_iff.mp h
    cases h
    rw [copyTitle_eq htitle,rest_seek,titleFilename,min_def_lt]

/-- What a search finds is the filename for the first header among the places that it looks
at. -/
def SearchFinds (tried length : ℕ) (text : List UInt8) : Option (List UInt8)→Prop
  | none => ∀ k, tried+2*k<length→¬titleHeader <+: text.drop k
  | some filename => ∃ k, tried+2*k<length ∧ titleHeader <+: text.drop k ∧
      (∀ j<k, ¬titleHeader <+: text.drop j) ∧
      filename=titleFilename ((length-k : ℕ) : ℤ) (text.drop k)

/-- A search goes on behind a place without a header. -/
theorem SearchFinds.succ {tried length : ℕ} {text : List UInt8} {found : Option (List UInt8)}
    (hlt : tried<length) (hheader : ¬titleHeader <+: text)
    (h : SearchFinds (tried+1) (length-1) (text.drop 1) found) :
    SearchFinds tried length text found := by
  cases found with
  | none =>
    intro k hk
    cases k with
    | zero => exact hheader
    | succ k =>
      have hnext := h k (by omega)
      rwa [drop_drop,Nat.add_comm] at hnext
  | some filename =>
    obtain ⟨k,hk,hfound,hfirst,hname⟩ := h
    rw [drop_drop,Nat.add_comm] at hfound hname
    refine ⟨k+1,by omega,hfound,fun j hj => ?_,?_⟩
    · cases j with
      | zero => exact hheader
      | succ j =>
        have hearlier := hfirst j (Nat.lt_of_succ_lt_succ hj)
        rwa [drop_drop,Nat.add_comm] at hearlier
    · rw [hname,Nat.sub_sub,Nat.add_comm 1 k]

theorem searchTitle_finds {tried length : ℕ} {found : Option (List UInt8)}
    (h : searchTitle tried length input=some found) :
    SearchFinds tried length input.rest found := by
  induction tried, length, input using searchTitle.induct generalizing found with
  | case1 tried length input hlt ih =>
    rw [searchTitle,if_pos hlt] at h
    obtain ⟨parsed,hparsed,h⟩ := Option.bind_eq_some_iff.mp h
    have hheader := found_of_parseTitleHeader hparsed
    cases parsed with
    | some filename =>
      cases h
      refine ⟨0,hlt,hheader.mp rfl,fun j hj => absurd hj (Nat.not_lt_zero j),?_⟩
      exact parseTitleHeader_eq hparsed
    | none =>
      have hnext := ih h
      rw [rest_seek] at hnext
      exact hnext.succ hlt fun hfound => absurd (hheader.mpr hfound) Bool.false_ne_true
  | case2 tried length input hle =>
    rw [searchTitle,if_neg hle] at h
    cases h
    exact fun k hk => absurd hk (by omega)

theorem length_searchArea (buffer : List UInt8) :
    (searchArea buffer).length=min 2048 buffer.length := length_take ..

variable {buffer : List UInt8}

/-- In the places that are looked at, a header lies within the search area if it lies within
the data. -/
theorem headerAt_iff {place : ℕ} (h : 2*place<(searchArea buffer).length) :
    HeaderAt buffer place ↔ titleHeader <+: buffer.drop place := by
  have harea : guacRdpPrintJobTitleSearchLength.toNat=2048 := rfl
  have hheader : titleHeader.length=9 := rfl
  rw [length_searchArea] at h
  unfold HeaderAt searchArea
  rw [drop_take,prefix_take_iff,harea,hheader]
  constructor
  · exact And.left
  · intro hprefixed
    have hfits := hprefixed.length_le
    rw [length_drop,hheader] at hfits
    exact ⟨hprefixed,by omega⟩

/-- The filename for the first header is the one for its title, if as much of that as there is
room for lies in the search area. -/
theorem titleFilename_eq_iff {place : ℕ} (hheader : HeaderAt buffer place) :
    titleFilename (((searchArea buffer).length-place : ℕ) : ℤ) (buffer.drop place)=
        titleAt buffer place++ascii ".pdf" ↔
      place+titleHeader.length+(titleAt buffer place).length≤(searchArea buffer).length := by
  have hlength : titleHeader.length=9 := rfl
  have hroom : guacRdpPrintJobFilenameMaxLength-(ascii ".pdf").length-1=1019 := rfl
  have hspace : (guacRdpPrintJobFilenameMaxLength : ℤ)-5=1019 := rfl
  have hfits := hheader.length_le
  unfold titleFilename titleAt
  rw [drop_drop,hlength,hroom,hspace,append_left_inj,take_eq_take_iff,
    length_take]
  rw [length_drop,hlength] at hfits
  omega

/-- What is found among the places of a buffer is the filename for the first header. -/
theorem SearchFinds.first {filename : List UInt8}
    (h : SearchFinds 0 (searchArea buffer).length buffer (some filename)) :
    ∃ place, FirstHeader buffer place ∧ 2*place<(searchArea buffer).length ∧
      filename=titleFilename (((searchArea buffer).length-place : ℕ) : ℤ) (buffer.drop place) := by
  obtain ⟨k,hk,hfound,hfirst,hname⟩ := h
  rw [Nat.zero_add] at hk
  refine ⟨k,⟨(headerAt_iff hk).mpr hfound,fun j hj => ?_⟩,hk,hname⟩
  rw [headerAt_iff (by omega)]
  exact hfirst j hj

theorem FirstHeader.unique {place other : ℕ} (h : FirstHeader buffer place)
    (hother : FirstHeader buffer other) : place=other := by
  rcases lt_trichotomy place other with hlt | heq | hgt
  · exact absurd h.1 (hother.2 place hlt)
  · exact heq
  · exact absurd hother.1 (h.2 other hgt)

/-- The filename is taken from the title exactly if the first header is reached, with enough of
the title behind it. -/
theorem named_iff {found : Option (List UInt8)}
    (h : SearchFinds 0 (searchArea buffer).length buffer found) :
    (∀ filename, (∀ place, FirstHeader buffer place →
        found.getD filename=titleAt buffer place++ascii ".pdf") ∧
      ((∀ place, ¬HeaderAt buffer place) → found.getD filename=filename)) ↔
    ∀ place, FirstHeader buffer place→2*place<(searchArea buffer).length ∧
      place+titleHeader.length+(titleAt buffer place).length≤(searchArea buffer).length := by
  cases found with
  | none =>
    constructor
    · intro hnamed place hfirst
      have hempty : []=titleAt buffer place++ascii ".pdf" := (hnamed []).1 place hfirst
      exact absurd (append_eq_nil_iff.mp hempty.symm).2 (by decide)
    · refine fun hreached filename => ⟨fun place hfirst => ?_,fun _ => rfl⟩
      have hhalf := (hreached place hfirst).1
      exact absurd ((headerAt_iff hhalf).mp hfirst.1) (h place (by omega))
  | some name =>
    obtain ⟨k,hk,hhalf,hname⟩ := h.first
    have hcut := titleFilename_eq_iff hk.1
    rw [←hname] at hcut
    constructor
    · intro hnamed place hfirst
      obtain rfl := hk.unique hfirst
      exact ⟨hhalf,hcut.mp ((hnamed []).1 k hk)⟩
    · refine fun hreached filename => ⟨fun place hfirst => ?_,fun hnone => ?_⟩
      · obtain rfl := hk.unique hfirst
        exact hcut.mpr (hreached k hk).2
      · exact absurd hk.1 (hnone k)

/-- The search goes over the search area. -/
theorem readFilename_eq (buffer filename : List UInt8) :
    guacRdpPrintJobReadFilename ⟨buffer,0⟩ buffer.length filename=
      (searchTitle 0 (searchArea buffer).length ⟨buffer,0⟩).map (·.getD filename) := by
  have hlength : (if (buffer.length : ℤ) > guacRdpPrintJobTitleSearchLength then
      guacRdpPrintJobTitleSearchLength else (buffer.length : ℤ)).toNat=
      (searchArea buffer).length := by
    have harea : guacRdpPrintJobTitleSearchLength=2048 := rfl
    rw [length_searchArea,harea]
    split_ifs <;> omega
  rw [guacRdpPrintJobReadFilename,hlength,Option.map_eq_bind]
  rfl

/-- A document with its title in the second line. -/
def shortDocument : List UInt8 := ascii "%!PS-Adobe\n%%Title: a\n"

end GuacServer.DeviceRedirection
