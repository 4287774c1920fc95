import GuacServer.StringBuffers

/-!
# Normalisation of paths

guac_rdp_fs_normalize_path and guac_common_ssh_sftp_normalize_path, which differ in their
limits, in the separator of their results and in that the former refuses colons. The path
is copied without its leading slash, its components are found in one pass over the copy,
and they are joined again behind a separator.
-/

namespace GuacServer.PathNormalization

open List PathResolution StringBuffers

/-- A path as it is passed to the server, in a buffer or in an instruction, so that its
length is an int. -/
structure PathString where
  /-- The bytes before the null terminator. -/
  bytes : List UInt8
  /-- There is no other null byte. -/
  terminated : ∀ b∈bytes, b≠0
  /-- The length is an int. -/
  short : bytes.length<2^31

/-- The byte is a slash or a backslash. -/
def isSeparator (b : UInt8) : Bool := b=0x2F || b=0x5C

/-- What the routines differ in. -/
structure PathRules where
  /-- The size of the buffers for paths. -/
  maxPath : ℕ
  /-- The number of components that a path may have. -/
  maxDepth : ℕ
  /-- What separates the components of the result. -/
  separator : UInt8
  /-- The bytes that no path may contain. -/
  refused : UInt8→Bool
  /-- The results can be separated again. -/
  separates : isSeparator separator=true
  /-- A buffer has room for the root. -/
  roomy : 2 ≤ maxPath
  /-- A path may have a component. -/
  deep : 0 < maxDepth

/-- The end of a component, which fails once there are too many. -/
def endComponent (rules : PathRules) (components : List (List UInt8)) (current : List UInt8) :
    Option (List (List UInt8)) :=
  if current=[0x2E,0x2E] then
    if components.length > 0 then some components.dropLast else some components
  else if current≠[0x2E] ∧ current≠[] then
    if components.length≥rules.maxDepth then none else some (components++[current])
  else some components

/-- The loop over the copy of the path. -/
def scanComponents (rules : PathRules) :
    List UInt8→List UInt8→List (List UInt8)→Option (List (List UInt8))
  | [], current, components => endComponent rules components current
  | c::path, current, components =>
    if isSeparator c then
      match endComponent rules components current with
      | none => none
      | some components => scanComponents rules path [] components
    else if rules.refused c then none
    else scanComponents rules path (current++[c]) components

/-- The buffer with the normalised path, if there is one. The length that is copied is an int,
which is below 0 from 2^31 bytes on and then, compared with a size, too long as well. Paths of
2^32 bytes and more, whose length is cut off, are taken as too long. -/
def normalizePath (rules : PathRules) (path : List UInt8) : Option StringBuffer :=
  match path with
  | [] => none
  | first::rest =>
    if isSeparator first then
      let scratch := guacStrlcpy 0 rest (rules.maxPath-1) ⟨[],0⟩
      if scratch.2≥rules.maxPath-1 then none
      else
        match scanComponents rules scratch.1.contents [] [] with
        | none => none
        | some components =>
          some (guacStrljoin 1 components [rules.separator] (rules.maxPath-1)
            ⟨[rules.separator],1⟩).1
    else none

/-! ## The components -/

/-- The components of a path, after its leading slash, that are left when it is
resolved. -/
def components (path : List UInt8) : List (List UInt8) :=
  resolve 0x2E ((path.drop 1).splitOnP isSeparator)

/-- Every component that is left names an entry. -/
theorem names_components (path : List UInt8) : ∀ c∈components path, Names 0x2E isSeparator c :=
  names_resolve fun _ hc b hb => (of_mem_splitOnP hc b hb).2

/-- Joined components that name entries have none that stands for a parent. -/
theorem not_parent_join {a : UInt8} (ha : isSeparator a=true) {names : List (List UInt8)}
    (h : ∀ c∈names, Names 0x2E isSeparator c) :
    ∀ c∈(join a names).splitOnP isSeparator, c≠[0x2E,0x2E] := by
  by_cases hne : names=[]
  · simp [hne]
  · rw [splitOnP_join ha hne fun c hc => (h c hc).whole]
    exact fun c hc => (h c hc).ne_parent

variable {path : List UInt8} {rules : PathRules} {before : List (List UInt8)}

/-- A separator in front adds none that does. -/
theorem not_parent_cons {a : UInt8} (ha : isSeparator a=true)
    (h : ∀ c∈path.splitOnP isSeparator, c≠[0x2E,0x2E]) :
    ∀ c∈(a::path).splitOnP isSeparator, c≠[0x2E,0x2E] := by
  rw [splitOnP_cons_eq_if_modifyHead,if_pos ha]
  exact forall_mem_cons.mpr ⟨by simp,h⟩

/-- A component that ends is resolved, within the depth. -/
theorem endComponent_some {after : List (List UInt8)} {current : List UInt8}
    (h : endComponent rules before current=some after) :
    after=resolveStep 0x2E before current ∧
      (before.length≤rules.maxDepth → after.length≤rules.maxDepth) := by
  unfold endComponent at h
  unfold resolveStep
  split_ifs at h with hparent hempty hname hdeep
  · cases h
    simp only [hparent,if_true,length_dropLast,true_and]
    omega
  · cases h
    have hnil : before=[] := length_eq_zero_iff.mp (by omega)
    simp [hparent,hnil]
  · cases h
    have hnot : ¬(current=[0x2E] ∨ current=[]) := not_or.mpr hname
    simp only [hparent,hnot,if_false,length_append,length_singleton,true_and]
    omega
  · cases h
    have hself : current=[0x2E] ∨ current=[] := by
      by_contra hnot
      exact hname (not_or.mp hnot)
    simp [hparent,hself]

/-- A component that finds room is ended. -/
theorem endComponent_isSome (h : before.length<rules.maxDepth) (current : List UInt8) :
    (endComponent rules before current).isSome := by
  unfold endComponent
  split_ifs
  · rfl
  · rfl
  · omega
  · rfl
  · rfl

@[simp]
theorem modifyHead_self (parts : List (List UInt8)) :
    parts.modifyHead (fun part => part)=parts := by
  cases parts <;> rfl

/-- The loop ends the components one after the other. -/
theorem scanComponents_eq (h : ∀ b∈path, isSeparator b=false → rules.refused b=false)
    (current : List UInt8) (before : List (List UInt8)) :
    scanComponents rules path current before=
      ((path.splitOnP isSeparator).modifyHead (current ++ ·)).foldlM (endComponent rules)
        before := by
  induction path generalizing current before with
  | nil => simp [scanComponents]
  | cons c path ih =>
    have hrest := ih fun b hb => h b (mem_cons_of_mem _ hb)
    rw [scanComponents,splitOnP_cons_eq_if_modifyHead]
    by_cases hc : isSeparator c=true
    · simp only [hc,if_true,modifyHead_cons,append_nil,foldlM_cons]
      cases endComponent rules before current with
      | none => rfl
      | some after =>
        simpa using hrest [] after
    · have hrefused := h c (mem_cons_self ..) (Bool.eq_false_iff.mpr hc)
      simp only [hc,hrefused,if_false,Bool.false_eq_true,hrest,modifyHead_modifyHead]
      congr 2
      funext rest
      simp

/-- What the loop goes through is not refused. -/
theorem not_refused_of_scanComponents {current : List UInt8} {after : List (List UInt8)}
    (h : scanComponents rules path current before=some after) :
    ∀ b∈path, isSeparator b=false → rules.refused b=false := by
  induction path generalizing current before with
  | nil => simp
  | cons c path ih =>
    rw [scanComponents] at h
    split_ifs at h with hc hrefused
    · cases hend : endComponent rules before current with
      | none => simp [hend] at h
      | some next =>
        rw [hend] at h
        intro b hb hnot
        rcases mem_cons.mp hb with rfl | hb
        · simp [hc] at hnot
        · exact ih h b hb hnot
    · intro b hb hnot
      rcases mem_cons.mp hb with rfl | hb
      · exact Bool.eq_false_iff.mpr hrefused
      · exact ih h b hb hnot

/-- Components are resolved one after another. -/
theorem foldlM_endComponent_some {parts after : List (List UInt8)}
    (h : parts.foldlM (endComponent rules) before=some after) :
    after=parts.foldl (resolveStep 0x2E) before ∧
      (before.length≤rules.maxDepth → after.length≤rules.maxDepth) := by
  induction parts generalizing before with
  | nil =>
    cases h
    exact ⟨rfl,id⟩
  | cons part parts ih =>
    rw [foldlM_cons] at h
    cases hend : endComponent rules before part with
    | none => simp [hend] at h
    | some next =>
      have hnext := endComponent_some hend
      have hrest := ih (by simpa [hend] using h)
      rw [hnext.1] at hrest
      exact ⟨hrest.1,fun hbefore => hrest.2 (hnext.1 ▸ hnext.2 hbefore)⟩

/-- Components that find room are all ended. -/
theorem foldlM_endComponent_isSome {parts : List (List UInt8)}
    (h : before.length+parts.length≤rules.maxDepth) :
    (parts.foldlM (endComponent rules) before).isSome := by
  induction parts generalizing before with
  | nil => rfl
  | cons part parts ih =>
    rw [length_cons] at h
    obtain ⟨next,hend⟩ := Option.isSome_iff_exists.mp
      (endComponent_isSome (by omega : before.length<rules.maxDepth) part)
    have hlength := (foldl_resolveStep_sublist 0x2E [part] before).length_le
    simp only [foldl_cons,foldl_nil,←(endComponent_some hend).1,length_append,
      length_singleton] at hlength
    simpa [hend] using ih (by omega : next.length+parts.length≤rules.maxDepth)

/-- Components are ended until a leading part of them leaves too many. -/
theorem foldlM_endComponent_eq_none_iff {parts : List (List UInt8)}
    (h : before.length≤rules.maxDepth) :
    parts.foldlM (endComponent rules) before=none ↔ ∃ front, front <+: parts ∧
        rules.maxDepth<(front.foldl (resolveStep 0x2E) before).length := by
  induction parts generalizing before with
  | nil => simpa using h
  | cons part parts ih =>
    have hstep : (∃ front, front <+: part::parts ∧
        rules.maxDepth<(front.foldl (resolveStep 0x2E) before).length) ↔
        ∃ front, front <+: parts ∧ rules.maxDepth<
          (front.foldl (resolveStep 0x2E) (resolveStep 0x2E before part)).length := by
      simp only [prefix_cons_iff]
      constructor
      · rintro ⟨front,rfl | ⟨front,rfl,hfront⟩,hdeep⟩
        · exact absurd hdeep (Nat.not_lt.mpr h)
        · exact ⟨front,hfront,hdeep⟩
      · rintro ⟨front,hfront,hdeep⟩
        exact ⟨part::front,.inr ⟨front,rfl,hfront⟩,hdeep⟩
    rw [hstep,foldlM_cons]
    cases hend : endComponent rules before part with
    | none =>
      refine iff_of_true rfl ⟨[],List.nil_prefix,?_⟩
      unfold endComponent at hend
      split_ifs at hend with hparent hempty hname hdeep
      have hnot : ¬(part=[0x2E] ∨ part=[]) := not_or.mpr hname
      simp only [foldl_nil,resolveStep,hparent,hnot,if_false,length_append,
        length_singleton]
      omega
    | some next =>
      obtain ⟨hnext,hlength⟩ := endComponent_some hend
      rw [←hnext]
      exact ih (hlength h)

/-- What the loop finds are the components that are left. -/
theorem scanComponents_some {rest : List UInt8} {found : List (List UInt8)}
    (h : scanComponents rules rest [] []=some found) :
    found=resolve 0x2E (rest.splitOnP isSeparator) ∧ found.length≤rules.maxDepth := by
  rw [scanComponents_eq (not_refused_of_scanComponents h)] at h
  have hfound := foldlM_endComponent_some h
  exact ⟨by simpa [resolve] using hfound.1,hfound.2 (Nat.zero_le _)⟩

/-- Components that name entries and are not too many are found again. -/
theorem scanComponents_join {names : List (List UInt8)}
    (hnames : ∀ c∈names, Names 0x2E isSeparator c) (hlength : names.length≤rules.maxDepth)
    (hallowed : ∀ c∈names, ∀ b∈c, rules.refused b=false) :
    scanComponents rules (join rules.separator names) [] []=some names := by
  have hjoined : ∀ b∈join rules.separator names, isSeparator b=false → rules.refused b=false := by
    intro b hb hnot
    rcases mem_join hb with rfl | ⟨c,hc,hbc⟩
    · simp [rules.separates] at hnot
    · exact hallowed c hc b hbc
  have hparts : ((join rules.separator names).splitOnP isSeparator).length≤rules.maxDepth := by
    by_cases hne : names=[]
    · simpa [hne] using Nat.succ_le_of_lt rules.deep
    · rwa [splitOnP_join rules.separates hne fun c hc => (hnames c hc).whole]
  have hroom : ([] : List (List UInt8)).length+
      ((join rules.separator names).splitOnP isSeparator).length≤rules.maxDepth := by
    simpa using hparts
  obtain ⟨found,hfound⟩ := Option.isSome_iff_exists.mp (foldlM_endComponent_isSome hroom)
  have hscan : scanComponents rules (join rules.separator names) [] []=some found := by
    rw [scanComponents_eq hjoined]
    simpa using hfound
  rw [hscan,(scanComponents_some hscan).1,resolve_join rules.separates hnames]

/-! ## The normalised path -/

/-- A separator, and a text that fits behind it. -/
theorem normalizePath_cons {first : UInt8} {rest : List UInt8} :
    normalizePath rules (first::rest)=if isSeparator first=true ∧ rest.length<rules.maxPath-1 then
        (scanComponents rules rest [] []).map fun components =>
          (guacStrljoin 1 components [rules.separator] (rules.maxPath-1) ⟨[rules.separator],1⟩).1
      else none := by
  have hroomy := rules.roomy
  have hcopied := holds_guacStrlcpy (by omega : 0<rules.maxPath-1)
    (⟨by simp,by simp⟩ : Holds [] [] (rules.maxPath-1) ⟨[],0⟩) rest
  simp only [length_nil,Nat.add_zero,Nat.sub_zero,nil_append] at hcopied
  simp only [normalizePath,guacStrlcpy_length]
  by_cases hfits : rest.length<rules.maxPath-1
  · rw [hcopied.whole hfits]
    simp only [hfits,Nat.not_le.mpr hfits,if_false,and_true,nil_append]
    split_ifs
    · cases scanComponents rules rest [] [] <;> rfl
    · rfl
  · simp [hfits,Nat.not_lt.mp hfits]

/-- A path that fits is refused if it is relative, contains a byte that is refused, or is too
deep. -/
theorem normalizePath_eq_none_iff (h : path.length<rules.maxPath) :
    normalizePath rules path=none ↔ (∀ first∈path.head?, isSeparator first=false) ∨
      (∃ b∈path.drop 1, isSeparator b=false ∧ rules.refused b=true) ∨
      ∃ parts, parts <+: (path.drop 1).splitOnP isSeparator ∧
        rules.maxDepth<(resolve 0x2E parts).length := by
  cases path with
  | nil => simp [normalizePath]
  | cons first rest =>
    rw [length_cons] at h
    rw [normalizePath_cons]
    by_cases hfirst : isSeparator first=true
    case neg => simp [hfirst]
    rw [if_pos ⟨hfirst,by omega⟩,Option.map_eq_none_iff]
    simp only [List.head?_cons,Option.mem_some_iff,forall_eq',hfirst,Bool.true_eq_false,
      false_or,drop_succ_cons,drop_zero]
    by_cases hrefused : ∃ b∈rest, isSeparator b=false ∧ rules.refused b=true
    · refine iff_of_true (Option.eq_none_iff_forall_ne_some.mpr fun found hscan => ?_)
        (.inl hrefused)
      obtain ⟨b,hb,hnot,hbad⟩ := hrefused
      exact absurd hbad (by simp [not_refused_of_scanComponents hscan b hb hnot])
    · have hallowed : ∀ b∈rest, isSeparator b=false → rules.refused b=false :=
        fun b hb hnot => Bool.eq_false_iff.mpr fun hbad => hrefused ⟨b,hb,hnot,hbad⟩
      rw [scanComponents_eq hallowed,or_iff_right hrefused]
      have hdeep : (rest.splitOnP isSeparator).foldlM (endComponent rules) []=none ↔ _ :=
        foldlM_endComponent_eq_none_iff (Nat.zero_le _)
      simpa [resolve] using hdeep

/-- A path of one component is refused only for its bytes. -/
theorem normalizePath_component_eq_none_iff {a : UInt8} (ha : isSeparator a=true)
    {component : List UInt8} (hwhole : ∀ c∈component, isSeparator c=false)
    (h : (a::component).length<rules.maxPath) :
    normalizePath rules (a::component)=none ↔ ∃ c∈component, rules.refused c=true := by
  have hdeep : ¬∃ parts, parts <+: (component.splitOnP isSeparator) ∧
      rules.maxDepth<(resolve 0x2E parts).length := by
    rintro ⟨parts,hparts,hdeep⟩
    rw [splitOnP_eq_singleton fun c hc => by simp [hwhole c hc]] at hparts
    have hroom := rules.deep
    have hlength := hparts.length_le
    have hresolved := (resolve_sublist 0x2E parts).length_le
    rw [length_singleton] at hlength
    omega
  rw [normalizePath_eq_none_iff h,drop_succ_cons,drop_zero,or_iff_left hdeep]
  simp only [List.head?_cons,Option.mem_some_iff,forall_eq',ha,Bool.true_eq_false,false_or]
  exact exists_congr fun c => and_congr_right fun hc => and_iff_right (hwhole c hc)

/-- What is normalised is the leading separator and the components that are left, held as
a whole within the buffer. -/
theorem normalizePath_some {normalized : StringBuffer}
    (h : normalizePath rules path=some normalized) :
    normalized.contents=rules.separator::join rules.separator (components path) ∧
      normalized.written≤rules.maxPath ∧ normalized.contents.length<rules.maxPath := by
  have hroomy := rules.roomy
  cases path with
  | nil => simp [normalizePath] at h
  | cons first rest =>
    rw [normalizePath_cons] at h
    split_ifs at h with hfits
    obtain ⟨found,hscan,rfl⟩ := Option.map_eq_some_iff.mp h
    have hcomponents : found=components (first::rest) := (scanComponents_some hscan).1
    have hjoin := holds_guacStrljoin (by omega : 0<rules.maxPath-1)
      (⟨by simp,by simp⟩ : Holds [rules.separator] [] (rules.maxPath-1)
        ⟨[rules.separator],1⟩) rules.separator found
    have hlength : (join rules.separator found).length≤rest.length := by
      rw [hcomponents]
      exact length_join_resolve rules.separator rest
    have hwritten := hjoin.written
    have hcontents := hjoin.whole (by omega)
    rw [length_singleton] at hwritten hcontents
    refine ⟨by rw [hcontents,←hcomponents,singleton_append],by omega,?_⟩
    rw [hcontents,length_append,length_singleton]
    omega

/-- A normalised path stays as it is when it is normalised again. -/
theorem normalizePath_normalized {normalized : StringBuffer}
    (h : normalizePath rules path=some normalized) :
    ∃ again, normalizePath rules normalized.contents=some again ∧
      again.contents=normalized.contents := by
  obtain ⟨hcontents,-,hlength⟩ := normalizePath_some h
  cases path with
  | nil => simp [normalizePath] at h
  | cons first rest =>
    rw [normalizePath_cons] at h
    split_ifs at h with hfits
    obtain ⟨found,hscan,-⟩ := Option.map_eq_some_iff.mp h
    obtain ⟨hfound,hdepth⟩ := scanComponents_some hscan
    have hcomponents : components (first::rest)=found := hfound.symm
    have hnames := names_components (first::rest)
    rw [hcomponents] at hcontents hnames
    have hsublist := resolve_sublist 0x2E (rest.splitOnP isSeparator)
    have hallowed : ∀ c∈found, ∀ b∈c, rules.refused b=false := by
      intro c hc b hb
      have hmem := (of_mem_splitOnP (hsublist.subset (hfound ▸ hc)) b hb).1
      exact not_refused_of_scanComponents hscan b hmem ((hnames c hc).whole b hb)
    have hagain := scanComponents_join hnames hdepth hallowed
    rw [hcontents,length_cons] at hlength
    have hnormal : normalizePath rules normalized.contents=
        some (guacStrljoin 1 found [rules.separator] (rules.maxPath-1)
          ⟨[rules.separator],1⟩).1 := by
      rw [hcontents,normalizePath_cons,if_pos ⟨rules.separates,by omega⟩,hagain]
      rfl
    refine ⟨_,hnormal,?_⟩
    rw [(normalizePath_some hnormal).1,hcontents,components,drop_one,tail_cons,
      resolve_join rules.separates hnames]

end GuacServer.PathNormalization
