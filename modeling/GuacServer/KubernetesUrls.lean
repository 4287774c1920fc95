import GuacServer.StringBuffers
import GuacServer.Unicode

/-!
# URLs of a Kubernetes connection

Names become components of a URL in which all but some characters are escaped. The bytes of a name
are signed chars, so that those from 0x80 on are formatted as negative ints, of whose digits there
is room for two.
-/

namespace GuacServer.KubernetesUrls

open List StringBuffers Unicode

/-- GUAC_KUBERNETES_MAX_ENDPOINT_LENGTH. -/
def guacKubernetesMaxEndpointLength : ℕ := 1024

/-- guac_kubernetes_is_url_safe. -/
def guacKubernetesIsUrlSafe (c : UInt8) : Bool :=
  (0x41≤c && c≤0x5A) || (0x61≤c && c≤0x7A) || (0x30≤c && c≤0x39) || (ascii "-_.!~*'()").contains c

/-- The digit of a value below 16. -/
def hexDigit (value : ℕ) : UInt8 := UInt8.ofNat (if value<10 then 0x30+value else 0x37+value)

/-- A signed char as an unsigned int. -/
def charToUnsigned (c : UInt8) : ℕ := if c<0x80 then c.toNat else 2^32-256+c.toNat

/-- The format "%%%02X". -/
def formatEscape (value : ℕ) : List UInt8 :=
  let digits := (List.range 8).map fun i => hexDigit (value/16^(7-i)%16)
  0x25::if value<256 then digits.drop 6 else digits.dropWhile (· = 0x30)

/-- What snprintf leaves of an escape before the terminator, in four bytes. -/
def escapeByte (c : UInt8) : List UInt8 := (formatEscape (charToUnsigned c)).take 3

/-- The loop of guac_kubernetes_escape_url_component, with the space that remains and what is
stored already. -/
def escapeLoop : List UInt8→ℤ→StringBuffer→ℤ×StringBuffer
  | [], length, output =>
    if length<1 then (1,output)
    else (0,{ output with written := max output.written (output.contents.length+1) })
  | c::str, length, output =>
    let stored := output.contents.length
    if guacKubernetesIsUrlSafe c then
      if length<1 then (1,output)
      else escapeLoop str (length-1) ⟨output.contents++[c],max output.written (stored+1)⟩
    else if length<4 then (1,output)
    else
      escapeLoop str (length-3) ⟨output.contents++escapeByte c,max output.written (stored+4)⟩

/-- guac_kubernetes_escape_url_component. -/
def guacKubernetesEscapeUrlComponent (length : ℤ) (str : List UInt8) : ℤ×StringBuffer :=
  escapeLoop str length ⟨[],0⟩

/-- The names of the namespace, the pod and, if one is given, the container of an endpoint. -/
structure EndpointNames where
  kubernetesNamespace : List UInt8
  kubernetesPod : List UInt8
  kubernetesContainer : Option (List UInt8)

/-- All names have a property. -/
def EndpointNames.all (p : List UInt8→Bool) (names : EndpointNames) : Bool :=
  p names.kubernetesNamespace && p names.kubernetesPod && names.kubernetesContainer.all p

/-- All names are changed. -/
def EndpointNames.map (f : List UInt8→List UInt8) (names : EndpointNames) : EndpointNames :=
  ⟨f names.kubernetesNamespace,f names.kubernetesPod,names.kubernetesContainer.map f⟩

/-- The URL of an endpoint for escaped names. -/
def attachUrl (escaped : EndpointNames) : List UInt8 :=
  ascii "/api/v1/namespaces/" ++ (escaped.kubernetesNamespace++(ascii "/pods/" ++
    (escaped.kubernetesPod++(ascii "/attach?" ++ ((escaped.kubernetesContainer.elim [] fun name =>
      ascii "container=" ++ (name++ascii "&"))++ascii "stdin=true&stdout=true&tty=true")))))

/-- guac_kubernetes_endpoint_attach, for a buffer of the given length: what is returned, and what
is in the buffer if a URL was written. -/
def guacKubernetesEndpointAttach (length : ℕ) (names : EndpointNames) : ℤ×Option (List UInt8) :=
  let escape := guacKubernetesEscapeUrlComponent guacKubernetesMaxEndpointLength
  if names.all fun name => (escape name).1=0 then
    let url := attachUrl (names.map fun name => (escape name).2.contents)
    (if (url.length : ℤ)<length-1 then 0 else 1,some (url.take (length-1)))
  else (1,none)

/-! ## What is read back -/

/-- The value of a digit. -/
def hexValue (c : UInt8) : Option ℕ :=
  if 0x30≤c ∧ c≤0x39 then some (c.toNat-0x30)
  else if 0x41≤c ∧ c≤0x46 then some (c.toNat-0x37)
  else none

/-- Percent-decoding of what has only URL-safe characters and escapes. -/
def percentDecode : List UInt8→Option (List UInt8)
  | [] => some []
  | c::high::low::rest =>
    if guacKubernetesIsUrlSafe c then (percentDecode (high::low::rest)).map (c :: ·)
    else if c=0x25 then do
      let value := 16*(← hexValue high)+(← hexValue low)
      return UInt8.ofNat value::(← percentDecode rest)
    else none
  | c::rest => if guacKubernetesIsUrlSafe c then (percentDecode rest).map (c :: ·) else none

/-- The names in the URL of an endpoint. -/
def namesOf (url : List UInt8) : Option EndpointNames := do
  let rest := url.drop (ascii "/api/v1/namespaces/").length
  let escapedNamespace := rest.takeWhile (· ≠ 0x2F)
  let rest := (rest.drop escapedNamespace.length).drop (ascii "/pods/").length
  let escapedPod := rest.takeWhile (· ≠ 0x2F)
  let query := (rest.drop escapedPod.length).drop (ascii "/attach?").length
  let container ←
    if (ascii "container=").isPrefixOf query then
      (percentDecode ((query.drop (ascii "container=").length).takeWhile (· ≠ 0x26))).map some
    else some none
  return ⟨← percentDecode escapedNamespace,← percentDecode escapedPod,container⟩

/-- What is stored for a byte of a name. -/
def escaped (c : UInt8) : List UInt8 := if guacKubernetesIsUrlSafe c then [c] else escapeByte c

/-- What a byte of a name is read back as. -/
def readBack (c : UInt8) : UInt8 := if c<0x80 then c else 0xFF

/-- All bytes of a name are read back. -/
def isReadBack (str : List UInt8) : Bool := str.all fun c => c<0x80 ∨ c=0xFF

/-- The length of an escaped name. -/
def escapedLength (str : List UInt8) : ℕ :=
  (str.map fun c => if guacKubernetesIsUrlSafe c then 1 else 3).sum

variable {c : UInt8} {str rest : List UInt8} {output : StringBuffer} {length : ℤ}

/-- What is checked for 256 bytes holds of all. -/
theorem forall_byte {p : UInt8→Prop} (h : ∀ n<256, p (UInt8.ofNat n)) (c : UInt8) : p c := by
  rw [←UInt8.ofNat_toNat (x := c)]
  exact h c.toNat c.toNat_lt

theorem length_escaped (c : UInt8) :
    (escaped c).length=if guacKubernetesIsUrlSafe c then 1 else 3 :=
  forall_byte (p := fun c => (escaped c).length=if guacKubernetesIsUrlSafe c then 1 else 3)
    (by decide +kernel) c

/-- An escape has the digits of the byte that is read back. -/
theorem escapeByte_eq (c : UInt8) : escapeByte c=
    [0x25,hexDigit ((readBack c).toNat/16),hexDigit ((readBack c).toNat%16)] :=
  forall_byte (p := fun c => escapeByte c=
    [0x25,hexDigit ((readBack c).toNat/16),hexDigit ((readBack c).toNat%16)])
    (by decide +kernel) c

theorem readBack_of_safe (h : guacKubernetesIsUrlSafe c=true) : readBack c=c :=
  forall_byte (p := fun c => guacKubernetesIsUrlSafe c=true → readBack c=c) (by decide +kernel) c h

/-- What is stored contains nothing that separates names. -/
theorem ne_separator_of_mem_escaped {b : UInt8} (h : b∈escaped c) : b≠0x2F ∧ b≠0x26 := by
  have hall := forall_byte (p := fun c => (escaped c).all fun b => b≠0x2F ∧ b≠0x26)
    (by decide +kernel) c
  exact of_decide_eq_true (all_eq_true.mp hall b h)

theorem hexValue_hexDigit : ∀ value<16, hexValue (hexDigit value)=some value := by
  decide

theorem percentDecode_literal (h : guacKubernetesIsUrlSafe c=true) (rest : List UInt8) :
    percentDecode (c::rest)=(percentDecode rest).map (c :: ·) := by
  match rest with
  | [] | [_] => simp [percentDecode,h]
  | _ :: _ :: _ => rw [percentDecode,if_pos h]

theorem percentDecode_escaped (c : UInt8) (rest : List UInt8) :
    percentDecode (escaped c++rest)=(percentDecode rest).map (readBack c :: ·) := by
  unfold escaped
  split_ifs with hsafe
  · rw [readBack_of_safe hsafe]
    exact percentDecode_literal hsafe rest
  · have hlt := (readBack c).toNat_lt
    have hvalue : 16*((readBack c).toNat/16)+(readBack c).toNat%16=(readBack c).toNat := by
      omega
    rw [escapeByte_eq]
    simp only [cons_append,nil_append]
    rw [percentDecode,if_neg (by decide),if_pos rfl,hexValue_hexDigit _ (by omega),
      hexValue_hexDigit _ (by omega)]
    simp only [Option.bind_eq_bind,Option.bind_some,hvalue,UInt8.ofNat_toNat]
    cases percentDecode rest <;> rfl

/-- A name is decoded to the bytes that are read back. -/
theorem percentDecode_flatMap (str : List UInt8) :
    percentDecode (str.flatMap escaped)=some (str.map readBack) := by
  induction str with
  | nil => rfl
  | cons c str ih =>
    rw [flatMap_cons,percentDecode_escaped,ih]
    rfl

/-- A name is escaped if there is room for it and a terminator, within which all writes are. -/
theorem escapeLoop_spec (str : List UInt8) (length : ℤ) (output : StringBuffer) :
    (escapeLoop str length output).2.written≤
        max output.written (output.contents.length+length.toNat) ∧
      if escapedLength str<length then
        (escapeLoop str length output).1=0 ∧
          (escapeLoop str length output).2.contents=output.contents++str.flatMap escaped
      else (escapeLoop str length output).1=1 := by
  induction str generalizing length output with
  | nil =>
    unfold escapeLoop
    simp only [escapedLength,map_nil,sum_nil,flatMap_nil,append_nil]
    split_ifs <;> simp <;> omega
  | cons c str ih =>
    have hsum : escapedLength (c::str)=
        (if guacKubernetesIsUrlSafe c then 1 else 3)+escapedLength str := sum_cons
    have hlength := length_escaped c
    unfold escaped at hlength
    unfold escapeLoop
    rw [hsum,flatMap_cons,escaped]
    by_cases hsafe : guacKubernetesIsUrlSafe c
    · simp only [hsafe,if_true] at hlength ⊢
      by_cases hshort : length<1
      · rw [if_pos hshort,if_neg (by omega)]
        exact ⟨le_max_left ..,rfl⟩
      · obtain ⟨hwritten,hrest⟩ := ih (length-1)
          ⟨output.contents++[c],max output.written (output.contents.length+1)⟩
        have hiff : ((1+escapedLength str : ℕ) : ℤ)<length ↔ escapedLength str<length-1 := by
          omega
        rw [if_neg hshort]
        simp only [hiff,append_assoc,length_append,hlength] at hwritten hrest ⊢
        exact ⟨by omega,hrest⟩
    · simp only [hsafe,Bool.false_eq_true,if_false] at hlength ⊢
      by_cases hshort : length<4
      · rw [if_pos hshort,if_neg (by omega)]
        exact ⟨le_max_left ..,rfl⟩
      · obtain ⟨hwritten,hrest⟩ := ih (length-3)
          ⟨output.contents++escapeByte c,max output.written (output.contents.length+4)⟩
        have hiff : ((3+escapedLength str : ℕ) : ℤ)<length ↔ escapedLength str<length-3 := by
          omega
        rw [if_neg hshort]
        simp only [hiff,append_assoc,length_append,hlength] at hwritten hrest ⊢
        exact ⟨by omega,hrest⟩

theorem map_readBack_eq_iff : str.map readBack=str ↔ isReadBack str=true := by
  have hbyte : ∀ c, readBack c=c ↔ c<0x80 ∨ c=0xFF :=
    forall_byte (p := fun c => readBack c=c ↔ c<0x80 ∨ c=0xFF) (by decide +kernel)
  have hmap := map_inj_left (l := str) (f := readBack) (g := id)
  rw [map_id] at hmap
  rw [hmap]
  simp [isReadBack,hbyte]

/-- An escaped name lies within its buffer, is whole exactly if it fits with its terminator, and
is decoded to the name. -/
structure Escapes (length : ℤ) (str : List UInt8) : Prop where
  within : (guacKubernetesEscapeUrlComponent length str).2.written≤length.toNat
  status : (guacKubernetesEscapeUrlComponent length str).1=0 ↔ escapedLength str+1≤length
  decoded : (guacKubernetesEscapeUrlComponent length str).1=0 →
    percentDecode (guacKubernetesEscapeUrlComponent length str).2.contents=some str

/-- All writes are within the buffer. -/
theorem written_escapeUrlComponent (length : ℤ) (str : List UInt8) :
    (guacKubernetesEscapeUrlComponent length str).2.written≤length.toNat := by
  have hspec := (escapeLoop_spec str length ⟨[],0⟩).1
  unfold guacKubernetesEscapeUrlComponent
  simpa using hspec

/-- A name that fits is escaped. -/
theorem escapeUrlComponent_of_fits (h : escapedLength str<length) :
    (guacKubernetesEscapeUrlComponent length str).1=0 ∧
      (guacKubernetesEscapeUrlComponent length str).2.contents=str.flatMap escaped := by
  have hspec := (escapeLoop_spec str length ⟨[],0⟩).2
  rw [if_pos h] at hspec
  exact hspec

theorem escapeUrlComponent_of_not_fits (h : ¬escapedLength str<length) :
    (guacKubernetesEscapeUrlComponent length str).1=1 := by
  have hspec := (escapeLoop_spec str length ⟨[],0⟩).2
  rw [if_neg h] at hspec
  exact hspec

theorem escapes_iff (length : ℤ) (str : List UInt8) :
    Escapes length str ↔ (escapedLength str<length → isReadBack str) := by
  have hwithin := written_escapeUrlComponent length str
  rw [←map_readBack_eq_iff]
  by_cases hfits : (escapedLength str : ℤ)<length
  · obtain ⟨hstatus,hcontents⟩ := escapeUrlComponent_of_fits hfits
    have hdecoded := percentDecode_flatMap str
    rw [←hcontents] at hdecoded
    constructor
    · intro h _
      exact Option.some.inj (hdecoded.symm.trans (h.decoded hstatus))
    · intro h
      exact ⟨hwithin,iff_of_true hstatus (by omega),fun _ => by rw [hdecoded,h hfits]⟩
  · have hrefused : (guacKubernetesEscapeUrlComponent length str).1≠0 := by
      rw [escapeUrlComponent_of_not_fits hfits]
      decide
    exact iff_of_true ⟨hwithin,iff_of_false hrefused (by omega),fun h => absurd h hrefused⟩
      fun h => absurd h hfits

/-! ## Endpoints -/

/-- The URL for names is accepted if the escaped names fit and it is shorter by two than the
buffer. -/
def EndpointFits (length : ℕ) (names : EndpointNames) : Prop :=
  names.all (fun name => escapedLength name<guacKubernetesMaxEndpointLength)=true ∧
    (attachUrl (names.map (·.flatMap escaped))).length+1<length

/-- An endpoint is accepted only with a whole URL, from which the names are read back. -/
def Attaches (length : ℕ) (names : EndpointNames) : Prop :=
  (guacKubernetesEndpointAttach length names).1=0→∃ escaped,
    (guacKubernetesEndpointAttach length names).2=some (attachUrl escaped) ∧
      namesOf (attachUrl escaped)=some names

theorem takeWhile_flatMap_escaped {separator : UInt8}
    (h : separator=0x2F ∨ separator=0x26) (str rest : List UInt8) :
    (str.flatMap escaped++separator::rest).takeWhile (· ≠ separator)=str.flatMap escaped := by
  rw [takeWhile_append_of_pos,takeWhile_cons_of_neg (by simp),append_nil]
  intro b hb
  obtain ⟨c,-,hc⟩ := mem_flatMap.mp hb
  have hne := ne_separator_of_mem_escaped hc
  rcases h with rfl | rfl <;> simp [hne]

/-- The names are read back from the URL. -/
theorem namesOf_attachUrl (names : EndpointNames) :
    namesOf (attachUrl (names.map (·.flatMap escaped)))=some (names.map (·.map readBack)) := by
  have hpods (rest : List UInt8) : ascii "/pods/" ++ rest=0x2F::(ascii "pods/" ++ rest) := rfl
  have hattach (rest : List UInt8) : ascii "/attach?" ++ rest=0x2F::(ascii "attach?" ++ rest) := rfl
  have hand (rest : List UInt8) : ascii "&" ++ rest=0x26::rest := rfl
  unfold namesOf attachUrl EndpointNames.map
  cases names.kubernetesContainer with
  | none =>
    simp only [Option.map_none,Option.elim_none,nil_append,drop_left]
    rw [hpods,takeWhile_flatMap_escaped (.inl rfl),drop_left,←hpods,drop_left,
      hattach,takeWhile_flatMap_escaped (.inl rfl),drop_left,←hattach,drop_left,
      if_neg (by decide)]
    simp [percentDecode_flatMap]
  | some name =>
    simp only [Option.map_some,Option.elim_some,append_assoc,drop_left]
    rw [hpods,takeWhile_flatMap_escaped (.inl rfl),drop_left,←hpods,drop_left,
      hattach,takeWhile_flatMap_escaped (.inl rfl),drop_left,←hattach,drop_left,
      if_pos (by simp),drop_left,hand,takeWhile_flatMap_escaped (.inr rfl)]
    simp [percentDecode_flatMap]

theorem EndpointNames.map_inj_left {f g : List UInt8→List UInt8} (names : EndpointNames) :
    names.map f=names.map g ↔ names.all (fun name => f name=g name)=true := by
  unfold EndpointNames.map EndpointNames.all
  cases names.kubernetesContainer <;> simp [and_assoc]

theorem EndpointNames.map_id (names : EndpointNames) : names.map id=names := by
  unfold EndpointNames.map
  simp only [id_eq,Option.map_id]

theorem EndpointNames.all_mono {p q : List UInt8→Bool} (h : ∀ name, p name → q name)
    {names : EndpointNames} (hp : names.all p) : names.all q := by
  unfold EndpointNames.all at hp ⊢
  cases hcontainer : names.kubernetesContainer <;> simp_all

/-- A name is escaped exactly if it fits. -/
theorem escape_eq_zero_iff (name : List UInt8) :
    (guacKubernetesEscapeUrlComponent guacKubernetesMaxEndpointLength name).1=0 ↔
      escapedLength name<guacKubernetesMaxEndpointLength := by
  by_cases hfits : (escapedLength name : ℤ)<guacKubernetesMaxEndpointLength
  · exact iff_of_true (escapeUrlComponent_of_fits hfits).1 (Int.ofNat_lt.mp hfits)
  · rw [escapeUrlComponent_of_not_fits hfits]
    exact iff_of_false (by decide) fun h => hfits (Int.ofNat_lt.mpr h)

/-- A URL is accepted exactly if it fits, and is whole then. -/
theorem endpointAttach_spec (length : ℕ) (names : EndpointNames) :
    ((guacKubernetesEndpointAttach length names).1=0 ↔ EndpointFits length names) ∧
      (EndpointFits length names→(guacKubernetesEndpointAttach length names).2=
        some (attachUrl (names.map (·.flatMap escaped)))) := by
  unfold guacKubernetesEndpointAttach EndpointFits
  simp only [escape_eq_zero_iff]
  by_cases hall : names.all (fun name => escapedLength name<guacKubernetesMaxEndpointLength)
  · have hstored : names.map (fun name => (guacKubernetesEscapeUrlComponent
        guacKubernetesMaxEndpointLength name).2.contents)=names.map (·.flatMap escaped) := by
      rw [EndpointNames.map_inj_left]
      refine EndpointNames.all_mono (fun name hname => ?_) hall
      have hfits := Int.ofNat_lt.mpr (of_decide_eq_true hname)
      exact decide_eq_true (escapeUrlComponent_of_fits hfits).2
    rw [if_pos hall,hstored]
    by_cases hlength : (attachUrl (names.map (·.flatMap escaped))).length+1<length
    · rw [if_pos (by omega),take_of_length_le (by omega)]
      exact ⟨iff_of_true rfl ⟨hall,hlength⟩,fun _ => rfl⟩
    · rw [if_neg (by omega)]
      exact ⟨iff_of_false one_ne_zero fun h => hlength h.2,fun h => absurd h.2 hlength⟩
  · rw [if_neg hall]
    exact ⟨iff_of_false one_ne_zero fun h => hall h.1,fun h => absurd h.1 hall⟩

theorem attaches_iff (length : ℕ) (names : EndpointNames) :
    Attaches length names ↔ (EndpointFits length names → names.all isReadBack) := by
  obtain ⟨hstatus,hurl⟩ := endpointAttach_spec length names
  have hread := namesOf_attachUrl names
  have hnames : names.map (·.map readBack)=names ↔ names.all isReadBack=true := by
    have hid := names.map_inj_left (f := (·.map readBack)) (g := id)
    simpa only [EndpointNames.map_id,id_eq,map_readBack_eq_iff,Bool.decide_eq_true] using hid
  unfold Attaches
  rw [hstatus,←hnames]
  refine forall_congr' fun hfits => ?_
  rw [hurl hfits]
  constructor
  · rintro ⟨_,hsame,hback⟩
    rw [←Option.some.inj hsame,hread] at hback
    exact Option.some.inj hback
  · intro h
    exact ⟨_,rfl,hread.trans (congrArg some h)⟩

/-- Names are read back from what is stored exactly if those that fit have no byte from 0x80 to
0xFE, of which the sign would fill an escape. -/
theorem reversible_iff (outputLength : ℤ) (str : List UInt8) (length : ℕ) (names : EndpointNames) :
    (Escapes outputLength str ↔ (escapedLength str<outputLength → isReadBack str)) ∧
      (Attaches length names ↔ (EndpointFits length names → names.all isReadBack)) :=
  ⟨escapes_iff outputLength str,attaches_iff length names⟩

/-- An "é" is read back as two bytes 0xFF. -/
theorem not_reversible : ¬((∀ outputLength str, Escapes outputLength str) ∧
    ∀ length names, Attaches length names) := by
  rintro ⟨h,-⟩
  have hdecoded := (h 16 [0xC3,0xA9]).decoded (by decide +kernel)
  revert hdecoded
  decide +kernel

end GuacServer.KubernetesUrls
