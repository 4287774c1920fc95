import GuacServer.DecimalNumerals

/-!
# Sizes of the RDP display

The size that a client asks for is scaled to the resolution of the session and fitted into what a
display update may ask for. All of it is done in ints, whose overflow is undefined as division by
zero is.
-/

namespace GuacServer.DisplaySizes

open DecimalNumerals

/-- GUAC_RDP_DISP_MIN_SIZE. -/
def guacRdpDispMinSize : ℤ := 200

/-- GUAC_RDP_DISP_MAX_SIZE. -/
def guacRdpDispMaxSize : ℤ := 8192

/-- GUAC_RDP_DISP_UPDATE_INTERVAL. -/
def guacRdpDispUpdateInterval : ℤ := 500

/-- A quotient of ints. -/
def quotient (a b : ℤ) : Option ℤ := if b=0 then none else checked (a.tdiv b)

/-- guac_rdp_resize_method. -/
inductive ResizeMethod where
  | none | displayUpdate | reconnect
  deriving DecidableEq

/-- guac_rdp_disp, with what was sent along the display update channel. -/
structure Disp where
  /-- The display update plugin is connected. -/
  disp : Bool
  lastRequest : ℤ
  requestedWidth : ℤ
  requestedHeight : ℤ
  reconnectNeeded : Bool
  layouts : List (ℤ×ℤ)

/-- guac_rdp_settings, as far as sizes are concerned. -/
structure Settings where
  width : ℤ
  height : ℤ
  resolution : ℤ
  resizeMethod : ResizeMethod

/-- guac_rdp_disp_fit, as the new values of both dimensions. -/
def guacRdpDispFit (a b : ℤ) : Option (ℤ×ℤ) :=
  if a<guacRdpDispMinSize then do
    let adjusted ← quotient (← checked (b*guacRdpDispMinSize)) a
    some (guacRdpDispMinSize,if adjusted > guacRdpDispMaxSize then guacRdpDispMaxSize else adjusted)
  else if a > guacRdpDispMaxSize then do
    let adjusted ← quotient (← checked (b*guacRdpDispMaxSize)) a
    some (guacRdpDispMaxSize,if adjusted<guacRdpDispMinSize then guacRdpDispMinSize else adjusted)
  else some (a,b)

/-- guac_rdp_disp_update_size, with the size of the connection, if there is one. -/
def guacRdpDispUpdateSize (rdpInst : Option (ℤ×ℤ)) (now : ℤ) (disp : Disp)
    (settings : Settings) : Disp×Settings :=
  let width := disp.requestedWidth
  let height := disp.requestedHeight
  if width=0 ∨ height=0 then (disp,settings)
  else if now-disp.lastRequest≤guacRdpDispUpdateInterval then (disp,settings)
  else if rdpInst=some (width,height) then (disp,settings)
  else
    let disp := { disp with lastRequest := now }
    match settings.resizeMethod with
    | .reconnect =>
      ({ disp with reconnectNeeded := true },{ settings with width := width, height := height })
    | .displayUpdate =>
      (if disp.disp then { disp with layouts := disp.layouts++[(width,height)] } else disp,settings)
    | .none => (disp,settings)

/-- guac_rdp_disp_set_size. -/
def guacRdpDispSetSize (rdpInst : Option (ℤ×ℤ)) (now width height : ℤ) (disp : Disp)
    (settings : Settings) : Option (Disp×Settings) := do
  let (width,height) ← guacRdpDispFit width height
  let (height,width) ← guacRdpDispFit height width
  let width := if width.tmod 2=1 then width-1 else width
  some (guacRdpDispUpdateSize rdpInst now
    { disp with requestedWidth := width, requestedHeight := height } settings)

/-- guac_rdp_user_size_handler, for a user with the given optimal resolution. -/
def guacRdpUserSizeHandler (rdpInst : Option (ℤ×ℤ)) (now optimalResolution width height : ℤ)
    (disp : Disp) (settings : Settings) : Option (Disp×Settings) := do
  let width ← quotient (← checked (width*settings.resolution)) optimalResolution
  let height ← quotient (← checked (height*settings.resolution)) optimalResolution
  guacRdpDispSetSize rdpInst now width height disp settings

/-- What is requested may be asked for by a display update. -/
def Legal (disp : Disp) : Prop :=
  (guacRdpDispMinSize≤disp.requestedWidth ∧ disp.requestedWidth≤guacRdpDispMaxSize ∧
    disp.requestedWidth%2=0) ∧
  guacRdpDispMinSize≤disp.requestedHeight ∧ disp.requestedHeight≤guacRdpDispMaxSize

/-- Both dimensions of a size that can be fitted are positive, or the width is not less than the
least one, or both are negative and the height is not much less in amount; and where a dimension
is adjusted, it can be multiplied by the bound of the other. -/
def Fittable (width height : ℤ) : Prop :=
  (width<guacRdpDispMinSize→(checked (height*guacRdpDispMinSize)).isSome ∧
    (0<width ∧ 0<height ∨ width<0 ∧ height*guacRdpDispMinSize≤width)) ∧
  (guacRdpDispMinSize≤width ∧ width≤guacRdpDispMaxSize→0<height) ∧
  (guacRdpDispMaxSize<width→(checked (height*guacRdpDispMaxSize)).isSome)

variable {a b width height : ℤ} {fitted : ℤ×ℤ}

/-- A value is an int exactly if it is in the range of one. -/
theorem isSome_checked {value : ℤ} : (checked value).isSome ↔ -(2^31)≤value ∧ value<2^31 := by
  unfold checked
  split_ifs with hrange
  · exact iff_of_true rfl hrange
  · exact iff_of_false nofun hrange

/-- A quotient is truncated, and fits into an int. -/
theorem quotient_eq_some {result : ℤ} : quotient a b=some result ↔
    b≠0 ∧ (-(2^31)≤a.tdiv b ∧ a.tdiv b<2^31) ∧ a.tdiv b=result := by
  unfold quotient
  rw [Option.ite_none_left_eq_some,checked_eq_some]

/-- A quotient is positive if it is one of numbers of the same sign, the divisor not greater in
amount. -/
theorem tdiv_pos_iff : 0<a.tdiv b ↔ 0<b ∧ b≤a ∨ b<0 ∧ a≤b := by
  have hpos : ∀ {n d : ℤ}, 0<d→(0<n.tdiv d ↔ d≤n) := by
    intro n d hd
    rcases lt_or_ge n 0 with hn | hn
    · have hneg : 0≤(-n).tdiv d := Int.tdiv_nonneg (by omega) (by omega)
      rw [Int.neg_tdiv] at hneg
      omega
    · have hone := Int.le_ediv_iff_mul_le (a := 1) (b := n) hd
      rw [Int.tdiv_eq_ediv_of_nonneg hn]
      omega
  rcases lt_trichotomy b 0 with hb | rfl | hb
  · have hneg := hpos (n := -a) (d := -b) (by omega)
    rw [Int.neg_tdiv_neg] at hneg
    omega
  · simp
  · have hquotient := hpos (n := a) hb
    omega

/-- Any positive height is fitted to a width that is in the range. -/
theorem fit_height (hwidth : 200≤width ∧ width≤8192) (hpos : 0<height) :
    ∃ fitted, guacRdpDispFit height width=some fitted ∧
      (200≤fitted.1 ∧ fitted.1≤8192) ∧ 200≤fitted.2 ∧ fitted.2≤8192 := by
  unfold guacRdpDispFit guacRdpDispMinSize guacRdpDispMaxSize
  split_ifs with hsmall hlarge
  · have hle := (Int.le_ediv_iff_mul_le (a := 200) (b := width*200) hpos).mpr (by omega)
    have hself := Int.tdiv_le_self (a := width*200) height (by omega)
    rw [←Int.tdiv_eq_ediv_of_nonneg (by omega)] at hle
    simp only [Option.bind_eq_bind,Option.bind_eq_some_iff,checked_eq_some,quotient_eq_some]
    refine ⟨_,⟨_,⟨⟨by omega,by omega⟩,rfl⟩,_,⟨by omega,⟨by omega,by omega⟩,rfl⟩,rfl⟩,
      ⟨le_rfl,by omega⟩,?_⟩
    dsimp only
    split_ifs <;> omega
  · have hle := Int.ediv_le_of_le_mul (a := width*8192) (b := 8192) (c := height) (by omega)
      (by omega)
    have hnonneg := Int.tdiv_nonneg (a := width*8192) (b := height) (by omega) (by omega)
    rw [←Int.tdiv_eq_ediv_of_nonneg (by omega)] at hle
    simp only [Option.bind_eq_bind,Option.bind_eq_some_iff,checked_eq_some,quotient_eq_some]
    refine ⟨_,⟨_,⟨⟨by omega,by omega⟩,rfl⟩,_,⟨by omega,⟨by omega,by omega⟩,rfl⟩,rfl⟩,
      ⟨by omega,le_rfl⟩,?_⟩
    dsimp only
    split_ifs <;> omega
  · exact ⟨_,rfl,⟨by omega,by omega⟩,hwidth⟩

/-- What is fitted is in the range. -/
theorem fit_range (h : guacRdpDispFit a b=some fitted) : 200≤fitted.1 ∧ fitted.1≤8192 := by
  unfold guacRdpDispFit guacRdpDispMinSize guacRdpDispMaxSize at h
  split_ifs at h with hsmall hlarge
  · simp only [Option.bind_eq_bind,Option.bind_eq_some_iff] at h
    obtain ⟨_,-,_,-,hfitted⟩ := h
    cases hfitted
    exact ⟨le_rfl,by omega⟩
  · simp only [Option.bind_eq_bind,Option.bind_eq_some_iff] at h
    obtain ⟨_,-,_,-,hfitted⟩ := h
    cases hfitted
    exact ⟨by omega,le_rfl⟩
  · cases h
    exact ⟨by omega,by omega⟩

/-- The width is fitted and leaves a positive height. -/
theorem fit_width_iff :
    (∃ fitted, guacRdpDispFit width height=some fitted ∧ 0<fitted.2) ↔ Fittable width height := by
  unfold guacRdpDispFit Fittable guacRdpDispMinSize guacRdpDispMaxSize
  have habs := fun n : ℤ => Int.natAbs_tdiv_le_natAbs n width
  split_ifs with hsmall hlarge
  · have hsign := tdiv_pos_iff (a := height*200) (b := width)
    have hself := habs (height*200)
    simp only [Option.bind_eq_bind,Option.bind_eq_some_iff,checked_eq_some,quotient_eq_some,
      isSome_checked]
    constructor
    · rintro ⟨_,⟨_,⟨hrange,rfl⟩,_,⟨hne,-,rfl⟩,hfitted⟩,hpos⟩
      cases hfitted
      dsimp only at hpos
      refine ⟨fun _ => ⟨hrange,?_⟩,by omega,by omega⟩
      split_ifs at hpos <;> omega
    · rintro ⟨hfits,-,-⟩
      obtain ⟨hrange,hsame⟩ := hfits hsmall
      refine ⟨_,⟨_,⟨hrange,rfl⟩,_,⟨by omega,⟨by omega,by omega⟩,rfl⟩,rfl⟩,?_⟩
      dsimp only
      split_ifs <;> omega
  · have hsign := tdiv_pos_iff (a := height*8192) (b := width)
    have hself := habs (height*8192)
    simp only [Option.bind_eq_bind,Option.bind_eq_some_iff,checked_eq_some,quotient_eq_some,
      isSome_checked]
    constructor
    · rintro ⟨_,⟨_,⟨hrange,rfl⟩,-⟩,-⟩
      exact ⟨by omega,by omega,fun _ => hrange⟩
    · rintro ⟨-,-,hfits⟩
      refine ⟨_,⟨_,⟨hfits hlarge,rfl⟩,_,⟨by omega,⟨by omega,by omega⟩,rfl⟩,rfl⟩,?_⟩
      dsimp only
      split_ifs <;> omega
  · simp only [Option.some.injEq,exists_eq_left']
    exact ⟨fun hpos => ⟨by omega,fun _ => hpos,by omega⟩,fun h => h.2.1 (by omega)⟩

/-- An update leaves the size that is requested. -/
theorem updateSize_requested (rdpInst : Option (ℤ×ℤ)) (now : ℤ) (disp : Disp)
    (settings : Settings) :
    Legal (guacRdpDispUpdateSize rdpInst now disp settings).1 ↔ Legal disp := by
  unfold guacRdpDispUpdateSize
  dsimp only
  cases settings.resizeMethod <;> split_ifs <;> rfl

/-- A size is set to a legal one exactly if it can be fitted. -/
theorem legal_setSize_iff (rdpInst : Option (ℤ×ℤ)) (now width height : ℤ) (disp : Disp)
    (settings : Settings) :
    (∃ result, guacRdpDispSetSize rdpInst now width height disp settings=some result ∧
      Legal result.1) ↔ Fittable width height := by
  rw [←fit_width_iff]
  unfold guacRdpDispSetSize
  simp only [Option.bind_eq_bind,Option.bind_eq_some_iff]
  constructor
  · rintro ⟨_,⟨⟨width',height'⟩,hfirst,⟨height'',width''⟩,hsecond,hresult⟩,hlegal⟩
    cases hresult
    rw [updateSize_requested] at hlegal
    have hrange := fit_range hfirst
    unfold Legal guacRdpDispMinSize guacRdpDispMaxSize at hlegal
    dsimp only at hlegal hrange
    have hpos : 0<width'' := by split_ifs at hlegal <;> omega
    obtain ⟨hsmall,hbetween,-⟩ := fit_width_iff.mp ⟨_,hsecond,hpos⟩
    simp only [guacRdpDispMinSize,guacRdpDispMaxSize] at hsmall hbetween
    refine ⟨_,hfirst,?_⟩
    dsimp only
    omega
  · rintro ⟨⟨width',height'⟩,hfirst,hpos⟩
    obtain ⟨⟨height'',width''⟩,hsecond,hheight,hwidth⟩ := fit_height (fit_range hfirst) hpos
    refine ⟨_,⟨_,hfirst,_,hsecond,rfl⟩,(updateSize_requested ..).mpr ?_⟩
    unfold Legal guacRdpDispMinSize guacRdpDispMaxSize
    dsimp only at hheight hwidth ⊢
    rw [Int.tmod_eq_emod_of_nonneg (by omega)]
    split_ifs <;> omega

/-- The size that a client asks for can be scaled in ints, and then be fitted. -/
def Scales (resolution optimalResolution width height : ℤ) : Prop :=
  ((checked (width*resolution)).isSome ∧ (checked (height*resolution)).isSome) ∧
    optimalResolution≠0 ∧ (checked ((width*resolution).tdiv optimalResolution)).isSome ∧
    (checked ((height*resolution).tdiv optimalResolution)).isSome ∧
    Fittable ((width*resolution).tdiv optimalResolution)
      ((height*resolution).tdiv optimalResolution)

/-- What a client asks for ends up as a legal size, without an overflow or a division by zero,
exactly if it can be scaled and fitted. -/
theorem sizes_legal_iff (rdpInst : Option (ℤ×ℤ)) (now optimalResolution width height : ℤ)
    (disp : Disp) (settings : Settings) :
    (∃ result, guacRdpUserSizeHandler rdpInst now optimalResolution width height disp settings=
      some result ∧ Legal result.1) ↔
      Scales settings.resolution optimalResolution width height := by
  unfold guacRdpUserSizeHandler Scales
  rw [←legal_setSize_iff rdpInst now _ _ disp settings]
  simp only [Option.bind_eq_bind,Option.bind_eq_some_iff,checked_eq_some,quotient_eq_some,
    isSome_checked]
  constructor
  · rintro ⟨result,⟨_,⟨hwidth,rfl⟩,_,⟨hne,hwidth',rfl⟩,_,⟨hheight,rfl⟩,_,
      ⟨-,hheight',rfl⟩,hset⟩,hlegal⟩
    exact ⟨⟨hwidth,hheight⟩,hne,hwidth',hheight',result,hset,hlegal⟩
  · rintro ⟨⟨hwidth,hheight⟩,hne,hwidth',hheight',result,hset,hlegal⟩
    exact ⟨result,⟨_,⟨hwidth,rfl⟩,_,⟨hne,hwidth',rfl⟩,_,⟨hheight,rfl⟩,_,
      ⟨hne,hheight',rfl⟩,hset⟩,hlegal⟩

/-- A client that asks for no columns. -/
theorem not_sizes_legal : ¬∀ (rdpInst : Option (ℤ×ℤ)) (now optimalResolution width height : ℤ)
    (disp : Disp) (settings : Settings), ∃ result,
      guacRdpUserSizeHandler rdpInst now optimalResolution width height disp settings=
        some result ∧ Legal result.1 := by
  intro h
  obtain ⟨result,hhandled,-⟩ := h none 0 96 0 768 ⟨false,0,0,0,false,[]⟩
    ⟨1024,768,96,.displayUpdate⟩
  cases hhandled

end GuacServer.DisplaySizes
