import GuacServer.OpenAddressing
import Mathlib.Order.Interval.Finset.Nat
import Mathlib.Tactic.IntervalCases

/-!
# Palettes

libguac/palette.c: the palette of an image of at most 256 colours, which is a
table of 4096 entries with open addressing, as guac_png_write builds and uses
it.
-/

namespace GuacServer.Palette

open OpenAddressing Function

/-- guac_palette_entry. An entry of index 0 is free. -/
structure PaletteEntry where
  index : ℕ
  color : ℕ

/-- png_color. -/
structure PngColor where
  red : ℕ
  green : ℕ
  blue : ℕ
  deriving DecidableEq

/-- guac_palette. -/
structure GuacPalette where
  entries : ℕ→PaletteEntry
  colors : ℕ→PngColor
  size : ℕ

/-- A Cairo image surface. The words of its data are given by their offsets. -/
structure ImageSurface where
  width : ℕ
  height : ℕ
  stride : ℕ
  word : ℕ→UInt32

/-- The colour of a pixel. -/
def ImageSurface.color (surface : ImageSurface) (y x : ℕ) : ℕ :=
  (surface.word (y*surface.stride+4*x)).toNat &&& 0xFFFFFF

/-- The colours of all pixels, as the loops of guac_palette_alloc read them. -/
def ImageSurface.pixels (surface : ImageSurface) : List ℕ :=
  (List.range surface.height).flatMap fun y => (List.range surface.width).map (surface.color y)

/-- The slot in which the search for a colour starts. -/
def colorHash (color : ℕ) : ℕ := ((color &&& 0xFFF000) >>> 12) ^^^ (color &&& 0xFFF)

/-- The components of a colour. -/
def pngColor (color : ℕ) : PngColor :=
  ⟨(color >>> 16) &&& 0xFF,(color >>> 8) &&& 0xFF,color &&& 0xFF⟩

/-- A palette after a colour has been stored in a free entry. -/
def GuacPalette.withColor (palette : GuacPalette) (hash color : ℕ) : GuacPalette :=
  { entries := update palette.entries hash ⟨palette.size+1,color⟩
    colors := update palette.colors palette.size (pngColor color)
    size := palette.size+1 }

/-- The search for an open entry in guac_palette_alloc, over at most as many entries
as given. There is no palette once there are too many colours. -/
def storeColor (palette : GuacPalette) (color : ℕ) : ℕ→ℕ→Option (Option GuacPalette)
  | 0, _ => none
  | fuel+1, hash =>
    if (palette.entries hash).index=0 then
      if palette.size=256 then some none else some (some (palette.withColor hash color))
    else if (palette.entries hash).color=color then some (some palette)
    else storeColor palette color fuel ((hash+1) &&& 0xFFF)

/-- The loops of guac_palette_alloc over pixels. -/
def storePixels (fuel : ℕ) : List ℕ→GuacPalette→Option (Option GuacPalette)
  | [], palette => some (some palette)
  | color::colors, palette =>
    match storeColor palette color fuel (colorHash color) with
    | none => none
    | some none => some none
    | some (some stored) => storePixels fuel colors stored

/-- The palette that memset leaves. -/
def emptyPalette : GuacPalette := ⟨fun _ => ⟨0,0⟩,fun _ => ⟨0,0,0⟩,0⟩

/-- guac_palette_alloc. -/
def guacPaletteAlloc (fuel : ℕ) (surface : ImageSurface) : Option (Option GuacPalette) :=
  storePixels fuel surface.pixels emptyPalette

/-- The loop of guac_palette_find. -/
def findColor (palette : GuacPalette) (color : ℕ) : ℕ→ℕ→Option ℤ
  | 0, _ => none
  | fuel+1, hash =>
    if (palette.entries hash).index=0 then some (-1)
    else if (palette.entries hash).color=color then some ((palette.entries hash).index-1)
    else findColor palette color fuel ((hash+1) &&& 0xFFF)

/-- guac_palette_find. -/
def guacPaletteFind (fuel : ℕ) (palette : GuacPalette) (color : ℕ) : Option ℤ :=
  findColor palette color fuel (colorHash color)

/-! ## Searches -/

/-- The colours in the entries that are not free. -/
def GuacPalette.slots (palette : GuacPalette) (slot : ℕ) : Option ℕ :=
  if (palette.entries slot).index=0 then none else some (palette.entries slot).color

variable {palette : GuacPalette} {color slot : ℕ}

theorem slots_eq_none : palette.slots slot=none ↔ (palette.entries slot).index=0 := by
  unfold GuacPalette.slots
  split_ifs with hfree
  · exact iff_of_true rfl hfree
  · exact iff_of_false not_false hfree

theorem slots_eq_some : palette.slots slot=some color ↔
    (palette.entries slot).index≠0 ∧ (palette.entries slot).color=color := by
  unfold GuacPalette.slots
  split_ifs with hfree
  · exact iff_of_false not_false fun h => h.1 hfree
  · exact Option.some_inj.trans (and_iff_right hfree).symm

theorem colorHash_lt (color : ℕ) : colorHash color<0x1000 := by
  refine Nat.xor_lt_two_pow (n := 12) ?_ ?_
  · have hle : color &&& 0xFFF000≤0xFFF000 := Nat.and_le_right
    rw [Nat.shiftRight_eq_div_pow]
    omega
  · exact Nat.lt_succ_of_le Nat.and_le_right

theorem next_slot (hash : ℕ) : (hash+1) &&& 0xFFF=(hash+1)%0x1000 :=
  Nat.and_two_pow_sub_one_eq_mod (hash+1) 12

/-- The search compares an entry as the loops do, and goes on in the next one. -/
theorem search_slots_succ (palette : GuacPalette) (color fuel hash : ℕ) :
    search 0x1000 palette.slots color (fuel+1) hash=if (palette.entries hash).index=0 then some hash
      else if (palette.entries hash).color=color then some hash
      else search 0x1000 palette.slots color fuel ((hash+1) &&& 0xFFF) := by
  simp only [search,slots_eq_none,slots_eq_some,next_slot]
  by_cases hfree : (palette.entries hash).index=0
  · simp [hfree]
  · simp [hfree]

/-- A colour is stored where its search ends. -/
theorem storeColor_eq (palette : GuacPalette) (color fuel hash : ℕ) :
    storeColor palette color fuel hash=
      (search 0x1000 palette.slots color fuel hash).map fun found =>
        if palette.slots found=none then
          if palette.size=256 then none else some (palette.withColor found color)
        else some palette := by
  induction fuel generalizing hash with
  | zero => rfl
  | succ fuel ih =>
    rw [storeColor,search_slots_succ,ih]
    by_cases hfree : (palette.entries hash).index=0
    · simp only [hfree,if_true,Option.map_some,slots_eq_none]
      split_ifs <;> rfl
    · by_cases hcolor : (palette.entries hash).color=color
      · simp [hcolor,hfree,slots_eq_none]
      · simp only [hfree,hcolor,if_false]

/-- A colour is found where its search ends. -/
theorem findColor_eq (palette : GuacPalette) (color fuel hash : ℕ) :
    findColor palette color fuel hash=(search 0x1000 palette.slots color fuel hash).map fun found =>
        ((palette.entries found).index : ℤ)-1 := by
  induction fuel generalizing hash with
  | zero => rfl
  | succ fuel ih =>
    rw [findColor,search_slots_succ,ih]
    split_ifs with hfree hcolor
    · simp [hfree]
    · rfl
    · rfl

/-! ## The colours of a palette -/

/-- A palette holds exactly some colours, each once. -/
structure Holds (palette : GuacPalette) (colors : Finset ℕ) : Prop where
  size_eq : palette.size=colors.card
  size_le : palette.size≤256
  stored : Stored 0x1000 colorHash palette.slots
  entry : ∀ slot<0x1000, ∀ color, palette.slots slot=some color → color∈colors ∧
    (palette.entries slot).index≤palette.size ∧
      palette.colors ((palette.entries slot).index-1)=pngColor color
  injective : ∀ slot<0x1000, ∀ slot' < 0x1000, palette.slots slot≠none →
    (palette.entries slot).index=(palette.entries slot').index → slot=slot'
  held : ∀ color∈colors, ∃ slot<0x1000, palette.slots slot=some color

variable {colors : Finset ℕ}

theorem holds_empty : Holds emptyPalette ∅ where
  size_eq := rfl
  size_le := Nat.zero_le _
  stored := fun _ _ _ hcolor => absurd hcolor (Option.some_ne_none _).symm
  entry := fun _ _ _ hcolor => absurd hcolor (Option.some_ne_none _).symm
  injective := fun _ _ _ _ hused => absurd rfl hused
  held := fun _ hmem => absurd hmem (Finset.notMem_empty _)

/-- An entry is free, since there are more of them than colours. -/
theorem Holds.free (h : Holds palette colors) : ∃ slot<0x1000, palette.slots slot=none := by
  by_contra hfull
  push Not at hfull
  have hindex : ∀ slot∈Finset.range 0x1000, (palette.entries slot).index∈Finset.Icc 1 256 := by
    intro slot hslot
    have hused := hfull slot (Finset.mem_range.mp hslot)
    obtain ⟨color,hcolor⟩ := Option.ne_none_iff_exists'.mp hused
    have hle := (h.entry slot (Finset.mem_range.mp hslot) color hcolor).2.1
    have hsize := h.size_le
    rw [Ne,slots_eq_none] at hused
    exact Finset.mem_Icc.mpr ⟨by omega,by omega⟩
  have hcard := Finset.card_le_card_of_injOn _ hindex fun slot hslot slot' hslot' heq =>
    h.injective slot (Finset.mem_range.mp hslot) slot' (Finset.mem_range.mp hslot')
      (hfull slot (Finset.mem_range.mp hslot)) heq
  rw [Finset.card_range,Nat.card_Icc] at hcard
  omega

/-- The search for a colour ends where it is, or in a free entry. -/
theorem Holds.search (h : Holds palette colors) (color fuel : ℕ) : ∃ found<0x1000,
      search 0x1000 palette.slots color (0x1000+fuel) (colorHash color)=some found ∧
        OpenAddressing.search 0x1000 palette.slots color 0x1000 (colorHash color)=some found ∧
        (palette.slots found=none ∧ color ∉ colors ∨
          palette.slots found=some color ∧ color∈colors) := by
  obtain ⟨free,hfree,hnone⟩ := h.free
  obtain ⟨found,hfound⟩ := @search_isSome ℕ _ 0x1000 palette.slots color _ _ (colorHash_lt color)
    hfree hnone
  obtain ⟨distance,-,hreaches,-,hends⟩ := passes_of_search (colorHash_lt color) hfound
  have hlt : found<0x1000 := by
    rw [←hreaches]
    exact Nat.mod_lt _ (by decide)
  refine ⟨found,hlt,search_add (colorHash_lt color) hfound fuel,hfound,?_⟩
  rw [Passes,not_and_or,not_not,not_not] at hends
  rcases hends with hnone | hsome
  · refine Or.inl ⟨hnone,fun hmem => ?_⟩
    obtain ⟨slot,hslot,hcolor⟩ := h.held color hmem
    have hsearch := h.stored.search_eq colorHash_lt hslot hcolor
    rw [hfound] at hsearch
    cases hsearch
    rw [hnone] at hcolor
    cases hcolor
  · exact Or.inr ⟨hsome,(h.entry found hlt color hsome).1⟩

/-- A colour that is not in a palette is stored in a free entry. -/
theorem Holds.withColor (h : Holds palette colors) {found : ℕ} (hlt : found<0x1000)
    (hsearch : OpenAddressing.search 0x1000 palette.slots color 0x1000 (colorHash color)=some found)
    (hfree : palette.slots found=none) (hnew : color ∉ colors) (hroom : palette.size≠256) :
    Holds (palette.withColor found color) (insert color colors) := by
  have hentries : ∀ slot, slot≠found →
      (palette.withColor found color).entries slot=palette.entries slot := fun slot hne =>
    update_of_ne hne _ _
  have hentry : (palette.withColor found color).entries found=⟨palette.size+1,color⟩ :=
    update_self ..
  have hslots : (palette.withColor found color).slots=
      update palette.slots found (some color) := by
    funext slot
    unfold GuacPalette.slots
    rcases eq_or_ne slot found with rfl | hne
    · rw [hentry,update_self,if_neg (Nat.succ_ne_zero _)]
    · rw [hentries slot hne,update_of_ne hne]
  have hsize : (palette.withColor found color).size=palette.size+1 := rfl
  have hsizeLe := h.size_le
  refine ⟨?_,by omega,?_,fun slot hslot other hother => ?_,
    fun slot hslot slot' hslot' hused heq => ?_,fun other hmem => ?_⟩
  · rw [hsize,Finset.card_insert_of_notMem hnew,h.size_eq]
  · rw [hslots]
    exact h.stored.update colorHash_lt hsearch hfree
  · rw [hslots] at hother
    rcases eq_or_ne slot found with rfl | hne
    · rw [update_self] at hother
      cases hother
      rw [hentry]
      exact ⟨Finset.mem_insert_self _ _,le_rfl,update_self ..⟩
    · rw [update_of_ne hne] at hother
      obtain ⟨hmem,hle,hcolor⟩ := h.entry slot hslot other hother
      have hindex := (slots_eq_some.mp hother).1
      rw [hentries slot hne]
      refine ⟨Finset.mem_insert_of_mem hmem,hle.trans (Nat.le_succ _),?_⟩
      rw [←hcolor]
      exact update_of_ne (by omega) _ _
  · have hold : ∀ {slot}, slot<0x1000 → slot≠found →
        (palette.withColor found color).slots slot≠none →
          (palette.entries slot).index≤palette.size := by
      intro slot hslot hne hused
      rw [hslots,update_of_ne hne] at hused
      obtain ⟨other,hother⟩ := Option.ne_none_iff_exists'.mp hused
      exact (h.entry slot hslot other hother).2.1
    have hused' : (palette.withColor found color).slots slot' ≠ none := by
      rw [Ne,slots_eq_none] at hused ⊢
      rwa [←heq]
    rcases eq_or_ne slot found with rfl | hne
    · by_contra hother
      have hle := hold hslot' (Ne.symm hother) hused'
      rw [hentry,hentries slot' (Ne.symm hother)] at heq
      dsimp only at heq
      omega
    · have hle := hold hslot hne hused
      rcases eq_or_ne slot' found with rfl | hne'
      · rw [hentry,hentries slot hne] at heq
        dsimp only at heq
        omega
      · rw [hentries slot hne,hentries slot' hne'] at heq
        rw [hslots,update_of_ne hne] at hused
        exact h.injective slot hslot slot' hslot' hused heq
  · rw [hslots]
    rcases Finset.mem_insert.mp hmem with rfl | hmem
    · exact ⟨found,hlt,update_self ..⟩
    · obtain ⟨slot,hslot,hcolor⟩ := h.held other hmem
      refine ⟨slot,hslot,?_⟩
      have hne : slot≠found := by
        rintro rfl
        rw [hfree] at hcolor
        cases hcolor
      rwa [update_of_ne hne]

/-- Storing a colour ends: the palette then holds it too, unless that is one too many. -/
theorem Holds.storeColor (h : Holds palette colors) (color fuel : ℕ) :
    ∃ result, Palette.storeColor palette color (0x1000+fuel) (colorHash color)=some result ∧
      match result with
      | none => 256<(insert color colors).card
      | some stored => Holds stored (insert color colors) := by
  obtain ⟨found,hlt,hmore,hsearch,⟨hfree,hnew⟩ | ⟨hsome,hmem⟩⟩ := h.search color fuel
  · rw [storeColor_eq,hmore,Option.map_some,if_pos hfree]
    by_cases hfull : palette.size=256
    · rw [if_pos hfull]
      refine ⟨none,rfl,?_⟩
      rw [Finset.card_insert_of_notMem hnew,←h.size_eq,hfull]
      exact Nat.lt_succ_self 256
    · rw [if_neg hfull]
      exact ⟨_,rfl,h.withColor hlt hsearch hfree hnew hfull⟩
  · rw [storeColor_eq,hmore,Option.map_some,if_neg (by rw [hsome]; exact Option.some_ne_none _)]
    refine ⟨_,rfl,?_⟩
    dsimp only
    rwa [Finset.insert_eq_self.mpr hmem]

/-- Storing all pixels ends: there is a palette unless they have more than 256
colours. -/
theorem Holds.storePixels (h : Holds palette colors) (pixels : List ℕ) (fuel : ℕ) :
    ∃ result, Palette.storePixels (0x1000+fuel) pixels palette=some result ∧ match result with
      | none => 256<(colors ∪ pixels.toFinset).card
      | some stored => Holds stored (colors ∪ pixels.toFinset) := by
  induction pixels generalizing palette colors with
  | nil =>
    refine ⟨_,rfl,?_⟩
    dsimp only
    rwa [List.toFinset_nil,Finset.union_empty]
  | cons color pixels ih =>
    obtain ⟨result,hstored,hresult⟩ := h.storeColor color fuel
    have hunion : colors ∪ (color::pixels).toFinset=insert color colors ∪ pixels.toFinset := by
      rw [List.toFinset_cons,Finset.union_insert,Finset.insert_union]
    rw [Palette.storePixels,hstored,hunion]
    cases result with
    | none => exact ⟨none,rfl,hresult.trans_le (Finset.card_le_card Finset.subset_union_left)⟩
    | some stored => exact ih hresult

/-- A colour of a palette is found. -/
theorem Holds.find (h : Holds palette colors) (hmem : color∈colors) (fuel : ℕ) :
    ∃ slot<0x1000, palette.slots slot=some color ∧ guacPaletteFind (0x1000+fuel) palette color=
        some (((palette.entries slot).index-1 : ℕ) : ℤ) := by
  obtain ⟨found,hlt,hmore,-,⟨-,hnew⟩ | ⟨hsome,-⟩⟩ := h.search color fuel
  · exact absurd hmem hnew
  · refine ⟨found,hlt,hsome,?_⟩
    have hindex := (slots_eq_some.mp hsome).1
    rw [guacPaletteFind,findColor_eq,hmore,Option.map_some,Nat.cast_sub (by omega)]
    rfl

/-- An image has no palette exactly if it has more than 256 colours. In a palette each
of its pixels has an entry with its components, and no two colours have the same. -/
theorem guacPalette_correct (surface : ImageSurface) (fuel : ℕ) :
    ∃ result, guacPaletteAlloc (0x1000+fuel) surface=some result ∧
      (result=none ↔ 256<surface.pixels.toFinset.card) ∧
      ∀ palette∈result, ∀ color∈surface.pixels,
        (∃ i<palette.size, guacPaletteFind (0x1000+fuel) palette color=some (i : ℤ) ∧
          palette.colors i=pngColor color) ∧
        ∀ other∈surface.pixels, guacPaletteFind (0x1000+fuel) palette other=
            guacPaletteFind (0x1000+fuel) palette color → other=color := by
  obtain ⟨result,hstored,hresult⟩ := holds_empty.storePixels surface.pixels fuel
  rw [Finset.empty_union] at hresult
  refine ⟨result,hstored,?_,?_⟩
  · cases result with
    | none => exact iff_of_true rfl hresult
    | some palette =>
      refine iff_of_false (Option.some_ne_none _) ?_
      rw [←hresult.size_eq]
      exact not_lt.mpr hresult.size_le
  · rintro palette ⟨⟩ color hcolor
    obtain ⟨slot,hslot,hsome,hfind⟩ := hresult.find (List.mem_toFinset.mpr hcolor) fuel
    obtain ⟨-,hle,hcomponents⟩ := hresult.entry slot hslot color hsome
    have hindex := (slots_eq_some.mp hsome).1
    refine ⟨⟨_,by omega,hfind,hcomponents⟩,fun other hother heq => ?_⟩
    obtain ⟨slot',hslot',hsome',hfind'⟩ := hresult.find (List.mem_toFinset.mpr hother) fuel
    have hindex' := (slots_eq_some.mp hsome').1
    rw [hfind,hfind'] at heq
    have hsame := Nat.cast_injective (Option.some.inj heq)
    have hused : palette.slots slot' ≠ none := by
      rw [hsome']
      exact Option.some_ne_none _
    obtain rfl := hresult.injective slot' hslot' slot hslot hused (by omega)
    rw [hsome'] at hsome
    exact Option.some.inj hsome

end GuacServer.Palette
