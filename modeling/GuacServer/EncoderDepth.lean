import GuacServer.EncoderHandlers
import GuacServer.ParentChains
import GuacServer.StateRuns

/-!
# Depths of layers

The depth of a layer is found by following parents, and each move instruction may
give a layer a new one. The recursion ends for every layer exactly as long as no
layer is moved into a layer below it.
-/

namespace GuacServer.EncoderDisplay

open DecimalNumerals UserHandlers Unicode VideoTimeline ParentChains StateRuns Function

variable {S C φ : Type}

theorem toNat_lt_maxLayers {index : ℤ} (h : 0 ≤ index ∧ index<guacencDisplayMaxLayers) :
    index.toNat<guacencDisplayMaxLayers := (Int.toNat_lt h.1).mpr h.2

/-- The layer of an index, if it is valid. -/
def layerOf (index : ℤ) : Option (Fin guacencDisplayMaxLayers) :=
  if h : 0 ≤ index ∧ index<guacencDisplayMaxLayers then
    some ⟨index.toNat,toNat_lt_maxLayers h⟩
  else none

/-- What a lookup of a layer finds or creates. -/
def layerAt (display : Display S C φ) (i : Fin guacencDisplayMaxLayers) : Layer S C :=
  (display.layers i).getD (guacencLayerAlloc i)

/-- The parent index of a layer as a lookup would find it. -/
def parentIndexAt (display : Display S C φ) (i : Fin guacencDisplayMaxLayers) : ℤ :=
  (layerAt display i).parentIndex

/-- The parent of a layer. -/
def parentOf (display : Display S C φ) (i : Fin guacencDisplayMaxLayers) :
    Option (Fin guacencDisplayMaxLayers) :=
  layerOf (parentIndexAt display i)

/-- The default layer alone has no parent, and the layers form a tree below it. -/
structure Rooted (display : Display S C φ) : Prop where
  root : ∀ i, parentIndexAt display i=guacencLayerNoParent ↔ i.val=0
  valid : ∀ i, i.val≠0→(parentOf display i).isSome
  forest : Forest (parentOf display)

/-- A parent index is that of a layer or says that there is no parent, and the
layers form a forest. -/
structure Planted (display : Display S C φ) : Prop where
  valid : ∀ i, parentIndexAt display i≠guacencLayerNoParent→(parentOf display i).isSome
  forest : Forest (parentOf display)

/-- The parent of each layer is what it was. -/
def SameParents (display display' : Display S C φ) : Prop :=
  parentIndexAt display' = parentIndexAt display

/-- The depth of every layer is found on the stack. -/
def DepthsTerminate (env : Environment S C φ) (display : Display S C φ) : Prop :=
  ∀ i layer, display.layers i=some layer →
    ∃ found, guacencDisplayGetDepth env.stack (some layer) display=.ok found

/-- The encoder has not run out of stack, and will not for the depth of any layer. -/
def Terminates (env : Environment S C φ) : Except Fault (Display S C φ)→Prop
  | .ok display => DepthsTerminate env display
  | .error fault => fault≠.stackOverflow

/-- An instruction that moves a layer into itself or into a layer below it. -/
def MakesCycle (instruction : Instruction) (display : Display S C φ) : Prop :=
  instruction.opcode=ascii "move" ∧ 5 ≤ instruction.argv.length ∧
    ∃ i p, layerOf (int instruction.argv 0)=some i ∧ layerOf (int instruction.argv 1)=some p ∧
      Ascends (parentOf display) p i

/-- An instruction that makes no cycle, if it is handled at all. -/
def NoCycle (instruction : Instruction) : Except Fault (Display S C φ)→Prop
  | .ok display => ¬MakesCycle instruction display
  | .error _ => True

theorem layerOf_noParent : layerOf guacencLayerNoParent=none := by
  unfold layerOf
  rw [dif_neg (by decide)]

variable {i : Fin guacencDisplayMaxLayers} {layer : Layer S C}

section Lookups

variable {display : Display S C φ}

theorem parentIndexAt_setLayer (i : Fin guacencDisplayMaxLayers) (layer : Option (Layer S C)) :
    parentIndexAt (display.setLayer i layer)=update (parentIndexAt display) i
      (layer.getD (guacencLayerAlloc i)).parentIndex := by
  funext j
  unfold parentIndexAt layerAt Display.setLayer
  dsimp only
  by_cases hji : j=i
  · subst hji
    rw [update_self,update_self]
  · rw [update_of_ne hji,update_of_ne hji]

/-- A layer stored with the parent it had keeps all parents. -/
theorem sameParents_setLayer (h : layer.parentIndex=parentIndexAt display i) :
    SameParents display (display.setLayer i (some layer)) := by
  unfold SameParents
  rw [parentIndexAt_setLayer,Option.getD_some,h,update_eq_self]

/-- A lookup finds the layer of a valid index, and no parent changes by it. -/
theorem getLayer_eq (index : ℤ) (display : Display S C φ) :
    (guacencDisplayGetLayer index display).1=
      (layerOf index).map fun i => (i,layerAt display i) := by
  unfold guacencDisplayGetLayer layerOf
  split_ifs with h
  · dsimp only
    split <;> rename_i heq <;> simp [layerAt,heq]
  · rfl

theorem sameParents_getLayer (index : ℤ) (display : Display S C φ) :
    SameParents display (guacencDisplayGetLayer index display).2 := by
  unfold guacencDisplayGetLayer
  split_ifs with h
  · dsimp only
    split
    · rfl
    · rename_i hnone
      refine sameParents_setLayer ?_
      rw [parentIndexAt,layerAt,hnone,Option.getD_none]
  · rfl

/-- What a lookup that finds a layer has found. -/
theorem getLayer_some {index : ℤ} {reached : Display S C φ}
    (h : guacencDisplayGetLayer index display=(some (i,layer),reached)) :
    layerOf index=some i ∧ layer.parentIndex=parentIndexAt display i ∧
      SameParents display reached := by
  have hfound := getLayer_eq index display
  have hsame := sameParents_getLayer index display
  rw [h] at hfound hsame
  obtain ⟨j,hj,hji⟩ := Option.map_eq_some_iff.mp hfound.symm
  cases hji
  exact ⟨hj,rfl,hsame⟩

theorem sameParents_getBuffer (index : ℤ) (display : Display S C φ) :
    SameParents display (guacencDisplayGetBuffer index display).2 := by
  unfold guacencDisplayGetBuffer
  dsimp only
  split_ifs with h
  · split <;> rfl
  · rfl

theorem sameParents_getRelatedBuffer (index : ℤ) (display : Display S C φ) :
    SameParents display (guacencDisplayGetRelatedBuffer index display).2 := by
  unfold guacencDisplayGetRelatedBuffer
  split_ifs with h
  · have hsame := sameParents_getLayer index display
    generalize guacencDisplayGetLayer index display=found at hsame
    obtain ⟨_ | ⟨i,layer⟩,reached⟩ := found
    · exact hsame
    · exact hsame
  · exact sameParents_getBuffer index display

theorem sameParents_store (name : BufferName) (buffer : Buffer S C) (display : Display S C φ) :
    SameParents display (display.store name buffer) := by
  have hmap : ∀ i (f : Layer S C→Layer S C), (∀ layer, (f layer).parentIndex=layer.parentIndex) →
      SameParents display (display.setLayer i ((display.layers i).map f)) := by
    intro i f hf
    unfold SameParents
    rw [parentIndexAt_setLayer]
    have hparent : (((display.layers i).map f).getD (guacencLayerAlloc i)).parentIndex=
        parentIndexAt display i := by
      unfold parentIndexAt layerAt
      cases display.layers i with
      | none => rfl
      | some layer => exact hf layer
    rw [hparent,update_eq_self]
  cases name with
  | layer i => exact hmap i _ fun _ => rfl
  | frame i => exact hmap i _ fun _ => rfl
  | buffer i => rfl
  | cursor => rfl

variable {display' : Display S C φ}

theorem SameParents.trans {display'' : Display S C φ} (h : SameParents display display')
    (h' : SameParents display' display'') : SameParents display display'' :=
  Eq.trans h' h

theorem SameParents.parentOf_eq (h : SameParents display display') :
    parentOf display' = parentOf display := by
  funext i
  unfold parentOf
  rw [h]

theorem SameParents.rooted (h : SameParents display display') (hrooted : Rooted display) :
    Rooted display' := by
  refine ⟨fun i => ?_,fun i hi => ?_,?_⟩
  · rw [h]
    exact hrooted.root i
  · rw [h.parentOf_eq]
    exact hrooted.valid i hi
  · rw [h.parentOf_eq]
    exact hrooted.forest

theorem SameParents.planted (h : SameParents display display') (hplanted : Planted display) :
    Planted display' := by
  refine ⟨fun i => ?_,?_⟩
  · rw [h,h.parentOf_eq]
    exact hplanted.valid i
  · rw [h.parentOf_eq]
    exact hplanted.forest

theorem Rooted.planted (h : Rooted display) : Planted display :=
  ⟨fun i hi => h.valid i fun hzero => hi ((h.root i).mpr hzero),h.forest⟩

/-- Every layer is the default layer or below it. -/
theorem Rooted.ascends (h : Rooted display) {root : Fin guacencDisplayMaxLayers}
    (hroot : root.val=0) (i : Fin guacencDisplayMaxLayers) :
    Ascends (parentOf display) i root := by
  obtain ⟨n,hn⟩ := h.forest i
  induction hn with
  | @root a hnone =>
    have hzero : a.val=0 := by
      by_contra ha
      have hsome := h.valid a ha
      rw [hnone] at hsome
      cases hsome
    rw [Fin.ext (hzero.trans hroot.symm)]
    exact .refl
  | link hlink _ ih => exact .head hlink ih

/-- Nothing is above the default layer. -/
theorem Rooted.not_ascends (h : Rooted display) {root : Fin guacencDisplayMaxLayers}
    (hroot : root.val=0) (hi : i.val≠0) : ¬Ascends (parentOf display) root i := by
  intro hascends
  rcases hascends.cases_head with heq | ⟨p,hlink,-⟩
  · exact hi (by rw [←heq,hroot])
  · rw [parentOf,(h.root root).mpr hroot,layerOf_noParent] at hlink
    cases hlink

/-- A layer with a new parent. -/
theorem parentOf_setLayer {p : Fin guacencDisplayMaxLayers} {layer : Option (Layer S C)}
    (hp : layerOf (layer.getD (guacencLayerAlloc i)).parentIndex=some p) :
    parentOf (display.setLayer i layer)=update (parentOf display) i (some p) := by
  funext j
  unfold parentOf
  rw [parentIndexAt_setLayer]
  by_cases hji : j=i
  · subst hji
    rw [update_self,update_self,hp]
  · rw [update_of_ne hji,update_of_ne hji]

/-- A layer may get any parent that is not below it. -/
theorem Rooted.setLayer (h : Rooted display) {p : Fin guacencDisplayMaxLayers}
    {layer : Option (Layer S C)}
    (hp : layerOf (layer.getD (guacencLayerAlloc i)).parentIndex=some p)
    (hcycle : ¬Ascends (parentOf display) p i) : Rooted (display.setLayer i layer) := by
  have hi : i.val≠0 := fun hzero => hcycle (h.ascends hzero p)
  have hparent : parentOf (display.setLayer i layer)=_ := parentOf_setLayer hp
  refine ⟨fun j => ?_,fun j hj => ?_,?_⟩
  · rw [parentIndexAt_setLayer]
    by_cases hji : j=i
    · subst hji
      rw [update_self]
      refine iff_of_false (fun hnone => ?_) hi
      rw [hnone,layerOf_noParent] at hp
      cases hp
    · rw [update_of_ne hji]
      exact h.root j
  · rw [hparent]
    by_cases hji : j=i
    · rw [hji,update_self]
      rfl
    · rw [update_of_ne hji]
      exact h.valid j hj
  · rw [hparent]
    refine h.forest.update fun b hb => ?_
    cases hb
    exact hcycle

end Lookups

section Depths

/-- The depth of a layer is its number of links to a root, if the stack has room
for as many calls. -/
theorem getDepth_of_reaches
    {parent : Fin guacencDisplayMaxLayers→Option (Fin guacencDisplayMaxLayers)} {n : ℕ}
    (h : Reaches parent i n) {display : Display S C φ} (hplanted : Planted display)
    (hparent : parentOf display=parent) (hlayer : layer.parentIndex=parentIndexAt display i)
    {stack : ℕ} (hn : n ≤ stack) :
    ∃ display', guacencDisplayGetDepth stack (some layer) display=.ok ((n : ℤ),display') ∧
      SameParents display display' := by
  induction h generalizing display layer stack with
  | @root i hroot =>
    refine ⟨display,?_,rfl⟩
    have hnone : parentIndexAt display i=guacencLayerNoParent := by
      by_contra hi
      have hsome := hplanted.valid i hi
      rw [hparent,hroot] at hsome
      cases hsome
    unfold guacencDisplayGetDepth
    rw [hlayer,if_pos hnone]
    rfl
  | @link i p n hlink _ ih =>
    obtain ⟨stack,rfl⟩ : ∃ rest, stack=rest+1 := ⟨stack-1,by omega⟩
    have hindex : layerOf layer.parentIndex=some p := by
      rw [hlayer,←hlink,←hparent]
      rfl
    have hne : layer.parentIndex≠guacencLayerNoParent := by
      intro heq
      rw [heq,layerOf_noParent] at hindex
      cases hindex
    have hfound := getLayer_eq layer.parentIndex display
    have hsame := sameParents_getLayer layer.parentIndex display
    rw [hindex,Option.map_some] at hfound
    obtain ⟨display',hdepth,hsame'⟩ := ih (hsame.planted hplanted) (hsame.parentOf_eq.trans hparent)
      (show (layerAt display p).parentIndex=_ by rw [hsame]; rfl) (Nat.le_of_succ_le_succ hn)
    refine ⟨display',?_,hsame.trans hsame'⟩
    unfold guacencDisplayGetDepth
    dsimp only
    rw [if_neg hne,hfound,Option.map_some,hdepth]
    rfl

/-- The search for the depth of a layer that comes to no root exceeds any stack. -/
theorem getDepth_of_not_reaches {display : Display S C φ}
    (hvalid : ∀ j, parentIndexAt display j≠guacencLayerNoParent→(parentOf display j).isSome)
    (h : ∀ n, ¬Reaches (parentOf display) i n)
    (hlayer : layer.parentIndex=parentIndexAt display i) (stack : ℕ) :
    guacencDisplayGetDepth stack (some layer) display=.error .stackOverflow := by
  have hne : layer.parentIndex≠guacencLayerNoParent := by
    intro heq
    refine h 0 (.root ?_)
    rw [parentOf,←hlayer,heq,layerOf_noParent]
  induction stack generalizing i display layer with
  | zero =>
    unfold guacencDisplayGetDepth
    dsimp only
    rw [if_neg hne]
  | succ stack ih =>
    obtain ⟨p,hp⟩ := Option.isSome_iff_exists.mp (hvalid i (by rwa [←hlayer]))
    have hfound := getLayer_eq layer.parentIndex display
    have hsame := sameParents_getLayer layer.parentIndex display
    have hindex : layerOf layer.parentIndex=some p := by
      rw [hlayer]
      exact hp
    rw [hindex,Option.map_some] at hfound
    have hnot : ∀ n, ¬Reaches (parentOf display) p n := fun n hn => h (n+1) (.link hp hn)
    have hparent : (layerAt display p).parentIndex≠guacencLayerNoParent := by
      intro heq
      refine hnot 0 (.root ?_)
      rw [parentOf,parentIndexAt,heq,layerOf_noParent]
    have hdepth : guacencDisplayGetDepth stack (some (layerAt display p))
        (guacencDisplayGetLayer layer.parentIndex display).2=.error .stackOverflow :=
      ih (i := p) (by rw [hsame.parentOf_eq,hsame]; exact hvalid)
        (by rw [hsame.parentOf_eq]; exact hnot) (by rw [hsame]; rfl) hparent
    unfold guacencDisplayGetDepth
    dsimp only
    rw [if_neg hne,hfound,Option.map_some,hdepth]
    rfl

/-- The parent index of a layer that exists. -/
theorem parentIndex_eq {display : Display S C φ} (h : display.layers i=some layer) :
    layer.parentIndex=parentIndexAt display i := by
  rw [parentIndexAt,layerAt,h,Option.getD_some]

/-- In a tree of layers no chain is longer than the number of layers. -/
theorem Rooted.depthsTerminate {env : Environment S C φ}
    (hstack : guacencDisplayMaxLayers≤env.stack) {display : Display S C φ} (h : Rooted display) :
    DepthsTerminate env display := by
  intro i layer hlayer
  obtain ⟨n,hn⟩ := h.forest i
  have hlt := hn.lt_card
  rw [Fintype.card_fin] at hlt
  obtain ⟨display',hdepth,-⟩ :=
    getDepth_of_reaches hn h.planted rfl (parentIndex_eq hlayer) ((le_of_lt hlt).trans hstack)
  exact ⟨_,hdepth⟩

end Depths

section Flattening

variable {env : Environment S C φ} {display : Display S C φ}

/-- The depths of layers are found within the stack. -/
theorem layerDepths_keeps (hstack : guacencDisplayMaxLayers≤env.stack) (hrooted : Rooted display)
    (layers : List (Fin guacencDisplayMaxLayers)) :
    Outcome .stackOverflow (fun found => SameParents display found.2)
      (layerDepths env.stack layers display) := by
  induction layers generalizing display with
  | nil => exact rfl
  | cons i layers ih =>
    rw [layerDepths]
    refine Outcome.bind (P := fun found => SameParents display found.2) ?_ fun found hfound => ?_
    · cases hlayer : display.layers i with
      | none =>
        unfold guacencDisplayGetDepth
        exact rfl
      | some layer =>
        obtain ⟨n,hn⟩ := hrooted.forest i
        have hlt := hn.lt_card
        rw [Fintype.card_fin] at hlt
        obtain ⟨display',hdepth,hsame⟩ :=
          getDepth_of_reaches hn hrooted.planted rfl (parentIndex_eq hlayer)
            ((le_of_lt hlt).trans hstack)
        rw [hdepth]
        exact hsame
    · refine (ih (hfound.rooted hrooted)).bind fun depths hdepths => ?_
      exact hfound.trans hdepths

theorem comparedDepths_keeps (hstack : guacencDisplayMaxLayers≤env.stack)
    (hrooted : Rooted display) :
    Outcome .stackOverflow (fun found => SameParents display found.2)
      (comparedDepths env display) := by
  unfold comparedDepths
  split_ifs with hfew
  · exact rfl
  · exact layerDepths_keeps hstack hrooted _

theorem renderOrder_keeps (hstack : guacencDisplayMaxLayers≤env.stack) (hrooted : Rooted display) :
    Outcome .stackOverflow (fun found => SameParents display found.2) (renderOrder env display) :=
  (comparedDepths_keeps hstack hrooted).bind fun _ hfound => hfound

end Flattening

section Handlers

variable {env : Environment S C φ} {display : Display S C φ} {memory : Memory}
  {argv : List (List UInt8)}

/-- Flattening changes no parents. -/
theorem rooted_flattening : FlatteningInvariant (Rooted : Display S C φ→Prop) where
  getLayer index display h := (sameParents_getLayer index display).rooted h
  storeFrame i frame display h := (sameParents_store (.frame i) frame display).rooted h
  synced lastSync output display h :=
    (show SameParents display { display with lastSync := lastSync, output := output } from
      rfl).rooted h

/-- Flattening a tree of layers ends, and keeps the tree. -/
theorem sync_rooted (hstack : guacencDisplayMaxLayers≤env.stack) (hrooted : Rooted display)
    (timestamp : ℤ) :
    Unless (· ≠ .stackOverflow) (fun found => Rooted found.2)
      (guacencDisplaySync env memory timestamp display) :=
  rooted_flattening.sync (fun _ h => h) hrooted memory timestamp fun _ hstamped =>
    (unless_of_outcome (renderOrder_keeps hstack hstamped)).imp fun _ hfound =>
      hfound.rooted hstamped

/-- Drawing changes no parents. -/
theorem rooted_drawing (lib : Cairo S C) :
    DrawingInvariant lib (Rooted : Display S C φ→Prop) (fun _ => True) fun _ _ _ _ => True where
  lookup index display h :=
    ⟨fun _ _ => trivial,(sameParents_getRelatedBuffer index display).rooted h⟩
  store name buffer display h _ := (sameParents_store name buffer display).rooted h
  setImageStream i stream display h :=
    (show SameParents display (display.setImageStream i stream) from rfl).rooted h
  cursor display h := ⟨trivial,fun cursor _ =>
    (show SameParents display { display with cursor := cursor } from rfl).rooted h⟩
  resize _ _ _ _ _ _ := trivial
  painted _ _ _ _ _ _ _ _ := trivial
  drawn _ _ _ _ _ _ _ _ _ _ _ _ := trivial
  rectangle _ _ _ _ _ _ := trivial
  filled _ _ _ _ _ _ _ _ _ := trivial

theorem handleShade_keeps : Outcome .stackOverflow (fun found => SameParents display found.2)
    (guacencHandleShade env memory argv display) := by
  unfold guacencHandleShade withLayer
  split_ifs
  · exact rfl
  · split
    · rename_i heq
      have hsame := sameParents_getLayer (int argv 0) display
      rw [heq] at hsame
      exact hsame
    · rename_i heq
      obtain ⟨-,hparent,hsame⟩ := getLayer_some heq
      exact hsame.trans (sameParents_setLayer (by rw [hsame]; exact hparent))

/-- A layer that is moved to a parent that is not below it stays in the tree. -/
theorem handleMove_rooted (hrooted : Rooted display)
    (hcycle : 5≤argv.length→∀ i p, layerOf (int argv 0)=some i →
      layerOf (int argv 1)=some p→¬Ascends (parentOf display) p i) :
    Outcome .stackOverflow (fun found => Rooted found.2)
      (guacencHandleMove env memory argv display) := by
  unfold guacencHandleMove withLayer
  split_ifs with hargc
  · exact hrooted
  · split
    · rename_i heq
      have hsame := sameParents_getLayer (int argv 0) display
      rw [heq] at hsame
      exact hsame.rooted hrooted
    · rename_i i layer reached heq
      obtain ⟨hi,-,hsame⟩ := getLayer_some heq
      dsimp only
      split
      · rename_i heq'
        have hsame' := sameParents_getLayer (int argv 1) reached
        rw [heq'] at hsame'
        exact (hsame.trans hsame').rooted hrooted
      · rename_i p _ reached' heq'
        obtain ⟨hp,-,hsame'⟩ := getLayer_some heq'
        refine ((hsame.trans hsame').rooted hrooted).setLayer hp ?_
        rw [(hsame.trans hsame').parentOf_eq]
        exact hcycle (by omega) i p hi hp

/-- A layer that is disposed of comes back below the default layer. -/
theorem handleDispose_rooted (hrooted : Rooted display) :
    Outcome .stackOverflow (fun found => Rooted found.2)
      (guacencHandleDispose env memory argv display) := by
  unfold guacencHandleDispose
  split_ifs
  · exact hrooted
  · unfold guacencDisplayFreeLayer
    split_ifs with hindex
    · generalize (⟨(int argv 0).toNat,_⟩ : Fin guacencDisplayMaxLayers)=i
      by_cases hi : i.val=0
      · have hsame : SameParents display (display.setLayer i none) := by
          unfold SameParents
          rw [parentIndexAt_setLayer,Option.getD_none,guacencLayerAlloc,if_pos hi,
            ←(hrooted.root i).mpr hi,update_eq_self]
        exact hsame.rooted hrooted
      · refine hrooted.setLayer (p := ⟨0,by decide⟩) ?_ (hrooted.not_ascends rfl hi)
        rw [Option.getD_none,guacencLayerAlloc,if_neg hi]
        rfl
    · exact hrooted
  · unfold guacencDisplayFreeBuffer
    dsimp only
    split_ifs with hindex
    · have hsame : SameParents display
          (display.setBuffer ⟨(-int argv 0-1).toNat,by omega⟩ none) := rfl
      exact hsame.rooted hrooted
    · exact hrooted

end Handlers

section Runs

variable {env : Environment S C φ}

variable {instruction : Instruction}

/-- An instruction that makes no cycle keeps the tree. -/
theorem handleInstruction_rooted (hstack : guacencDisplayMaxLayers≤env.stack)
    {display : Display S C φ} (hrooted : Rooted display)
    (hcycle : ¬MakesCycle instruction display) :
    Outcome .stackOverflow (fun found => Rooted found.2)
      (guacencHandleInstruction env instruction display) := by
  have hdrawing := rooted_drawing env.lib (φ := φ)
  refine Unless.outcome (handleInstruction_of_handlers hrooted
    fun opcode handler hentry hopcode => ?_)
  simp only [guacencInstructionHandlerMap,List.mem_cons,Prod.mk.injEq,List.not_mem_nil,
    or_false] at hentry
  rcases hentry with ⟨-,rfl⟩ | ⟨-,rfl⟩ | ⟨-,rfl⟩ | ⟨-,rfl⟩ | ⟨-,rfl⟩ | ⟨-,rfl⟩ | ⟨-,rfl⟩ |
    ⟨-,rfl⟩ | ⟨-,rfl⟩ | ⟨-,rfl⟩ | ⟨-,rfl⟩ | ⟨hmove,rfl⟩ | ⟨-,rfl⟩ | ⟨-,rfl⟩
  · exact hdrawing.handleBlob hrooted
  · exact hdrawing.handleImg hrooted
  · exact hdrawing.handleEnd hrooted fun _ _ _ _ _ _ _ _ _ _ _ _ => trivial
  · exact hdrawing.handleMouse hrooted fun _ _ _ hmoved => sync_rooted hstack hmoved _
  · exact DrawingInvariant.handleSync hrooted fun _ => sync_rooted hstack hrooted _
  · exact hdrawing.handleCursor hrooted fun _ _ _ _ => trivial
  · exact hdrawing.handleCopy hrooted fun _ _ _ _ _ => trivial
  · exact DrawingInvariant.handleTransfer hrooted
  · exact hdrawing.handleSize hrooted fun _ _ _ _ => trivial
  · exact hdrawing.handleRect hrooted fun _ _ _ _ _ => trivial
  · exact hdrawing.handleCfill hrooted
  · refine unless_of_outcome (handleMove_rooted hrooted fun hargc i p hi hp hascends => hcycle ?_)
    exact ⟨hopcode.trans hmove,hargc,i,p,hi,hp,hascends⟩
  · exact unless_of_outcome (handleShade_keeps.imp fun _ hfound => hfound.rooted hrooted)
  · exact unless_of_outcome (handleDispose_rooted hrooted)

/-- A move that makes a cycle leaves a layer whose depth is not found on any stack. -/
theorem handleInstruction_cycle {display : Display S C φ} (hrooted : Rooted display)
    (hcycle : MakesCycle instruction display) :
    ∃ display' i layer, guacencHandleInstruction env instruction display=.ok (0,display') ∧
      display'.layers i=some layer ∧
      guacencDisplayGetDepth env.stack (some layer) display'=.error .stackOverflow := by
  obtain ⟨hopcode,hargc,i,p,hi,hp,hascends⟩ := hcycle
  have hhandler : guacencHandleInstruction env instruction display=
      guacencHandleMove env instruction.memory instruction.argv display := by
    unfold guacencHandleInstruction
    rw [hopcode]
    rfl
  have hfound := getLayer_eq (int instruction.argv 0) display
  have hsame := sameParents_getLayer (int instruction.argv 0) display
  rw [hi,Option.map_some] at hfound
  generalize hlookup : guacencDisplayGetLayer (int instruction.argv 0) display=lookup
    at hfound hsame
  obtain ⟨found,reached⟩ := lookup
  cases hfound
  have hfound' := getLayer_eq (int instruction.argv 1) reached
  have hsame' := sameParents_getLayer (int instruction.argv 1) reached
  rw [hp,Option.map_some] at hfound'
  generalize hlookup' : guacencDisplayGetLayer (int instruction.argv 1) reached=lookup'
    at hfound' hsame'
  obtain ⟨found',reached'⟩ := lookup'
  cases hfound'
  have hsame'' : SameParents display reached' := hsame.trans hsame'
  have hrooted' := hsame''.rooted hrooted
  let moved : Layer S C := { layerAt display i with
    parentIndex := int instruction.argv 1, x := int instruction.argv 2,
    y := int instruction.argv 3, z := int instruction.argv 4 }
  have hparent : parentOf (reached'.setLayer i (some moved))=
      update (parentOf reached') i (some p) := parentOf_setLayer hp
  refine ⟨reached'.setLayer i (some moved),i,moved,?_,update_self ..,?_⟩
  · rw [hhandler]
    unfold guacencHandleMove withLayer
    rw [if_neg (by omega),hlookup]
    dsimp only
    rw [hlookup']
  · refine getDepth_of_not_reaches (i := i) (fun j hj => ?_) (fun n => ?_) ?_ _
    · rw [hparent]
      by_cases hji : j=i
      · rw [hji,update_self]
        rfl
      · rw [update_of_ne hji]
        rw [parentIndexAt_setLayer,update_of_ne hji] at hj
        exact hrooted'.valid j fun hzero => hj ((hrooted'.root j).mpr hzero)
    · rw [hparent]
      refine not_reaches_update ?_ n
      rw [hsame''.parentOf_eq]
      exact hascends
    · rw [parentIndexAt_setLayer,update_self]
      rfl

/-- A new display has no layers yet. -/
theorem rooted_alloc (hotspotX hotspotY : ℤ) (blank : φ) :
    Rooted (guacencDisplayAlloc hotspotX hotspotY blank : Display S C φ) := by
  have hparent : ∀ i, parentIndexAt (guacencDisplayAlloc hotspotX hotspotY blank : Display S C φ) i=
      if i.val=0 then guacencLayerNoParent else 0 := fun i => rfl
  have hroot : ∀ i, i.val=0 →
      parentOf (guacencDisplayAlloc hotspotX hotspotY blank : Display S C φ) i=none := by
    intro i hi
    rw [parentOf,hparent,if_pos hi,layerOf_noParent]
  have hlink : ∀ i, i.val≠0 →
      parentOf (guacencDisplayAlloc hotspotX hotspotY blank : Display S C φ) i=
        some ⟨0,by decide⟩ := by
    intro i hi
    rw [parentOf,hparent,if_neg hi]
    rfl
  refine ⟨fun i => ?_,fun i hi => ?_,fun i => ?_⟩
  · rw [hparent]
    split_ifs with hi
    · exact iff_of_true rfl hi
    · exact iff_of_false (by decide) hi
  · rw [hlink i hi]
    rfl
  · by_cases hi : i.val=0
    · exact ⟨0,.root (hroot i hi)⟩
    · exact ⟨1,.link (hlink i hi) (.root (hroot _ rfl))⟩

theorem stepDisplay_ok {display : Display S C φ} {found : ℤ×Display S C φ}
    (h : guacencHandleInstruction env instruction display=.ok found) :
    stepDisplay env instruction (.ok display)=some (.ok found.2) := by
  unfold stepDisplay
  change some (guacencHandleInstruction env instruction display >>= _)=_
  rw [h]
  rfl

/-- A tree of layers, or the end of the encoder for another reason than its stack. -/
def RootedState : Except Fault (Display S C φ)→Prop := Outcome .stackOverflow Rooted

/-- The depths of all layers are found in every state a recording leads to, so that
each sync ends, exactly if no instruction moves a layer into itself or into a layer
below it. -/
theorem depths_terminate_iff (env : Environment S C φ)
    (hstack : guacencDisplayMaxLayers≤env.stack) (hotspotX hotspotY : ℤ) (blank : φ)
    (instructions : List Instruction) :
    (∀ handled, handled <+: instructions→∀ state,
      run (stepDisplay env) handled (.ok (guacencDisplayAlloc hotspotX hotspotY blank))=
        some state→Terminates env state) ↔
      Along (stepDisplay env) NoCycle instructions
        (.ok (guacencDisplayAlloc hotspotX hotspotY blank)) := by
  refine visits_iff_along (G := RootedState) (fun {state} hstate => ?_) (fun _ _ => rfl)
    (fun {instruction state state'} hstate hcycle hstep => ?_)
    (fun {instruction state state'} hstate hstep hterminates => ?_) instructions
    (rooted_alloc hotspotX hotspotY blank)
  · cases state with
    | ok display => exact Rooted.depthsTerminate hstack hstate
    | error fault => exact hstate
  · cases hstep
    cases state with
    | ok display =>
      exact (handleInstruction_rooted hstack hstate hcycle).bind fun found hfound => hfound
    | error fault => exact hstate
  · cases state with
    | ok display =>
      intro hcycle
      obtain ⟨display',i,layer,hhandled,hlayer,hdepth⟩ :
        ∃ display' i layer, guacencHandleInstruction env instruction display=_ ∧ _ :=
        handleInstruction_cycle hstate hcycle
      rw [stepDisplay_ok hhandled] at hstep
      cases hstep
      obtain ⟨found,hfound⟩ := hterminates i layer hlayer
      exact absurd (hfound.symm.trans hdepth) (by simp)
    | error fault => trivial

/-- Other instructions than move make no cycle. -/
theorem noCycle_of_ne (h : instruction.opcode≠ascii "move")
    (state : Except Fault (Display S C φ)) : NoCycle instruction state := by
  cases state with
  | ok display => exact fun hcycle => h hcycle.1
  | error fault => trivial

/-- A layer is sized and the display synchronised. -/
theorem depths_terminate_iff_sizeAndSync : ∃ state, run (stepDisplay (.blind 64))
      [⟨ascii "size", [ascii "1", ascii "10", ascii "10"], fun _ _ => true⟩]
      (.ok (guacencDisplayAlloc 0 0 ()))=some state ∧ Terminates (.blind 64) state :=
  ⟨_,rfl,(depths_terminate_iff (.blind 64) (by decide) 0 0 ()
    [⟨ascii "size",[ascii "1",ascii "10",ascii "10"],fun _ _ => true⟩,
      ⟨ascii "sync",[ascii "1"],fun _ _ => true⟩]).mpr
    ⟨noCycle_of_ne (by decide) _,noCycle_of_ne (by decide) _,trivial⟩
    [⟨ascii "size",[ascii "1",ascii "10",ascii "10"],fun _ _ => true⟩] ⟨_,rfl⟩ _ rfl⟩

/-- Layer 1 moved into itself has no depth, however large the stack. -/
theorem not_depths_terminate : ¬∃ stack, ∀ instructions state,
      run (stepDisplay (.blind stack)) instructions (.ok (guacencDisplayAlloc 0 0 ()))=
        some state→Terminates (.blind stack) state := by
  rintro ⟨stack,h⟩
  have hcycle : MakesCycle
      ⟨ascii "move",[ascii "1",ascii "1",ascii "0",ascii "0",ascii "0"],fun _ _ => true⟩
      (guacencDisplayAlloc 0 0 () : Display Unit Unit Unit) :=
    ⟨rfl,by decide,⟨1,by decide⟩,⟨1,by decide⟩,by decide,by decide,.refl⟩
  obtain ⟨display',i,layer,hhandled,hlayer,hdepth⟩ :
      ∃ display' i layer, guacencHandleInstruction (.blind stack) _ _ = _ ∧ _ :=
    handleInstruction_cycle (rooted_alloc 0 0 ()) hcycle
  have hrun := h [_] (.ok display') (by
    rw [run,stepDisplay_ok hhandled]
    rfl)
  obtain ⟨found,hfound⟩ := hrun i layer hlayer
  exact absurd (hfound.symm.trans hdepth) (by simp)

end Runs

end GuacServer.EncoderDisplay
