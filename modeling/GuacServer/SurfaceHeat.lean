import GuacServer.SurfaceTransfer

/-!
# The heat map of a surface

The heat map has a cell for each square of 64 by 64 pixels, in rows. Two loops
go through the cells of a rectangle: __guac_common_surface_touch_rect to record
that it was drawn to, and __guac_common_surface_calculate_framerate to read how
often. Both take the last column and row from the size of the rectangle rather
than from where it ends, and the second one stops before it gets to them.
-/

namespace GuacServer.Surface

open Function List PointUpdates

/-! ## The loops -/

/-- GUAC_COMMON_SURFACE_HEAT_DIMENSION. -/
def heatDimension (x : ℤ) : ℤ := (x+heatCellSize-1).tdiv heatCellSize

/-- The cells of a number of columns, from heat_cell on. -/
def heatRowCells (heatCell : ℤ) : ℕ→List ℤ
  | 0 => []
  | columns+1 => heatCell::heatRowCells (heatCell+1) columns

/-- The cells of a number of rows, from heat_row on. -/
def heatRowsCells (heatWidth heatRow : ℤ) (columns : ℕ) : ℕ→List ℤ
  | 0 => []
  | rows+1 =>
    heatRowCells heatRow columns++heatRowsCells heatWidth (heatRow+heatWidth) columns rows

variable (surface : CommonSurface) (rect : Rect)

/-- The start of the heat map at the first cell of a rectangle. -/
def heatRow : ℤ :=
  (heatRange rect.y rect.height).1*heatDimension surface.width+(heatRange rect.x rect.width).1

/-- The cells that __guac_common_surface_touch_rect goes through. -/
def touchedCells : List ℤ :=
  let columns := heatRange rect.x rect.width
  let rows := heatRange rect.y rect.height
  heatRowsCells (heatDimension surface.width) (heatRow surface rect)
    (columns.2+1-columns.1).toNat (rows.2+1-rows.1).toNat

/-- The cells that __guac_common_surface_calculate_framerate goes through. -/
def readCells : List ℤ :=
  let columns := heatRange rect.x rect.width
  let rows := heatRange rect.y rect.height
  heatRowsCells (heatDimension surface.width) (heatRow surface rect)
    (columns.2-columns.1).toNat (rows.2-rows.1).toNat

/-- A cell that is touched. -/
def touchCell (time : ℤ) (cell : ℤ) : Update ℤ HeatCell := ⟨cell,fun heatMap =>
  (heatMap cell).touch time⟩

/-- __guac_common_surface_touch_rect, on the array of cells. -/
def touchHeatMap (time : ℤ) (heatMap : ℤ→HeatCell) : ℤ→HeatCell :=
  runAll ((touchedCells surface rect).map (touchCell time)) heatMap

/-! ## The cells that they go through -/

/-- The index of the cell in a column and a row. -/
def heatIndex (x y : ℤ) : ℤ := y*heatDimension surface.width+x

theorem heatRowCells_eq (heatCell : ℤ) (columns : ℕ) :
    heatRowCells heatCell columns=(List.range columns).map fun column : ℕ => heatCell+column := by
  induction columns generalizing heatCell with
  | zero => rfl
  | succ columns ih =>
    rw [heatRowCells,ih,range_succ_eq_map,map_cons,map_map]
    refine congrArg₂ List.cons (add_zero heatCell).symm (map_congr_left fun column _ => ?_)
    simp only [comp_apply,Nat.succ_eq_add_one,Nat.cast_add,Nat.cast_one]
    omega

/-- The loops go through the offsets of as many columns and rows. -/
theorem heatRowsCells_eq (heatWidth heatRow columns rows : ℤ) :
    heatRowsCells heatWidth heatRow columns.toNat rows.toNat=
      (offsets columns rows).map fun offset => heatRow+offset.2*heatWidth+offset.1 := by
  unfold offsets
  rw [map_flatMap]
  generalize rows.toNat=rows
  induction rows generalizing heatRow with
  | zero => rfl
  | succ rows ih =>
    rw [heatRowsCells,ih,range_succ_eq_map,flatMap_cons,flatMap_map,
      heatRowCells_eq,map_map]
    refine congrArg₂ List.append (map_congr_left fun column _ => ?_)
      (flatMap_congr fun row _ => ?_)
    · simp only [comp_apply,Nat.cast_zero,zero_mul,add_zero]
    · rw [map_map,map_map]
      refine map_congr_left fun column _ => ?_
      simp only [comp_apply,Nat.succ_eq_add_one,Nat.cast_add,Nat.cast_one,add_mul,one_mul]
      omega

/-- The cells of some columns and rows from the first cell of a rectangle. -/
theorem heatRowsCells_offsets (columns rows : ℤ) :
    heatRowsCells (heatDimension surface.width) (heatRow surface rect) columns.toNat rows.toNat=
      (offsets columns rows).map fun offset =>
        heatIndex surface ((heatRange rect.x rect.width).1+offset.1)
          ((heatRange rect.y rect.height).1+offset.2) := by
  rw [heatRowsCells_eq]
  refine map_congr_left fun offset _ => ?_
  unfold heatRow heatIndex
  rw [add_mul]
  omega

variable {surface rect} {x y x' y' : ℤ}

theorem heatIndex_lt (hx : 0≤x) (hwidth : x<heatDimension surface.width) (hx' : 0≤x')
    (hy : y<y') : heatIndex surface x y<heatIndex surface x' y' := by
  unfold heatIndex
  calc y*heatDimension surface.width+x
      < y*heatDimension surface.width+heatDimension surface.width := add_lt_add_right hwidth _
    _ = (y+1)*heatDimension surface.width := (add_one_mul _ _).symm
    _ ≤ y' * heatDimension surface.width := mul_le_mul_of_nonneg_right hy (hx.trans hwidth.le)
    _ ≤ y' * heatDimension surface.width+x' := le_add_of_nonneg_right hx'

/-- Cells in different columns or rows are different. -/
theorem heatIndex_inj (hx : 0≤x ∧ x<heatDimension surface.width)
    (hx' : 0≤x' ∧ x' < heatDimension surface.width)
    (h : heatIndex surface x y=heatIndex surface x' y') : x=x' ∧ y=y' := by
  rcases lt_trichotomy y y' with hlt | rfl | hgt
  · exact absurd h (heatIndex_lt hx.1 hx.2 hx'.1 hlt).ne
  · exact ⟨add_left_cancel h,rfl⟩
  · exact absurd h (heatIndex_lt hx'.1 hx'.2 hx.1 hgt).ne'

/-- The cells of the heat map that are touched. -/
theorem mem_heatRowsCells {columns rows cell : ℤ} :
    cell∈heatRowsCells (heatDimension surface.width) (heatRow surface rect) columns.toNat
      rows.toNat ↔
    ∃ x y, ((heatRange rect.x rect.width).1≤x ∧ x<(heatRange rect.x rect.width).1+columns) ∧
      ((heatRange rect.y rect.height).1≤y ∧ y<(heatRange rect.y rect.height).1+rows) ∧
      heatIndex surface x y=cell := by
  rw [heatRowsCells_offsets]
  constructor
  · intro h
    obtain ⟨offset,hoffset,rfl⟩ := mem_map.mp h
    obtain ⟨hcolumn,hrow⟩ := mem_offsets.mp hoffset
    exact ⟨_,_,⟨by omega,by omega⟩,⟨by omega,by omega⟩,rfl⟩
  · rintro ⟨x,y,hx,hy,rfl⟩
    refine mem_map.mpr ⟨(x-(heatRange rect.x rect.width).1,
      y-(heatRange rect.y rect.height).1),mem_offsets.mpr ?_,?_⟩
    · dsimp only
      omega
    · dsimp only
      rw [add_sub_cancel,add_sub_cancel]

/-- The loops go through no cell twice, within the width of the heat map. -/
theorem nodup_heatRowsCells {columns : ℤ} (hstart : 0≤(heatRange rect.x rect.width).1)
    (hend : (heatRange rect.x rect.width).1+columns≤heatDimension surface.width) (rows : ℤ) :
    (heatRowsCells (heatDimension surface.width) (heatRow surface rect) columns.toNat
      rows.toNat).Nodup := by
  have hincreasing : (heatRowsCells (heatDimension surface.width) (heatRow surface rect)
      columns.toNat rows.toNat).Pairwise (· < ·) := by
    rw [heatRowsCells_offsets]
    refine pairwise_map.mpr ((pairwise_precedes_offsets columns rows).imp_of_mem ?_)
    intro earlier later hearlier hlater hprecedes
    obtain ⟨⟨hcolumn,hcolumns⟩,-⟩ := mem_offsets.mp hearlier
    obtain ⟨⟨hcolumn',-⟩,-⟩ := mem_offsets.mp hlater
    rcases hprecedes with hrow | ⟨hrow,hlt⟩
    · exact heatIndex_lt (by omega) (by omega) (by omega) (by omega)
    · rw [hrow]
      unfold heatIndex
      omega
  exact hincreasing.imp fun hlt => hlt.ne

/-! ## The cells of a rectangle -/

/-- The pixels of a cell. -/
def cellRect (x y : ℤ) : Rect := ⟨x*heatCellSize,y*heatCellSize,heatCellSize,heatCellSize⟩

/-- The square of a cell has a pixel of a rectangle. -/
def Intersects (rect : Rect) (x y : ℤ) : Prop :=
  ∃ column row, rect.Mem column row ∧ (cellRect x y).Mem column row

/-- A cell of the heat map that a surface has. -/
def InHeatMap (surface : CommonSurface) (x y : ℤ) : Prop :=
  (0≤x ∧ x<heatDimension surface.width) ∧ 0≤y ∧ y<heatDimension surface.height

instance (surface : CommonSurface) (x y : ℤ) : Decidable (InHeatMap surface x y) :=
  inferInstanceAs (Decidable (_ ∧ _))

/-- The timestamp is recorded once in each cell that intersects a rectangle and in no
other, and nothing outside of the array is touched. -/
structure TouchesExactly (surface : CommonSurface) (rect : Rect) : Prop where
  once : ∀ x y, InHeatMap surface x y→Intersects rect x y →
    (touchedCells surface rect).count (heatIndex surface x y)=1
  never : ∀ x y, InHeatMap surface x y→¬Intersects rect x y →
    (touchedCells surface rect).count (heatIndex surface x y)=0
  recorded : ∀ time heatMap x y, InHeatMap surface x y→Intersects rect x y →
    touchHeatMap surface rect time heatMap (heatIndex surface x y)=
      (heatMap (heatIndex surface x y)).touch time
  kept : ∀ time heatMap x y, InHeatMap surface x y→¬Intersects rect x y →
    touchHeatMap surface rect time heatMap (heatIndex surface x y)=heatMap (heatIndex surface x y)
  inside : ∀ cell∈touchedCells surface rect,
    0≤cell ∧ cell<heatDimension surface.width*heatDimension surface.height

/-- The cells that intersect a rectangle are read, and no others. -/
def ReadsExactly (surface : CommonSurface) (rect : Rect) : Prop :=
  ∀ x y, InHeatMap surface x y→(heatIndex surface x y∈readCells surface rect ↔ Intersects rect x y)

/-- The last column and row of cells that a rectangle intersects are those that its size
alone gives: it does not straddle one more cell than it would if it started at one. -/
def EndsAtSize (rect : Rect) : Prop :=
  (rect.x+rect.width-1)/heatCellSize=rect.x/heatCellSize+(rect.width-1)/heatCellSize ∧
    (rect.y+rect.height-1)/heatCellSize=rect.y/heatCellSize+(rect.height-1)/heatCellSize

instance (rect : Rect) : Decidable (EndsAtSize rect) := inferInstanceAs (Decidable (_ ∧ _))

theorem heatRange_of_nonneg {start length : ℤ} (hstart : 0 ≤ start) (hlength : 0<length) :
    heatRange start length=(start/64,start/64+(length-1)/64) := by
  unfold heatRange heatCellSize
  rw [Int.tdiv_eq_ediv_of_nonneg hstart,Int.tdiv_eq_ediv_of_nonneg (by omega)]

theorem heatDimension_of_pos {length : ℤ} (hlength : 0<length) :
    heatDimension length=(length+63)/64 := by
  unfold heatDimension heatCellSize
  rw [Int.tdiv_eq_ediv_of_nonneg (by omega)]
  congr 1
  omega

/-- A cell intersects a rectangle if it is not before its start or after its end. -/
theorem intersects_iff (hsome : ¬rect.Empty) : Intersects rect x y ↔
    (rect.x/64≤x ∧ x≤(rect.x+rect.width-1)/64) ∧ rect.y/64≤y ∧ y≤(rect.y+rect.height-1)/64 := by
  unfold Rect.Empty at hsome
  unfold Intersects cellRect heatCellSize
  constructor
  · rintro ⟨column,row,⟨⟨hx,hx'⟩,hy,hy'⟩,⟨hcolumn,hcolumn'⟩,hrow,hrow'⟩
    dsimp only at hcolumn hcolumn' hrow hrow'
    omega
  · rintro ⟨⟨hx,hx'⟩,hy,hy'⟩
    refine ⟨max rect.x (x*64),max rect.y (y*64),
      ⟨⟨by omega,by omega⟩,by omega,by omega⟩,⟨?_,?_⟩,?_,?_⟩
    all_goals
      dsimp only
      omega

section Inside

variable (hinside : rect.InRect surface.bounds) (hsome : ¬rect.Empty)

include hinside hsome

/-- Where the loops start and end. -/
theorem heatRanges : heatRange rect.x rect.width=(rect.x/64,rect.x/64+(rect.width-1)/64) ∧
    heatRange rect.y rect.height=(rect.y/64,rect.y/64+(rect.height-1)/64) ∧
    (0≤rect.x/64 ∧ (rect.x+rect.width-1)/64<heatDimension surface.width) ∧
    0≤rect.y/64 ∧ (rect.y+rect.height-1)/64<heatDimension surface.height := by
  obtain ⟨⟨hleft,hright⟩,htop,hbottom⟩ := hinside
  unfold CommonSurface.bounds at hleft hright htop hbottom
  dsimp only at hleft hright htop hbottom
  unfold Rect.Empty at hsome
  rw [heatRange_of_nonneg hleft (by omega),heatRange_of_nonneg htop (by omega),
    heatDimension_of_pos (by omega),heatDimension_of_pos (by omega)]
  exact ⟨rfl,rfl,⟨by omega,by omega⟩,by omega,by omega⟩

theorem nodup_touchedCells : (touchedCells surface rect).Nodup := by
  obtain ⟨hcolumns,-,⟨hfirst,hlast⟩,-⟩ := heatRanges hinside hsome
  refine nodup_heatRowsCells ?_ ?_ _
  · rw [hcolumns]
    exact hfirst
  · rw [hcolumns]
    dsimp only
    omega

/-- The cells of some columns and rows of the heat map. -/
theorem heatIndex_mem {columns rows : ℤ} (hx : 0≤x ∧ x<heatDimension surface.width)
    (hcolumns : columns≤(rect.width-1)/64+1) :
    heatIndex surface x y∈heatRowsCells (heatDimension surface.width) (heatRow surface rect)
        columns.toNat rows.toNat ↔
      (rect.x/64≤x ∧ x<rect.x/64+columns) ∧ rect.y/64≤y ∧ y<rect.y/64+rows := by
  obtain ⟨hcolumn,hrow,⟨hfirst,hlast⟩,-⟩ := heatRanges hinside hsome
  rw [mem_heatRowsCells,hcolumn,hrow]
  dsimp only
  constructor
  · rintro ⟨x',y',hx',hy',hindex⟩
    obtain ⟨rfl,rfl⟩ := heatIndex_inj ⟨by omega,by omega⟩ hx hindex
    exact ⟨hx',hy'⟩
  · rintro ⟨hx',hy'⟩
    exact ⟨x,y,hx',hy',rfl⟩

/-- The cells that are touched. -/
theorem mem_touchedCells (hx : 0≤x ∧ x<heatDimension surface.width) :
    heatIndex surface x y∈touchedCells surface rect ↔
      (rect.x/64≤x ∧ x≤rect.x/64+(rect.width-1)/64) ∧
        rect.y/64≤y ∧ y≤rect.y/64+(rect.height-1)/64 := by
  obtain ⟨hcolumns,hrows,-⟩ := heatRanges hinside hsome
  unfold touchedCells
  dsimp only
  rw [heatIndex_mem hinside hsome hx (by rw [hcolumns]; omega),hcolumns,hrows]
  omega

/-- The cells that are read. -/
theorem mem_readCells (hx : 0≤x ∧ x<heatDimension surface.width) :
    heatIndex surface x y∈readCells surface rect ↔ (rect.x/64≤x ∧ x<rect.x/64+(rect.width-1)/64) ∧
        rect.y/64≤y ∧ y<rect.y/64+(rect.height-1)/64 := by
  obtain ⟨hcolumns,hrows,-⟩ := heatRanges hinside hsome
  unfold readCells
  dsimp only
  rw [heatIndex_mem hinside hsome hx (by rw [hcolumns]; omega),hcolumns,hrows]
  omega

/-- Nothing outside of the heat map is touched. -/
theorem touchedCells_inside {cell : ℤ} (hcell : cell∈touchedCells surface rect) :
    0≤cell ∧ cell<heatDimension surface.width*heatDimension surface.height := by
  obtain ⟨hcolumns,hrows,⟨hfirst,hlast⟩,htop,hbottom⟩ := heatRanges hinside hsome
  unfold touchedCells at hcell
  obtain ⟨x,y,hx,hy,rfl⟩ := mem_heatRowsCells.mp hcell
  rw [hcolumns] at hx
  rw [hrows] at hy
  dsimp only at hx hy
  have hwidth : 0≤heatDimension surface.width := by omega
  constructor
  · exact add_nonneg (mul_nonneg (by omega) hwidth) (by omega)
  · calc heatIndex surface x y<heatIndex surface 0 (heatDimension surface.height) :=
          heatIndex_lt (by omega) (by omega) le_rfl (by omega)
      _ = heatDimension surface.width*heatDimension surface.height := by
          unfold heatIndex
          rw [add_zero,mul_comm]

end Inside

/-! ## Touching -/

/-- Different cells are touched independently. -/
theorem independent_touch {cells : List ℤ} (h : cells.Nodup) (time : ℤ) :
    Independent (cells.map (touchCell time)) := by
  refine pairwise_map.mpr (h.imp fun hne => ⟨hne,fun content replaced => ?_⟩)
  unfold touchCell
  dsimp only
  rw [update_of_ne hne.symm]

/-- A cell of the rectangle is touched once. -/
theorem touchHeatMap_of_mem (hnodup : (touchedCells surface rect).Nodup) {cell : ℤ}
    (hcell : cell∈touchedCells surface rect) (time : ℤ) (heatMap : ℤ→HeatCell) :
    touchHeatMap surface rect time heatMap cell=(heatMap cell).touch time :=
  runAll_target (independent_touch hnodup time) (mem_map.mpr ⟨cell,hcell,rfl⟩) heatMap

theorem touchHeatMap_of_not_mem {cell : ℤ} (hcell : cell ∉ touchedCells surface rect) (time : ℤ)
    (heatMap : ℤ→HeatCell) : touchHeatMap surface rect time heatMap cell=heatMap cell := by
  refine runAll_of_not_target (fun update hupdate => ?_) heatMap
  obtain ⟨touched,htouched,rfl⟩ := mem_map.mp hupdate
  exact fun heq => hcell (heq ▸ htouched)

/-- In an array that has the cells of the heat map of a surface, the loop touches those that
the surface touches. -/
theorem touchHeatMap_eq (hinside : rect.InRect surface.bounds) (hsome : ¬rect.Empty)
    {heatMap : ℤ→HeatCell} (hheld : ∀ x y, InHeatMap surface x y →
      heatMap (heatIndex surface x y)=surface.heatMap x y) (time : ℤ)
    (hin : InHeatMap surface x y) :
    touchHeatMap surface rect time heatMap (heatIndex surface x y)=
      (guacCommonSurfaceTouchRect surface rect time).heatMap x y := by
  have hnodup := nodup_touchedCells hinside hsome
  have hmem := mem_touchedCells hinside hsome (y := y) hin.1
  obtain ⟨hcolumns,hrows,-⟩ := heatRanges hinside hsome
  unfold guacCommonSurfaceTouchRect
  dsimp only
  rw [hcolumns,hrows,←hheld x y hin]
  by_cases htouched : heatIndex surface x y∈touchedCells surface rect
  · rw [touchHeatMap_of_mem hnodup htouched,if_pos (hmem.mp htouched)]
  · rw [touchHeatMap_of_not_mem htouched,if_neg (hmem.not.mp htouched)]

/-- The framerate is that of the cells which its loop goes through. -/
theorem calculateFramerate_eq (hinside : rect.InRect surface.bounds) (hsome : ¬rect.Empty)
    {heatMap : ℤ→HeatCell} (hheld : ∀ x y, InHeatMap surface x y →
      heatMap (heatIndex surface x y)=surface.heatMap x y) :
    guacCommonSurfaceCalculateFramerate surface rect=
      if (readCells surface rect).length=0 then 0
      else ((readCells surface rect).map fun cell => (heatMap cell).framerate).sum%2^32/
        (readCells surface rect).length := by
  obtain ⟨hcolumns,hrows,⟨hfirst,hlast⟩,htop,hbottom⟩ := heatRanges hinside hsome
  have hcells : (readCells surface rect).map (fun cell => (heatMap cell).framerate)=
      (offsets ((heatRange rect.x rect.width).2-(heatRange rect.x rect.width).1)
        ((heatRange rect.y rect.height).2-(heatRange rect.y rect.height).1)).map fun offset =>
          (surface.heatMap ((heatRange rect.x rect.width).1+offset.1)
            ((heatRange rect.y rect.height).1+offset.2)).framerate := by
    unfold readCells
    dsimp only
    rw [heatRowsCells_offsets,map_map]
    refine map_congr_left fun offset hoffset => congrArg HeatCell.framerate (hheld _ _ ?_)
    obtain ⟨hcolumn,hrow⟩ := mem_offsets.mp hoffset
    rw [hcolumns] at hcolumn ⊢
    rw [hrows] at hrow ⊢
    dsimp only at hcolumn hrow ⊢
    exact ⟨⟨by omega,by omega⟩,by omega,by omega⟩
  unfold guacCommonSurfaceCalculateFramerate
  dsimp only
  rw [←hcells,length_map]

/-- The timestamp is recorded in exactly the right cells if these are as many as the size
of the rectangle alone gives. -/
theorem touchesExactly_iff (hinside : rect.InRect surface.bounds) (hsome : ¬rect.Empty) :
    TouchesExactly surface rect ↔ EndsAtSize rect := by
  have hnodup := nodup_touchedCells hinside hsome
  have hinMap := (heatRanges hinside hsome).2.2
  have hlast : rect.x/64≤(rect.x+rect.width-1)/64 ∧ rect.y/64≤(rect.y+rect.height-1)/64 := by
    unfold Rect.Empty at hsome
    omega
  unfold EndsAtSize heatCellSize
  constructor
  · intro h
    have hcorner : heatIndex surface ((rect.x+rect.width-1)/64)
        ((rect.y+rect.height-1)/64)∈touchedCells surface rect := by
      have honce := h.once ((rect.x+rect.width-1)/64) ((rect.y+rect.height-1)/64)
        ⟨⟨by omega,hinMap.1.2⟩,by omega,hinMap.2.2⟩
        ((intersects_iff hsome).mpr ⟨⟨hlast.1,le_rfl⟩,hlast.2,le_rfl⟩)
      exact count_pos_iff.mp (honce ▸ zero_lt_one)
    have htouched := (mem_touchedCells hinside hsome ⟨by omega,hinMap.1.2⟩).mp hcorner
    omega
  · rintro ⟨hwidth,hheight⟩
    have hmem : ∀ {x y : ℤ}, InHeatMap surface x y →
        (heatIndex surface x y∈touchedCells surface rect ↔ Intersects rect x y) := by
      intro x y hin
      rw [mem_touchedCells hinside hsome hin.1,intersects_iff hsome,hwidth,hheight]
    exact {
      once := fun x y hin h => count_eq_one_of_mem hnodup ((hmem hin).mpr h)
      never := fun x y hin h => count_eq_zero.mpr fun hmem' => h ((hmem hin).mp hmem')
      recorded := fun time heatMap x y hin h =>
        touchHeatMap_of_mem hnodup ((hmem hin).mpr h) time heatMap
      kept := fun time heatMap x y hin h =>
        touchHeatMap_of_not_mem (fun hmem' => h ((hmem hin).mp hmem')) time heatMap
      inside := fun cell hcell => touchedCells_inside hinside hsome hcell }

/-- The last of the cells that intersect a rectangle is not read. -/
theorem not_readsExactly (hinside : rect.InRect surface.bounds) (hsome : ¬rect.Empty) :
    ¬ReadsExactly surface rect := by
  intro h
  have hinMap := (heatRanges hinside hsome).2.2
  have hlast : rect.x/64≤(rect.x+rect.width-1)/64 ∧ rect.y/64≤(rect.y+rect.height-1)/64 := by
    unfold Rect.Empty at hsome
    omega
  have hread := (h ((rect.x+rect.width-1)/64) ((rect.y+rect.height-1)/64)
    ⟨⟨by omega,hinMap.1.2⟩,by omega,hinMap.2.2⟩).mpr
    ((intersects_iff hsome).mpr ⟨⟨hlast.1,le_rfl⟩,hlast.2,le_rfl⟩)
  have hbefore := (mem_readCells hinside hsome ⟨by omega,hinMap.1.2⟩).mp hread
  omega

/-- No rectangle has its timestamp recorded and its framerate read in exactly the cells that
it intersects: the framerate is not, and the timestamp is if the rectangle does not
straddle one more column or row of cells than its size gives. -/
theorem heatLocality_never (surface : CommonSurface) (rect : Rect)
    (hinside : rect.InRect surface.bounds) (hsome : ¬rect.Empty) :
    ¬(TouchesExactly surface rect ∧ ReadsExactly surface rect) ∧
      (TouchesExactly surface rect ↔ EndsAtSize rect) :=
  ⟨fun h => not_readsExactly hinside hsome h.2,touchesExactly_iff hinside hsome⟩

/-- A surface of four cells. -/
def fourCells : CommonSurface := guacCommonSurfaceAlloc [] 0 128 128

/-- A rectangle at the start of a cell. -/
theorem heatLocality_never_aligned :
    ¬(TouchesExactly fourCells ⟨0,0,64,64⟩ ∧ ReadsExactly fourCells ⟨0,0,64,64⟩) ∧
      (TouchesExactly fourCells ⟨0,0,64,64⟩ ↔ EndsAtSize ⟨0,0,64,64⟩) :=
  heatLocality_never fourCells ⟨0,0,64,64⟩ (by decide) (by decide)

/-- A rectangle of two pixels in two cells. -/
theorem not_touchesExactly_straddling :
    ¬TouchesExactly fourCells ⟨63,0,2,1⟩ ∧ ¬ReadsExactly fourCells ⟨63,0,2,1⟩ := by
  constructor
  · intro h
    have honce := h.once 1 0 (by decide) ⟨64,0,by decide,by decide⟩
    revert honce
    decide
  · intro h
    have hread := (h 1 0 (by decide)).mpr ⟨64,0,by decide,by decide⟩
    revert hread
    decide

end GuacServer.Surface
