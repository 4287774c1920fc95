import GuacServer.Selection

/-!
# The text of a selection on the clipboard

guac_terminal_clipboard_append_row converts a row by way of a buffer of 1024
bytes. If the text of a row does not fit, the conversion begins again at the start
of the range and not where the buffer became full, so that it never ends.
Otherwise the clipboard has all of the text, as far as it has room for it.
-/

namespace GuacServer.Terminal

open List Unicode Utf8Coding

/-! ## What the text of a selection is -/

/-- The UTF-8 encoding of a character. What is no code point of up to 21 bits has none, but
something is written for it. -/
def encodingOf (value : ℤ) : List UInt8 :=
  if 0≤value ∧ value≤0x1FFFFF then utf8Bytes value.toNat else guacUtf8Write value 4

/-- The text of a cell. -/
def TerminalChar.text (c : TerminalChar) : List UInt8 :=
  if c.value=0 ∨ c.value=charContinuation then [] else encodingOf c.value

/-- The text of a number of columns from one on. -/
def columnsText (characters : ℤ→TerminalChar) (count : ℕ) (start : ℤ) : List UInt8 :=
  (List.range count).flatMap fun k : ℕ => (characters (start+k)).text

/-- The text of a row from one column to another, as far as it has these. -/
def BufferRow.text (bufferRow : BufferRow) (start last : ℤ) : List UInt8 :=
  columnsText bufferRow.characters (min last (bufferRow.length-1)-start+1).toNat start

/-- So many rows from one on. -/
def rowsFrom (row : ℤ) (count : ℕ) : List ℤ := (List.range count).map fun k : ℕ => row+k

/-- The rows that a range has columns in. -/
def NormalizedRange.rows (range : NormalizedRange) : List ℤ :=
  rowsFrom range.startRow (range.endRow-range.startRow+1).toNat

variable (term : GuacTerminal) (range : NormalizedRange)

/-- The text of a row that is selected. -/
def rowText (row : ℤ) : List UInt8 :=
  (term.bufferRow row).text (if row=range.startRow then range.startCol else 0)
    (if row=range.endRow then range.endCol else (term.bufferRow row).length-1)

/-- The text of a range, its rows separated by newlines. -/
def selectedText : List UInt8 := List.intercalate [10] (range.rows.map (rowText term range))

/-- guac_terminal_select_end ends, with the selected text on the clipboard as far as it has
room for it. -/
def CopiesSelection (clipboard : Clipboard) : Prop :=
  ∃ enough, ∀ fuel, enough≤fuel→∃ term' clipboard',
    guacTerminalSelectEnd term fuel clipboard=some (term',clipboard') ∧
      clipboard'.available=clipboard.available ∧
      clipboard'.buffer=
        (selectedText term (guacTerminalSelectNormalizedRange term)).take clipboard.available

/-! ## Encoding -/

/-- Code points have the standard encoding. -/
theorem encodingOf_cast {v : ℕ} (hmax : v≤0x1FFFFF) : encodingOf v=utf8Bytes v := by
  unfold encodingOf
  rw [if_pos ⟨Int.natCast_nonneg v,by exact_mod_cast hmax⟩,Int.toNat_natCast]

/-- Either all of an encoding is written, or nothing. -/
theorem guacUtf8Write_eq_encodingOf (value : ℤ) (room : ℕ) :
    guacUtf8Write value room=if (encodingOf value).length≤room then encodingOf value else [] := by
  by_cases hvalue : 0≤value ∧ value≤0x1FFFFF
  · obtain ⟨v,rfl⟩ := Int.eq_ofNat_of_zero_le hvalue.1
    have hmax : v≤0x1FFFFF := by omega
    rw [encodingOf_cast hmax,guacUtf8Write_eq hmax]
  · have hone : utf8Size value=some (0,1) ∨ utf8Size value=none := by
      unfold utf8Size
      split_ifs <;> first | omega | simp
    unfold encodingOf
    rw [if_neg hvalue]
    cases room with
    | zero => rcases hone with hsize | hsize <;> simp [guacUtf8Write,hsize,writeTrailing]
    | succ room => rcases hone with hsize | hsize <;> simp [guacUtf8Write,hsize,writeTrailing]

theorem encodingOf_ne_nil (value : ℤ) : encodingOf value≠[] := by
  unfold encodingOf
  split_ifs with hvalue
  · obtain ⟨lead,rest,hbytes,-⟩ := utf8Bytes_charsize value.toNat
    rw [hbytes]
    exact cons_ne_nil _ _
  · have hone : utf8Size value=some (0,1) ∨ utf8Size value=none := by
      unfold utf8Size
      split_ifs <;> first | omega | simp
    rcases hone with hsize | hsize <;> simp [guacUtf8Write,hsize,writeTrailing]

theorem columnsText_succ (characters : ℤ→TerminalChar) (count : ℕ) (start : ℤ) :
    columnsText characters (count+1) start=
      (characters start).text++columnsText characters count (start+1) := by
  unfold columnsText
  rw [range_succ_eq_map,flatMap_cons,flatMap_map,Nat.cast_zero,add_zero]
  refine congrArg _ (flatMap_congr fun k _ => ?_)
  rw [Nat.cast_succ,add_comm (k : ℤ),add_assoc]

theorem rowsFrom_succ (row : ℤ) (count : ℕ) :
    rowsFrom row (count+1)=row::rowsFrom (row+1) count := by
  unfold rowsFrom
  rw [range_succ_eq_map,map_cons,map_map,Nat.cast_zero,add_zero]
  refine congrArg _ (map_congr_left fun k _ => ?_)
  rw [Function.comp_apply,Nat.succ_eq_add_one,Nat.cast_succ,add_comm (k : ℤ),add_assoc]

/-! ## Converting a row -/

/-- What fits in the buffer is converted to the end. -/
theorem convertCodepoints_fits (characters : ℤ→TerminalChar) (count : ℕ) (i : ℤ) {remaining : ℕ}
    (hfits : (columnsText characters count i).length≤remaining) :
    convertCodepoints characters count i remaining=(i+count,columnsText characters count i) := by
  induction count generalizing i remaining with
  | zero =>
    rw [Nat.cast_zero,add_zero]
    rfl
  | succ count ih =>
    have hnext : i+1+count=i+((count+1 : ℕ) : ℤ) := by
      push_cast
      ring
    rw [columnsText_succ] at hfits ⊢
    rw [convertCodepoints]
    unfold TerminalChar.text at hfits ⊢
    dsimp only
    split_ifs at hfits ⊢ with hblank hnone
    · rw [nil_append] at hfits ⊢
      rw [ih _ hfits,hnext]
    · rw [length_append] at hfits
      rw [guacUtf8Write_eq_encodingOf,if_pos (by omega)] at hnone
      exact absurd (length_eq_zero_iff.mp hnone) (encodingOf_ne_nil _)
    · rw [length_append] at hfits
      rw [guacUtf8Write_eq_encodingOf,if_pos (by omega),ih _ (by omega),hnext]

/-- What does not fit in the buffer is not converted to the end. -/
theorem convertCodepoints_stops (characters : ℤ→TerminalChar) (count : ℕ) (i : ℤ)
    {remaining : ℕ} (hmore : remaining<(columnsText characters count i).length) :
    (convertCodepoints characters count i remaining).1 < i+count := by
  induction count generalizing i remaining with
  | zero => exact absurd hmore (Nat.not_lt_zero _)
  | succ count ih =>
    have hnext : i+1+count=i+((count+1 : ℕ) : ℤ) := by
      push_cast
      ring
    rw [columnsText_succ] at hmore
    rw [convertCodepoints,←hnext]
    unfold TerminalChar.text at hmore
    dsimp only
    split_ifs at hmore ⊢ with hblank hnone
    · exact ih _ hmore
    · omega
    · rw [length_append] at hmore
      rw [guacUtf8Write_eq_encodingOf] at hnone ⊢
      by_cases hfits : (encodingOf (characters i).value).length≤remaining
      · rw [if_pos hfits]
        exact ih _ (by omega)
      · rw [if_neg hfits] at hnone
        exact absurd rfl hnone

/-! ## Appending to the clipboard -/

theorem Clipboard.ext_buffer {clipboard clipboard' : Clipboard}
    (hmimetype : clipboard.mimetype=clipboard'.mimetype)
    (hbuffer : clipboard.buffer=clipboard'.buffer)
    (havailable : clipboard.available=clipboard'.available) : clipboard=clipboard' := by
  cases clipboard
  cases clipboard'
  cases hmimetype
  cases hbuffer
  cases havailable
  rfl

/-- The clipboard has what was appended as far as it has room for it. -/
theorem clipboardAppend_buffer (clipboard : Clipboard) (data : List UInt8) :
    (guacCommonClipboardAppend clipboard data).buffer=
      (clipboard.buffer++data).take clipboard.available := by
  rw [take_append,take_of_length_le clipboard.length_le]
  rfl

theorem clipboardAppend_nil (clipboard : Clipboard) :
    guacCommonClipboardAppend clipboard []=clipboard := by
  refine Clipboard.ext_buffer rfl ?_ rfl
  rw [clipboardAppend_buffer,append_nil,take_of_length_le clipboard.length_le]

/-- Appending twice is appending both at once. -/
theorem clipboardAppend_append (clipboard : Clipboard) (data data' : List UInt8) :
    guacCommonClipboardAppend (guacCommonClipboardAppend clipboard data) data'=
      guacCommonClipboardAppend clipboard (data++data') := by
  refine Clipboard.ext_buffer rfl ?_ rfl
  have havailable : (guacCommonClipboardAppend clipboard data).available=clipboard.available := rfl
  rw [clipboardAppend_buffer,clipboardAppend_buffer,clipboardAppend_buffer,havailable,
    ←append_assoc]
  generalize clipboard.buffer++data=bytes
  rw [take_append,take_take,min_self,take_append,length_take]
  rcases le_total clipboard.available bytes.length with hle | hle
  · rw [min_eq_left hle,Nat.sub_self,Nat.sub_eq_zero_of_le hle]
  · rw [min_eq_right hle]

/-! ## Copying a row -/

section Row

variable {bufferRow : BufferRow} {start last : ℤ}

theorem appendChunks_done {i : ℤ} (hi : ¬i≤last) (fuel : ℕ) (clipboard : Clipboard) :
    appendChunks bufferRow start last fuel i clipboard=some clipboard := by
  cases fuel with
  | zero => exact if_neg hi
  | succ fuel => exact if_neg hi

/-- A range whose text fits in the buffer is copied in one turn. -/
theorem appendChunks_fits (hle : start≤last)
    (hfits : (columnsText bufferRow.characters (last-start+1).toNat start).length≤1024)
    (fuel : ℕ) (clipboard : Clipboard) :
    appendChunks bufferRow start last (fuel+1) start clipboard=
      some (guacCommonClipboardAppend clipboard
        (columnsText bufferRow.characters (last-start+1).toNat start)) := by
  rw [appendChunks,if_pos hle]
  dsimp only
  rw [convertCodepoints_fits _ _ _ hfits]
  exact appendChunks_done (by omega) _ _

/-- A range whose text does not fit is converted again and again. -/
theorem appendChunks_endless
    (hmore : 1024<(columnsText bufferRow.characters (last-start+1).toNat start).length)
    (fuel : ℕ) {i : ℤ} (hi : i≤last) (clipboard : Clipboard) :
    appendChunks bufferRow start last fuel i clipboard=none := by
  induction fuel generalizing i clipboard with
  | zero => rw [appendChunks,if_pos hi]
  | succ fuel ih =>
    have hstops := convertCodepoints_stops bufferRow.characters _ start hmore
    have hcount : 0<(last-start+1).toNat := by
      by_contra hzero
      rw [Nat.eq_zero_of_not_pos hzero] at hmore
      exact absurd hmore (Nat.not_lt_zero _)
    rw [appendChunks,if_pos hi]
    exact ih (by omega) _

end Row

variable {term} {row start last : ℤ}

/-- The text that guac_terminal_clipboard_append_row copies, a negative last column being
that of the row. -/
def appendedText (term : GuacTerminal) (row start last : ℤ) : List UInt8 :=
  (term.bufferRow row).text start (if last<0 then (term.bufferRow row).length-1 else last)

/-- The last column, clipped to the row. -/
theorem clippedLast_eq (length : ℤ) : (if last<0 ∨ last > length-1 then length-1 else last)=
    min (if last<0 then length-1 else last) (length-1) := by
  split_ifs <;> omega

/-- A row whose text fits is appended in one chunk. -/
theorem appendRow_fits (hstart : 0 ≤ start)
    (hfits : (appendedText term row start last).length≤1024) (fuel : ℕ) (clipboard : Clipboard) :
    guacTerminalClipboardAppendRow term (fuel+1) row start last clipboard=
      some (guacCommonClipboardAppend clipboard (appendedText term row start last)) := by
  unfold guacTerminalClipboardAppendRow
  unfold appendedText BufferRow.text at hfits ⊢
  dsimp only
  rw [clippedLast_eq]
  generalize hclipped : min _ ((term.bufferRow row).length-1)=clipped at *
  by_cases hle : start≤clipped
  · rw [if_neg (by omega),appendChunks_fits hle hfits]
  · have hnone : columnsText (term.bufferRow row).characters (clipped-start+1).toNat start=[] := by
      rw [Int.toNat_of_nonpos (by omega)]
      rfl
    rw [hnone,clipboardAppend_nil,appendChunks_done hle,ite_self]

theorem appendRow_endless (hstart : 0 ≤ start)
    (hmore : 1024<(appendedText term row start last).length) (fuel : ℕ)
    (clipboard : Clipboard) :
    guacTerminalClipboardAppendRow term fuel row start last clipboard=none := by
  unfold guacTerminalClipboardAppendRow
  unfold appendedText BufferRow.text at hmore
  dsimp only
  rw [clippedLast_eq]
  generalize hclipped : min _ ((term.bufferRow row).length-1)=clipped at *
  have hle : start≤clipped := by
    by_contra hlt
    rw [Int.toNat_of_nonpos (by omega)] at hmore
    exact absurd hmore (Nat.not_lt_zero _)
  rw [if_neg (by omega)]
  exact appendChunks_endless hmore fuel hle clipboard

/-! ## Copying rows -/

theorem appendLine_fits (hfits : (appendedText term row 0 last).length≤1024) (fuel : ℕ)
    (clipboard : Clipboard) :
    appendLine term (fuel+1) row last clipboard=
      some (guacCommonClipboardAppend clipboard (10::appendedText term row 0 last)) := by
  unfold appendLine
  rw [appendRow_fits le_rfl hfits,clipboardAppend_append]
  rfl

/-- Rows whose text fits are appended with line feeds. -/
theorem appendMiddle_fits (count : ℕ) (row : ℤ)
    (hfits : ∀ row' ∈ rowsFrom row count, (appendedText term row' 0 (-1)).length≤1024)
    (fuel : ℕ) (clipboard : Clipboard) :
    appendMiddle term (fuel+1) count row clipboard=some (guacCommonClipboardAppend clipboard
        ((rowsFrom row count).flatMap fun row' => 10::appendedText term row' 0 (-1))) := by
  induction count generalizing row clipboard with
  | zero => exact congrArg some (clipboardAppend_nil clipboard).symm
  | succ count ih =>
    rw [rowsFrom_succ,forall_mem_cons] at hfits
    rw [appendMiddle,appendLine_fits hfits.1,Option.bind_some,ih _ hfits.2,
      clipboardAppend_append,rowsFrom_succ,flatMap_cons]

/-- A row whose text does not fit is appended for ever. -/
theorem appendMiddle_endless (count : ℕ) (row : ℤ)
    (hmore : ∃ row' ∈ rowsFrom row count, 1024<(appendedText term row' 0 (-1)).length)
    (fuel : ℕ) (clipboard : Clipboard) : appendMiddle term fuel count row clipboard=none := by
  induction count generalizing row clipboard with
  | zero =>
    obtain ⟨row',hmem,-⟩ := hmore
    exact absurd hmem not_mem_nil
  | succ count ih =>
    rw [appendMiddle]
    by_cases hfirst : 1024<(appendedText term row 0 (-1)).length
    · rw [appendLine,appendRow_endless le_rfl hfirst]
      rfl
    · obtain ⟨row',hmem,hlong⟩ := hmore
      rw [rowsFrom_succ,mem_cons] at hmem
      have hrest : row' ∈ rowsFrom (row+1) count := by
        rcases hmem with rfl | hmem
        · exact absurd hlong hfirst
        · exact hmem
      cases appendLine term fuel row (-1) clipboard with
      | none => rfl
      | some clipboard' => exact ih _ ⟨row',hrest,hlong⟩ clipboard'

/-! ## Copying a selection -/

/-- The rows of a text follow the first one after newlines. -/
theorem intercalate_cons (text : List UInt8) (texts : List (List UInt8)) :
    List.intercalate [10] (text::texts)=text++texts.flatMap (10 :: ·) := by
  induction texts generalizing text with
  | nil => rw [intercalate_singleton,flatMap_nil,append_nil]
  | cons text' texts ih =>
    rw [intercalate_cons_cons,ih,flatMap_cons,append_assoc]
    rfl

/-- The first row of several, the middle ones, and the last one. -/
theorem rows_of_lt {range : NormalizedRange} (hlt : range.startRow<range.endRow) :
    range.rows=range.startRow::(rowsFrom (range.startRow+1)
      (range.endRow-(range.startRow+1)).toNat++[range.endRow]) := by
  have hcount : (range.endRow-range.startRow+1).toNat=
      (range.endRow-(range.startRow+1)).toNat+1+1 := by omega
  have hlast : range.startRow+1+((range.endRow-(range.startRow+1)).toNat : ℤ)=
      range.endRow := by omega
  unfold NormalizedRange.rows
  rw [hcount,rowsFrom_succ,rowsFrom,range_succ,map_append,map_singleton,hlast]
  rfl

theorem rows_of_eq {range : NormalizedRange} (heq : range.endRow=range.startRow) :
    range.rows=[range.startRow] := by
  unfold NormalizedRange.rows
  rw [heq,sub_self,zero_add,Int.toNat_one,rowsFrom_succ]
  rfl

/-- A range of columns of the screen, in order. -/
structure NormalizedRange.Ordered (range : NormalizedRange) : Prop where
  rows_le : range.startRow≤range.endRow
  startCol_nonneg : 0≤range.startCol
  endCol_nonneg : 0≤range.endCol

variable {range : NormalizedRange}

/-- The text that is appended for each row is that which is selected. -/
theorem appendedText_eq (term : GuacTerminal) (hordered : range.Ordered) :
    (range.endRow=range.startRow → appendedText term range.startRow range.startCol range.endCol=
      rowText term range range.startRow) ∧
    (range.startRow<range.endRow →
      appendedText term range.startRow range.startCol (-1)=rowText term range range.startRow ∧
      (∀ row∈rowsFrom (range.startRow+1) (range.endRow-(range.startRow+1)).toNat,
        appendedText term row 0 (-1)=rowText term range row) ∧
      appendedText term range.endRow 0 range.endCol=rowText term range range.endRow) := by
  have hend := hordered.endCol_nonneg
  unfold appendedText rowText
  refine ⟨fun heq => ?_,fun hlt => ⟨?_,fun row hrow => ?_,?_⟩⟩
  · rw [if_neg (by omega),if_pos rfl,if_pos heq.symm]
  · rw [if_pos (by decide),if_pos rfl,if_neg (by omega)]
  · unfold rowsFrom at hrow
    obtain ⟨k,hk,rfl⟩ := mem_map.mp hrow
    rw [mem_range] at hk
    rw [if_pos (by decide),if_neg (by omega),if_neg (by omega)]
  · rw [if_neg (by omega),if_neg (by omega),if_pos rfl]

/-- A selection whose rows fit is copied. -/
theorem copySelected_fits (hordered : range.Ordered)
    (hfits : ∀ row∈range.rows, (rowText term range row).length≤1024) (fuel : ℕ)
    (clipboard : Clipboard) :
    copySelected term (fuel+1) range clipboard=
      some (guacCommonClipboardAppend clipboard (selectedText term range)) := by
  obtain ⟨hone,hseveral⟩ := appendedText_eq term hordered
  unfold copySelected
  split_ifs with heq
  · rw [rows_of_eq heq] at hfits
    rw [selectedText,rows_of_eq heq,map_singleton,intercalate_singleton,←hone heq]
    refine appendRow_fits hordered.startCol_nonneg ?_ fuel clipboard
    rw [hone heq]
    exact hfits _ mem_cons_self
  · have hlt : range.startRow<range.endRow := by
      have hle := hordered.rows_le
      omega
    obtain ⟨hfirst,hmiddle,hlast⟩ := hseveral hlt
    rw [rows_of_lt hlt,forall_mem_cons,forall_mem_append] at hfits
    obtain ⟨hfitsFirst,hfitsMiddle,hfitsLast⟩ := hfits
    have htext : selectedText term range=appendedText term range.startRow range.startCol (-1)++
        ((rowsFrom (range.startRow+1) (range.endRow-(range.startRow+1)).toNat).flatMap
          fun row => 10::appendedText term row 0 (-1))++
        (10::appendedText term range.endRow 0 range.endCol) := by
      unfold selectedText
      rw [rows_of_lt hlt,map_cons,map_append,map_singleton,intercalate_cons,
        flatMap_append,flatMap_singleton,flatMap_map,hfirst,hlast,append_assoc]
      exact congrArg _ (congrArg (· ++ _) (flatMap_congr fun row hrow => by
        rw [hmiddle row hrow]))
    rw [htext,appendRow_fits hordered.startCol_nonneg (by rwa [hfirst]),Option.bind_eq_bind,
      Option.bind_some,appendMiddle_fits _ _ fun row hrow => by
        rw [hmiddle row hrow]
        exact hfitsMiddle row hrow]
    rw [Option.bind_some,appendLine_fits (by
      rw [hlast]
      exact hfitsLast _ mem_cons_self),clipboardAppend_append,clipboardAppend_append,
      append_assoc]

theorem copySelected_endless (hordered : range.Ordered)
    (hmore : ∃ row∈range.rows, 1024<(rowText term range row).length) (fuel : ℕ)
    (clipboard : Clipboard) : copySelected term fuel range clipboard=none := by
  obtain ⟨hone,hseveral⟩ := appendedText_eq term hordered
  obtain ⟨row,hrow,hlong⟩ := hmore
  unfold copySelected
  split_ifs with heq
  · rw [rows_of_eq heq,mem_singleton] at hrow
    rw [hrow,←hone heq] at hlong
    exact appendRow_endless hordered.startCol_nonneg hlong fuel clipboard
  · have hlt : range.startRow<range.endRow := by
      have hle := hordered.rows_le
      omega
    obtain ⟨hfirst,hmiddle,hlast⟩ := hseveral hlt
    rw [rows_of_lt hlt,mem_cons,mem_append,mem_singleton] at hrow
    -- what comes before the row may be endless as well
    cases hcopied : guacTerminalClipboardAppendRow term fuel range.startRow range.startCol (-1)
        clipboard with
    | none => rfl
    | some clipboard' =>
      rw [Option.bind_eq_bind,Option.bind_some]
      rcases hrow with rfl | hrow | rfl
      · rw [←hfirst] at hlong
        rw [appendRow_endless hordered.startCol_nonneg hlong] at hcopied
        cases hcopied
      · rw [appendMiddle_endless _ _ ⟨row,hrow,by rwa [hmiddle row hrow]⟩]
        rfl
      · cases appendMiddle term fuel _ (range.startRow+1) clipboard' with
        | none => rfl
        | some clipboard'' =>
          rw [←hlast] at hlong
          exact appendRow_endless le_rfl hlong fuel _

/-- A selection is copied exactly if the text of each of its rows fits in the buffer by
which it is converted. -/
theorem copiesSelection_iff (term : GuacTerminal) (clipboard : Clipboard)
    (hselected : term.textSelected=true)
    (hordered : (guacTerminalSelectNormalizedRange term).Ordered) :
    CopiesSelection term clipboard ↔ ∀ row∈(guacTerminalSelectNormalizedRange term).rows,
      (rowText term (guacTerminalSelectNormalizedRange term) row).length≤1024 := by
  constructor
  · rintro ⟨enough,hcopies⟩ row hrow
    by_contra hlong
    obtain ⟨term',clipboard',hends,-⟩ := hcopies enough le_rfl
    unfold guacTerminalSelectEnd at hends
    dsimp only at hends
    rw [hselected,copySelected_endless hordered ⟨row,hrow,not_le.mp hlong⟩] at hends
    cases hends
  · intro hfits
    refine ⟨1,fun fuel hfuel => ?_⟩
    obtain ⟨fuel,rfl⟩ := Nat.exists_eq_add_of_le' hfuel
    unfold guacTerminalSelectEnd
    dsimp only
    rw [hselected,copySelected_fits hordered hfits]
    exact ⟨_,_,rfl,rfl,clipboardAppend_buffer _ _⟩

/-- A terminal of 600 columns, whose first row is full of letters of two bytes and is
selected as far as a column. -/
def longRow (selected : ℤ) : GuacTerminal :=
  let term := guacTerminalAlloc consoleMemory consoleSettings 4800 48
  let letter : TerminalChar := ⟨0xE9,term.currentAttributes,1⟩
  { term with
    buffer := { term.buffer with
      rows := Function.update term.buffer.rows 0 ⟨fun _ => letter,600,1200⟩
      length := 1 }
    textSelected := true
    selectionStartWidth := 1
    selectionEndColumn := selected
    selectionEndWidth := 1 }

/-- Three letters. -/
theorem copiesSelection_iff_three : CopiesSelection (longRow 2) ⟨[],[],4,Nat.zero_le _⟩ :=
  (copiesSelection_iff (longRow 2) ⟨[],[],4,Nat.zero_le _⟩ rfl
    ⟨by decide,by decide,by decide⟩).mpr (by decide)

theorem columnsText_length (c : TerminalChar) (count : ℕ) (start : ℤ) :
    (columnsText (fun _ => c) count start).length=count*c.text.length := by
  unfold columnsText
  rw [length_flatMap,map_const',length_range,sum_replicate_nat]

/-- All of the row, which is 1200 bytes. -/
theorem not_copiesSelection_longRow :
    ¬CopiesSelection (longRow 599) ⟨[],[],262144,Nat.zero_le _⟩ := by
  rintro ⟨enough,hcopies⟩
  obtain ⟨term',clipboard',hends,-⟩ := hcopies enough le_rfl
  have hordered : (guacTerminalSelectNormalizedRange (longRow 599)).Ordered :=
    ⟨by decide,by decide,by decide⟩
  have hlong : 1024<(rowText (longRow 599)
      (guacTerminalSelectNormalizedRange (longRow 599)) 0).length := by
    have hrow : (longRow 599).bufferRow 0=⟨fun _ => ⟨0xE9,(longRow 599).currentAttributes,1⟩,
        600,1200⟩ := rfl
    unfold rowText
    rw [hrow]
    unfold BufferRow.text
    dsimp only
    rw [columnsText_length]
    decide
  unfold guacTerminalSelectEnd at hends
  dsimp only at hends
  rw [copySelected_endless hordered ⟨0,by decide,hlong⟩] at hends
  cases hends

end GuacServer.Terminal
