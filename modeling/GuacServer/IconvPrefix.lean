import GuacServer.BoundedEmission
import GuacServer.Iconv

/-!
# What a conversion writes

A conversion of whole characters writes each of them that fits into the room that is left
when it is read, and goes on as long as there is room. What it writes is the encoding of
an initial segment of the characters, up to and with the terminator, unless a character that
does not fit is followed by one that does or by the terminator.
-/

namespace GuacServer.Iconv

open BoundedEmission List Unicode Utf8Coding

/-- An input of whole characters, with the values that are read. -/
inductive Whole (order : ByteOrder) (reader : Encoding) : List UInt8→List ℤ→Prop
  /-- No characters. -/
  | nil : Whole order reader [] []
  /-- A character before others. -/
  | cons {input : List UInt8} {value : ℤ} {bytes : ℕ} {values : List ℤ} (hne : input≠[])
      (hread : ∀ uninitialized, reader.read order uninitialized input=(value,bytes))
      (hbytes : 0<bytes) (hrest : Whole order reader (input.drop bytes) values) :
      Whole order reader input (value::values)

/-- The encoding of a character: what is written of it where there is room for any. -/
def Encoding.encode (order : ByteOrder) (writer : Encoding) (value : ℤ) : List UInt8 :=
  writer.write order 4 value

/-- Only a code point of 16 bits is encoded by a uint16_t. -/
def Encoding.Encodes (writer : Encoding) (value : ℤ) : Prop := writer=.utf16 → value≤0xFFFF

/-- The characters before the first terminator. -/
def beforeNul (values : List ℤ) : List ℤ := values.takeWhile (· ≠ 0)

/-- The characters up to and with the first terminator. -/
def throughNul (values : List ℤ) : List ℤ := beforeNul values++if 0∈values then [0] else []

/-- The bytes written are the encoding of an initial segment of the characters up to the
terminator, and one is returned exactly if the terminator is among them. -/
structure WritesPrefix (order : ByteOrder) (writer : Encoding) (values : List ℤ)
    (result : IconvResult) : Prop where
  /-- The bytes. -/
  output : ∃ k, result.output=((throughNul values).take k).flatMap (writer.encode order) ∧
    ∀ value∈(throughNul values).take k, writer.Encodes value
  /-- The value returned. -/
  retval : result.retval=1 ↔
    0∈values ∧ result.output=(throughNul values).flatMap (writer.encode order)

/-- The first character that does not fit, where there is still room, is neither the terminator
nor followed by it or by a character that fits, and characters that fit have an encoding. -/
structure Settles (order : ByteOrder) (writer : Encoding) (values : List ℤ) (room : ℕ) :
    Prop where
  /-- The first character that does not fit. -/
  overflow : ∀ before value after, throughNul values=before++value::after →
    size (writer.encode order) before<room →
    room<size (writer.encode order) before+(writer.encode order value).length →
    value≠0 ∧ ∀ later∈after, later≠0 ∧
      room<size (writer.encode order) before+(writer.encode order later).length
  /-- Characters that fit. -/
  encodes : ∀ before value after, throughNul values=before++value::after →
    size (writer.encode order) (before++[value])≤room → writer.Encodes value

variable {order : ByteOrder} {reader writer : Encoding}

/-- A character is written by a writer completely where there is room, and else not at all. -/
def WritesWhole (write : ℕ→ℤ→List UInt8) (value : ℤ) (code : List UInt8) : Prop :=
  code≠[] ∧ code.length≤4 ∧ ∀ room, 0<room → write room value=if code.length≤room then code else []

/-- A code point is written to UTF-8 in one to four bytes. -/
theorem guacUtf8Write_whole (value : ℤ) : ∃ code, WritesWhole guacWriteUtf8 value code := by
  cases hsize : utf8Size value with
  | none =>
    refine ⟨[63],cons_ne_nil _ _,by decide,fun room hroom => ?_⟩
    rw [guacWriteUtf8,guacUtf8Write,if_neg hroom.ne',hsize]
    exact (if_pos hroom).symm
  | some maskBytes =>
    obtain ⟨mask,bytes⟩ := maskBytes
    have hbounds : 0<bytes ∧ bytes≤4 := by
      unfold utf8Size at hsize
      split_ifs at hsize <;> cases hsize <;> decide
    have hlength := length_writeTrailing (bytes-1) value []
    refine ⟨UInt8.ofNat (mask ||| ((writeTrailing (bytes-1) value []).1%0x100).toNat)::
      (writeTrailing (bytes-1) value []).2,cons_ne_nil _ _,?_,fun room hroom => ?_⟩
    · rw [length_cons,hlength,length_nil]
      omega
    · rw [guacWriteUtf8,guacUtf8Write,if_neg hroom.ne',hsize,length_cons,hlength,
        length_nil]
      dsimp only
      by_cases hfits : bytes > room
      · rw [if_pos hfits,if_neg (by omega)]
      · rw [if_neg hfits,if_pos (by omega)]

/-- Every writer writes whole characters. -/
theorem Encoding.write_whole (order : ByteOrder) (writer : Encoding) (value : ℤ) :
    ∃ code, WritesWhole (writer.write order) value code := by
  cases writer with
  | utf8 => exact guacUtf8Write_whole value
  | utf16 =>
    have hlength : (order.bytes value).length=2 := by cases order <;> rfl
    refine ⟨order.bytes value,by cases order <;> exact cons_ne_nil _ _,by omega,
      fun room _ => ?_⟩
    show guacWriteUtf16 order room value=_
    rw [guacWriteUtf16,hlength]
    by_cases hfits : room<2
    · rw [if_pos hfits,if_neg (by omega)]
    · rw [if_neg hfits,if_pos (by omega)]
  | cp1252 =>
    exact ⟨guacWriteCp1252 4 value,cons_ne_nil _ _,(by decide : 1≤4),
      fun _ hroom => (if_pos hroom).symm⟩
  | iso8859 =>
    exact ⟨guacWriteIso8859 4 value,cons_ne_nil _ _,(by decide : 1≤4),
      fun _ hroom => (if_pos hroom).symm⟩

/-- The encoding of a character is what its writer writes. -/
theorem Encoding.encode_whole (order : ByteOrder) (writer : Encoding) (value : ℤ) :
    WritesWhole (writer.write order) value (writer.encode order value) := by
  obtain ⟨code,hwhole⟩ := writer.write_whole order value
  have hencode : writer.encode order value=code := by
    rw [Encoding.encode,hwhole.2.2 4 (by decide),if_pos hwhole.2.1]
  rwa [hencode]

theorem Encoding.encode_ne_nil (order : ByteOrder) (writer : Encoding) (value : ℤ) :
    writer.encode order value≠[] := (writer.encode_whole order value).1

/-! ## Inputs of whole characters -/

/-- Encoded code points are whole characters of UTF-8. -/
theorem whole_utf8 (order : ByteOrder) {values : List ℕ} (h : ∀ v∈values, v≤0x1FFFFF) :
    Whole order .utf8 (values.flatMap utf8Bytes) (values.map Nat.cast) := by
  induction values with
  | nil => exact .nil
  | cons v values ih =>
    rw [forall_mem_cons] at h
    obtain ⟨lead,rest,hbytes,-⟩ := utf8Bytes_charsize v
    rw [flatMap_cons,map_cons]
    have hne : utf8Bytes v++values.flatMap utf8Bytes≠[] := by simp [hbytes]
    have hpos : 0<(utf8Bytes v).length := by simp [hbytes]
    refine .cons hne (fun uninitialized => ?_) hpos ?_
    · show guacReadUtf8 uninitialized _ = _
      rw [guacReadUtf8,guacUtf8Read_utf8Bytes h.1]
    · rw [drop_left]
      exact ih h.2

/-! ## What is written -/

theorem throughNul_zero (values : List ℤ) : throughNul (0::values)=[0] := by
  rw [throughNul,beforeNul,takeWhile_cons_of_neg (by decide),if_pos mem_cons_self]
  rfl

theorem beforeNul_cons {value : ℤ} (h : value≠0) (values : List ℤ) :
    beforeNul (value::values)=value::beforeNul values :=
  takeWhile_cons_of_pos (by simpa using h)

theorem throughNul_cons {value : ℤ} (h : value≠0) (values : List ℤ) :
    throughNul (value::values)=value::throughNul values := by
  have hmem : 0∈value::values ↔ 0∈values := by simp [h.symm]
  unfold throughNul
  rw [beforeNul_cons h,cons_append]
  simp only [hmem]

/-- A character is emitted before others as it is written. -/
theorem emit_write (order : ByteOrder) (writer : Encoding) {room : ℕ} (hroom : 0<room)
    (value : ℤ) (values : List ℤ) :
    emit (writer.encode order) room (value::values)=writer.write order room value++
      emit (writer.encode order) (room-(writer.write order room value).length) values := by
  have hwrite := (writer.encode_whole order value).2.2 room hroom
  rw [emit]
  by_cases hfits : (writer.encode order value).length≤room
  · rw [if_pos hfits] at hwrite
    rw [if_pos hfits,hwrite]
  · rw [if_neg hfits] at hwrite
    rw [if_neg hfits,hwrite]
    rfl

/-- Nothing is emitted without room. -/
theorem emit_zero (order : ByteOrder) (writer : Encoding) (values : List ℤ) :
    emit (writer.encode order) 0 values=[] :=
  eq_nil_of_length_eq_zero (Nat.le_zero.mp (length_emit_le _ _ _))

variable {values : List ℤ}

/-- The characters up to the terminator are emitted into the room, and one is returned if there
is room left when the terminator is reached. -/
theorem converts_emit {input : List UInt8} (h : Whole order reader input values)
    (writer : Encoding) (uninitialized : ℕ→ℤ) (outRemaining : ℕ) :
    ∃ result, Converts order reader writer uninitialized input outRemaining result ∧
      result.output=emit (writer.encode order) outRemaining (throughNul values) ∧
      (result.retval=1 ↔ 0∈values ∧
        (emit (writer.encode order) outRemaining (beforeNul values)).length<outRemaining) := by
  induction h generalizing uninitialized outRemaining with
  | nil => exact ⟨_,converts_stop (Or.inl rfl),rfl,by simp⟩
  | @cons input value bytes values hne hread hbytes hrest ih =>
    by_cases hroom : outRemaining=0
    · refine ⟨_,converts_stop (Or.inr hroom),?_,?_⟩
      · rw [hroom,emit_zero]
      · simp [hroom]
    · have hgoes : ¬(input=[] ∨ outRemaining=0) := not_or.mpr ⟨hne,hroom⟩
      have hpos := Nat.pos_of_ne_zero hroom
      have hvalue := congrArg Prod.fst (hread (uninitialized 0))
      have hpassed := congrArg Prod.snd (hread (uninitialized 0))
      dsimp only at hvalue hpassed
      by_cases hzero : value=0
      · subst hzero
        refine ⟨_,converts_terminator hgoes hvalue,?_,?_⟩
        · dsimp only
          rw [hvalue,throughNul_zero,emit_write order writer hpos,emit,append_nil]
        · simp [beforeNul,emit,hpos]
      · obtain ⟨rest,hconverts,houtput,hretval⟩ := ih (fun n => uninitialized (n+1))
          (outRemaining-(writer.write order outRemaining value).length)
        refine ⟨rest.after (writer.write order outRemaining value),?_,?_,?_⟩
        · rw [converts_iff hgoes (hvalue.symm ▸ hzero),hvalue,hpassed]
          exact ⟨rest,hconverts,rfl⟩
        · rw [throughNul_cons hzero,emit_write order writer hpos,←houtput]
          rfl
        · have hmem : 0∈value::values ↔ 0∈values := by simp [Ne.symm hzero]
          rw [beforeNul_cons hzero,emit_write order writer hpos,hmem,length_append]
          refine hretval.trans (and_congr_right fun _ => ?_)
          omega

theorem throughNul_of_mem (h : 0∈values) :
    throughNul values=beforeNul values++[0] := by
  rw [throughNul,if_pos h]

theorem zero_mem_throughNul (h : 0∈throughNul values) : 0∈values := by
  by_contra hmem
  rw [throughNul,if_neg hmem,append_nil] at h
  exact absurd (mem_takeWhile_imp h) (by decide)

/-- A part of the characters that is followed by others is before the terminator, which is among
those. -/
theorem split_beforeNul {values before after : List ℤ} {value : ℤ} (hmem : 0∈values)
    (h : throughNul values=before++value::after) :
    ∃ rest, beforeNul values=before++rest ∧ 0∈value::after := by
  rw [throughNul_of_mem hmem,append_eq_append_iff] at h
  rcases h with ⟨rest,hbefore,hrest⟩ | ⟨rest,hbefore,hrest⟩
  · have hnil : rest=[] := by
      have hlength := congrArg List.length hrest
      simp only [length_append,length_cons,length_nil] at hlength
      exact eq_nil_of_length_eq_zero (by omega)
    subst hnil
    rw [append_nil] at hbefore
    rw [nil_append] at hrest
    exact ⟨[],by rw [hbefore,append_nil],by rw [←hrest]; exact mem_singleton_self 0⟩
  · exact ⟨rest,hbefore,by rw [hrest]; exact mem_append_right _ (mem_singleton_self 0)⟩

/-- Where nothing fits after the first character that does not, there is room left at the
terminator without its being written exactly if the terminator is among the characters that do
not fit. -/
theorem retval_iff (order : ByteOrder) (writer : Encoding) {room : ℕ}
    (hsettled : Settled (writer.encode order) room (throughNul values)) :
    (0∈values ∧ (emit (writer.encode order) room (beforeNul values)).length<room ↔
      0∈values ∧ emit (writer.encode order) room (throughNul values)=
        (throughNul values).flatMap (writer.encode order)) ↔
      ∀ before value after, throughNul values=before++value::after →
        size (writer.encode order) before<room →
        room<size (writer.encode order) before+(writer.encode order value).length →
        0 ∉ value::after := by
  by_cases hmem : 0∈values
  · rw [and_iff_right hmem,and_iff_right hmem]
    rcases fits_or_crosses (writer.encode order) room (throughNul values) with
      hall | ⟨before,value,after,hsplit,hbefore,hcross⟩
    · -- everything is written, and no character does not fit
      have hsize := hall
      rw [throughNul_of_mem hmem,size_append,size_cons] at hsize
      have hnul := length_pos (writer.encode_ne_nil order) 0
      have hroom : (emit (writer.encode order) room (beforeNul values)).length<room := by
        rw [emit_of_size_le (by omega)]
        change size (writer.encode order) (beforeNul values)<room
        omega
      refine iff_of_true (iff_of_true hroom (emit_of_size_le hall)) ?_
      intro before value after hsplit _ hcross
      rw [hsplit,size_append,size_cons] at hall
      omega
    · have hlength := length_emit_le (writer.encode order) room (throughNul values)
      have hne : emit (writer.encode order) room (throughNul values)≠
          (throughNul values).flatMap (writer.encode order) := by
        intro heq
        have hsize := congrArg (size (writer.encode order)) hsplit
        rw [heq] at hlength
        change size (writer.encode order) (throughNul values)≤room at hlength
        rw [size_append,size_cons] at hsize
        omega
      obtain ⟨rest,hrest,hzero⟩ := split_beforeNul hmem hsplit
      rw [iff_false_right hne]
      rcases Nat.eq_or_lt_of_le hbefore with hfull | hroom
      · -- the characters before it fill the room
        refine iff_of_true ?_ ?_
        · rw [hrest,emit_append_of_size_le hbefore,length_append]
          change ¬size (writer.encode order) before+_ < room
          omega
        · intro before' value' after' hsplit' hroom' hcross'
          have heq := congrArg List.length (hsettled.emit_eq hsplit' hroom' hcross')
          rw [hsplit,emit_append_of_size_le hbefore,length_append] at heq
          change size (writer.encode order) before+_ = size (writer.encode order) before' at heq
          omega
      · -- nothing is written from there on
        refine iff_of_false (not_not.mpr ?_) fun h => h before value after hsplit hroom hcross hzero
        have heq := congrArg List.length (hsettled.emit_eq hsplit hroom hcross)
        rw [throughNul_of_mem hmem,emit_append,length_append] at heq
        change _ + _ = size (writer.encode order) before at heq
        omega
  · refine iff_of_true (iff_of_false (fun h => hmem h.1) fun h => hmem h.1) ?_
    intro before value after hsplit _ _ hzero
    exact hmem (zero_mem_throughNul (hsplit ▸ mem_append_right before hzero))

/-- The two conditions on the first character that does not fit. -/
theorem settles_iff (order : ByteOrder) (writer : Encoding) (values : List ℤ) (room : ℕ) :
    Settles order writer values room ↔ (Settled (writer.encode order) room (throughNul values) ∧
        ∀ before value after, throughNul values=before++value::after →
          size (writer.encode order) (before++[value])≤room → writer.Encodes value) ∧
      ∀ before value after, throughNul values=before++value::after →
        size (writer.encode order) before<room →
        room<size (writer.encode order) before+(writer.encode order value).length →
        0 ∉ value::after := by
  constructor
  · rintro ⟨hoverflow,hencodes⟩
    refine ⟨⟨fun before value after hsplit hroom hcross later hlater => ?_,hencodes⟩,
      fun before value after hsplit hroom hcross hzero => ?_⟩
    · exact ((hoverflow before value after hsplit hroom hcross).2 later hlater).2
    · obtain ⟨hvalue,hafter⟩ := hoverflow before value after hsplit hroom hcross
      rcases mem_cons.mp hzero with heq | hzero
      · exact hvalue heq.symm
      · exact (hafter 0 hzero).1 rfl
  · rintro ⟨⟨hsettled,hencodes⟩,hzero⟩
    refine ⟨fun before value after hsplit hroom hcross => ?_,hencodes⟩
    have hnone := hzero before value after hsplit hroom hcross
    refine ⟨fun heq => hnone (heq ▸ mem_cons_self),fun later hlater => ⟨fun heq => ?_,?_⟩⟩
    · exact hnone (heq ▸ mem_cons_of_mem value hlater)
    · exact hsettled before value after hsplit hroom hcross later hlater

/-- U+00E9, U+0041 and the terminator. -/
theorem whole_accented : Whole .little .utf8 [0xC3,0xA9,0x41,0] [0xE9,0x41,0] :=
  whole_utf8 .little (by decide : ∀ v∈[0xE9,0x41,0], v≤0x1FFFFF)

end GuacServer.Iconv
