import Mathlib.Data.List.Range
import GuacServer.Utf8Coding

/-!
# Conversion between encodings

guac_iconv of common/iconv.c with its readers and writers. A reader gives a
value and the number of bytes it has passed; on a truncated character the value
of GUAC_READ_UTF8 is whatever its variable held. A writer writes nothing where
there is too little room, and so the loop may stop making progress.
-/

namespace GuacServer.Iconv

open Unicode Utf8Coding

/-- The order of the bytes of a uint16_t. -/
inductive ByteOrder
  | little
  | big
  deriving DecidableEq

/-- A uint16_t from its bytes in memory. -/
def ByteOrder.value (order : ByteOrder) (first second : UInt8) : ℕ :=
  match order with
  | .little => second.toNat*0x100+first.toNat
  | .big => first.toNat*0x100+second.toNat

/-- The bytes in memory of an int stored as a uint16_t. -/
def ByteOrder.bytes (order : ByteOrder) (value : ℤ) : List UInt8 :=
  let low := UInt8.ofNat (value%0x100).toNat
  let high := UInt8.ofNat (value/0x100%0x100).toNat
  match order with
  | .little => [low,high]
  | .big => [high,low]

/-- __GUAC_RDP_CP1252_CODEPOINT. -/
def cp1252Codepoint : List ℤ :=
  [0x20AC,0xFFFD,0x201A,0x0192,0x201E,0x2026,0x2020,0x2021,
    0x02C6,0x2030,0x0160,0x2039,0x0152,0xFFFD,0x017D,0xFFFD,
    0xFFFD,0x2018,0x2019,0x201C,0x201D,0x2022,0x2013,0x2014,
    0x02DC,0x2122,0x0161,0x203A,0x0153,0xFFFD,0x017E,0x0178]

/-- GUAC_READ_UTF8, given what its variable holds: the value read and the
number of bytes passed. -/
def guacReadUtf8 (uninitialized : ℤ) (input : List UInt8) : ℤ×ℕ :=
  match guacUtf8Read input with
  | none => (uninitialized,0)
  | some (codepoint,bytes) => (codepoint,bytes)

/-- GUAC_READ_UTF16. -/
def guacReadUtf16 (order : ByteOrder) : List UInt8→ℤ×ℕ
  | first::second::_ => (order.value first second,2)
  | _ => (0,0)

/-- GUAC_READ_CP1252, which is called with at least one byte. -/
def guacReadCp1252 (input : List UInt8) : ℤ×ℕ :=
  let value : ℤ := (input.headD 0).toNat
  (if value≥0x80 ∧ value≤0x9F then cp1252Codepoint.getD (value-0x80).toNat 0 else value,1)

/-- GUAC_READ_ISO8859_1, which is called with at least one byte. -/
def guacReadIso8859 (input : List UInt8) : ℤ×ℕ := ((input.headD 0).toNat,1)

/-- GUAC_WRITE_UTF8: the bytes written. -/
def guacWriteUtf8 (remaining : ℕ) (value : ℤ) : List UInt8 := guacUtf8Write value remaining

/-- GUAC_WRITE_UTF16. -/
def guacWriteUtf16 (order : ByteOrder) (remaining : ℕ) (value : ℤ) : List UInt8 :=
  if remaining<2 then [] else order.bytes value

/-- GUAC_WRITE_CP1252. -/
def guacWriteCp1252 (_remaining : ℕ) (value : ℤ) : List UInt8 :=
  let value : ℤ :=
    if value≥0x80 ∧ value≤0x9F ∨ value > 0xFF then
      if value∈cp1252Codepoint then 0x80+cp1252Codepoint.idxOf value else 63
    else value
  [UInt8.ofNat (value%0x100).toNat]

/-- GUAC_WRITE_ISO8859_1. -/
def guacWriteIso8859 (_remaining : ℕ) (value : ℤ) : List UInt8 :=
  [UInt8.ofNat ((if value > 0xFF then 63 else value)%0x100).toNat]

/-- The encodings that there are a reader and a writer for. -/
inductive Encoding
  | utf8
  | utf16
  | cp1252
  | iso8859
  deriving DecidableEq

/-- The reader of an encoding. -/
def Encoding.read (order : ByteOrder) : Encoding→ℤ→List UInt8→ℤ×ℕ
  | .utf8, uninitialized, input => guacReadUtf8 uninitialized input
  | .utf16, _, input => guacReadUtf16 order input
  | .cp1252, _, input => guacReadCp1252 input
  | .iso8859, _, input => guacReadIso8859 input

/-- The writer of an encoding. -/
def Encoding.write (order : ByteOrder) : Encoding→ℕ→ℤ→List UInt8
  | .utf8 => guacWriteUtf8
  | .utf16 => guacWriteUtf16 order
  | .cp1252 => guacWriteCp1252
  | .iso8859 => guacWriteIso8859

/-- What guac_iconv returns and leaves. -/
structure IconvResult where
  /-- One if the terminator was reached, zero otherwise. -/
  retval : ℤ
  /-- The input that was not passed. -/
  input : List UInt8
  /-- The bytes written. -/
  output : List UInt8
  deriving DecidableEq

/-- The result once some bytes were written before. -/
def IconvResult.after (written : List UInt8) (r : IconvResult) : IconvResult :=
  { r with output := written++r.output }

/-- guac_iconv with at most so many rounds, given what the variable of the
reader holds in each. -/
def guacIconv (order : ByteOrder) (reader writer : Encoding) :
    ℕ→(ℕ→ℤ)→List UInt8→ℕ→Option IconvResult
  | fuel, uninitialized, input, outRemaining =>
    if input=[] ∨ outRemaining=0 then some ⟨0,input,[]⟩
    else
      match fuel with
      | 0 => none
      | fuel+1 =>
        let read := reader.read order (uninitialized 0) input
        let written := writer.write order outRemaining read.1
        if read.1=0 then some ⟨1,input.drop read.2,written⟩
        else
          (guacIconv order reader writer fuel (fun n => uninitialized (n+1))
            (input.drop read.2) (outRemaining-written.length)).map (IconvResult.after written)

/-- guac_iconv ends with a result. -/
def Converts (order : ByteOrder) (reader writer : Encoding) (uninitialized : ℕ→ℤ)
    (input : List UInt8) (outRemaining : ℕ) (r : IconvResult) : Prop :=
  ∃ fuel, guacIconv order reader writer fuel uninitialized input outRemaining=some r

/-- The loop of guac_iconv ends. -/
def Terminates (order : ByteOrder) (reader writer : Encoding) (uninitialized : ℕ→ℤ)
    (input : List UInt8) (outRemaining : ℕ) : Prop :=
  ∃ r, Converts order reader writer uninitialized input outRemaining r

section

variable {order : ByteOrder} {reader writer : Encoding} {uninitialized : ℕ→ℤ}
  {input : List UInt8} {outRemaining : ℕ}

/-- The loop ends where the input or the room for output does. -/
theorem converts_stop (h : input=[] ∨ outRemaining=0) :
    Converts order reader writer uninitialized input outRemaining ⟨0,input,[]⟩ := by
  refine ⟨0,?_⟩
  rw [guacIconv,if_pos h]

/-- The loop ends after the terminator. -/
theorem converts_terminator (h : ¬(input=[] ∨ outRemaining=0))
    (hvalue : (reader.read order (uninitialized 0) input).1=0) :
    Converts order reader writer uninitialized input outRemaining
      ⟨1,input.drop (reader.read order (uninitialized 0) input).2,
        writer.write order outRemaining (reader.read order (uninitialized 0) input).1⟩ := by
  refine ⟨1,?_⟩
  rw [guacIconv,if_neg h]
  dsimp only
  rw [if_pos hvalue]

/-- Otherwise the loop goes on after the value that was read. -/
theorem converts_iff (h : ¬(input=[] ∨ outRemaining=0))
    (hvalue : (reader.read order (uninitialized 0) input).1≠0) (r : IconvResult) :
    Converts order reader writer uninitialized input outRemaining r ↔
      ∃ r', Converts order reader writer (fun n => uninitialized (n+1))
          (input.drop (reader.read order (uninitialized 0) input).2)
          (outRemaining-(writer.write order outRemaining
            (reader.read order (uninitialized 0) input).1).length) r' ∧
        r'.after (writer.write order outRemaining
          (reader.read order (uninitialized 0) input).1)=r := by
  constructor
  · rintro ⟨fuel,hfuel⟩
    cases fuel with
    | zero =>
      rw [guacIconv,if_neg h] at hfuel
      cases hfuel
    | succ fuel =>
      rw [guacIconv,if_neg h] at hfuel
      dsimp only at hfuel
      rw [if_neg hvalue,Option.map_eq_some_iff] at hfuel
      obtain ⟨r',hrest,hafter⟩ := hfuel
      exact ⟨r',⟨fuel,hrest⟩,hafter⟩
  · rintro ⟨r',⟨fuel,hrest⟩,rfl⟩
    refine ⟨fuel+1,?_⟩
    rw [guacIconv,if_neg h]
    dsimp only
    rw [if_neg hvalue,hrest]
    rfl

/-- Otherwise the loop ends if it does after the value that was read. -/
theorem terminates_iff (h : ¬(input=[] ∨ outRemaining=0))
    (hvalue : (reader.read order (uninitialized 0) input).1≠0) :
    Terminates order reader writer uninitialized input outRemaining ↔
      Terminates order reader writer (fun n => uninitialized (n+1))
        (input.drop (reader.read order (uninitialized 0) input).2)
        (outRemaining-(writer.write order outRemaining
          (reader.read order (uninitialized 0) input).1).length) := by
  constructor
  · rintro ⟨r,hr⟩
    obtain ⟨r',hr',-⟩ := (converts_iff h hvalue r).mp hr
    exact ⟨r',hr'⟩
  · rintro ⟨r',hr'⟩
    exact ⟨_,(converts_iff h hvalue _).mpr ⟨r',hr',rfl⟩⟩

end

end GuacServer.Iconv
