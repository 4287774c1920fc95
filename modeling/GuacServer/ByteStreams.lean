import Mathlib.Algebra.Order.Ring.Nat

/-!
# Streams of received bytes

A received message is read from a position that moves on, without a check of its length.
A read is defined if all its bytes were received. Moving on is always possible. Numbers
have their least significant byte first.
-/

namespace GuacServer.ByteStreams

open List

/-- The bytes of a message and the position that is read next. -/
structure ByteStream where
  /-- What was received. -/
  data : List UInt8
  position : ℕ
  deriving DecidableEq

/-- The value of a number. -/
def littleEndian : List UInt8→ℕ
  | [] => 0
  | b::bs => b.toNat+256*littleEndian bs

/-- The bytes of a number. -/
def littleEndianBytes : ℕ→ℕ→List UInt8
  | 0, _ => []
  | count+1, value => UInt8.ofNat value::littleEndianBytes count (value/256)

/-- So many bytes are skipped. -/
def ByteStream.seek (count : ℕ) (stream : ByteStream) : ByteStream :=
  { stream with position := stream.position+count }

/-- The bytes from the position on. -/
def ByteStream.bytes (count : ℕ) (stream : ByteStream) : List UInt8 :=
  (stream.data.drop stream.position).take count

/-- All bytes from the position on. -/
def ByteStream.rest (stream : ByteStream) : List UInt8 := stream.data.drop stream.position

/-- So many bytes were received from the position on. -/
def ByteStream.Has (count : ℕ) (stream : ByteStream) : Prop :=
  stream.position+count ≤ stream.data.length

instance (count : ℕ) (stream : ByteStream) : Decidable (stream.Has count) :=
  inferInstanceAs (Decidable (_ ≤ _))

/-- Bytes are read, if they were received. -/
def ByteStream.read (count : ℕ) (stream : ByteStream) : Option (List UInt8×ByteStream) :=
  if stream.Has count then some (stream.bytes count,stream.seek count) else none

/-- A number is read, if its bytes were received. -/
def ByteStream.readUInt (count : ℕ) (stream : ByteStream) : Option (ℕ×ByteStream) :=
  (stream.read count).map fun (bytes,stream) => (littleEndian bytes,stream)

/-- The number at the position. -/
def ByteStream.uint (count : ℕ) (stream : ByteStream) : ℕ := littleEndian (stream.bytes count)

/-- So many bytes can be taken from the position on, as there are none or all were
received. -/
def ByteStream.Covers (count : ℕ) (stream : ByteStream) : Prop := count=0 ∨ stream.Has count

instance (count : ℕ) (stream : ByteStream) : Decidable (stream.Covers count) :=
  inferInstanceAs (Decidable (_ ∨ _))

/-- Numbers of the same size are read one after the other. -/
def ByteStream.readUInts (size : ℕ) : ℕ→ByteStream→Option (List ℕ×ByteStream)
  | 0, stream => some ([],stream)
  | count+1, stream => do
    let (value,stream) ← stream.readUInt size
    let (values,stream) ← readUInts size count stream
    some (value::values,stream)

/-- The numbers from the position on. -/
def ByteStream.uints (size : ℕ) : ℕ→ByteStream→List ℕ
  | 0, _ => []
  | count+1, stream => stream.uint size::uints size count (stream.seek size)

variable {count more size : ℕ} {stream : ByteStream}

theorem length_littleEndianBytes (count value : ℕ) :
    (littleEndianBytes count value).length=count := by
  induction count generalizing value with
  | zero => rfl
  | succ count ih => rw [littleEndianBytes,length_cons,ih]

/-- A number is below the power of 256 for its bytes. -/
theorem littleEndian_lt (bytes : List UInt8) : littleEndian bytes<256^bytes.length := by
  induction bytes with
  | nil => exact Nat.one_pos
  | cons b bytes ih =>
    have hb := b.toNat_lt
    rw [littleEndian,length_cons,Nat.pow_succ]
    omega

theorem ByteStream.uint_lt (count : ℕ) (stream : ByteStream) : stream.uint count<256^count :=
  Nat.lt_of_lt_of_le (littleEndian_lt _)
    (Nat.pow_le_pow_right (by decide) (length_take_le _ _))

theorem ByteStream.read_of_has (h : stream.Has count) :
    stream.read count=some (stream.bytes count,stream.seek count) := if_pos h

theorem ByteStream.readUInt_of_has (h : stream.Has count) :
    stream.readUInt count=some (stream.uint count,stream.seek count) := by
  rw [ByteStream.readUInt,read_of_has h]
  rfl

@[simp] theorem ByteStream.read_eq_some_iff {result : List UInt8×ByteStream} :
    stream.read count=some result ↔
      stream.Has count ∧ result=(stream.bytes count,stream.seek count) := by
  rw [ByteStream.read,Option.ite_none_right_eq_some,Option.some.injEq,eq_comm]

@[simp] theorem ByteStream.readUInt_eq_some_iff {result : ℕ×ByteStream} :
    stream.readUInt count=some result ↔
      stream.Has count ∧ result=(stream.uint count,stream.seek count) := by
  constructor
  · intro h
    obtain ⟨⟨bytes,next⟩,hread,rfl⟩ := Option.map_eq_some_iff.mp h
    obtain ⟨hhas,hsame⟩ := read_eq_some_iff.mp hread
    cases hsame
    exact ⟨hhas,rfl⟩
  · rintro ⟨hhas,rfl⟩
    exact readUInt_of_has hhas

theorem ByteStream.Has.mono (h : stream.Has more) (hle : count ≤ more) : stream.Has count :=
  Nat.le_trans (Nat.add_le_add_left hle _) h

/-- Bytes that follow skipped ones. -/
@[simp] theorem ByteStream.has_seek : (stream.seek count).Has more ↔ stream.Has (count+more) := by
  simp only [ByteStream.Has,ByteStream.seek,Nat.add_assoc]

@[simp] theorem ByteStream.seek_seek : (stream.seek count).seek more=stream.seek (count+more) := by
  simp only [ByteStream.seek,Nat.add_assoc]

theorem ByteStream.seek_zero : stream.seek 0=stream := rfl

/-- The bytes before the last ones were received too. -/
@[simp] theorem ByteStream.has_and_has (h : count ≤ more) :
    stream.Has count ∧ stream.Has more ↔ stream.Has more :=
  and_iff_right_of_imp fun hmore => hmore.mono h

@[simp] theorem ByteStream.has_and_has_and {p : Prop} (h : count ≤ more) :
    stream.Has count ∧ stream.Has more ∧ p ↔ stream.Has more ∧ p := by
  rw [←and_assoc,has_and_has h]

/-- Bytes that are taken behind others that are. -/
theorem ByteStream.has_and_covers_seek :
    stream.Has size ∧ (stream.seek size).Covers count ↔ stream.Has (size+count) := by
  constructor
  · rintro ⟨hhas,rfl | hcovers⟩
    · exact hhas
    · exact ByteStream.has_seek.mp hcovers
  · intro h
    exact ⟨h.mono (Nat.le_add_right ..),Or.inr (ByteStream.has_seek.mpr h)⟩

theorem ByteStream.covers_mul_succ (hsize : 0<size) :
    stream.Covers (size*(count+1)) ↔ stream.Has (size+size*count) := by
  have hne : size*(count+1)≠0 := Nat.pos_iff_ne_zero.mp (Nat.mul_pos hsize count.succ_pos)
  rw [ByteStream.Covers,or_iff_right hne,Nat.mul_add_one,Nat.add_comm]

/-- Numbers are read if all their bytes were received. -/
theorem ByteStream.readUInts_eq_some_iff (hsize : 0<size) {result : List ℕ×ByteStream} :
    stream.readUInts size count=some result ↔ stream.Covers (size*count) ∧
        result=(stream.uints size count,stream.seek (size*count)) := by
  induction count generalizing stream result with
  | zero => simp [readUInts,uints,Covers,seek_zero,eq_comm]
  | succ count ih =>
    simp only [readUInts,Option.bind_eq_bind,Option.bind_eq_some_iff,Prod.exists,
      readUInt_eq_some_iff,ih,Prod.mk.injEq,Option.some.injEq,covers_mul_succ hsize,
      ←has_and_covers_seek]
    constructor
    · rintro ⟨_,_,⟨hhas,rfl,rfl⟩,_,_,⟨hcovers,rfl,rfl⟩,rfl⟩
      exact ⟨⟨hhas,hcovers⟩,by rw [seek_seek,Nat.mul_add_one,Nat.add_comm,uints]⟩
    · rintro ⟨⟨hhas,hcovers⟩,rfl⟩
      refine ⟨_,_,⟨hhas,rfl,rfl⟩,_,_,⟨hcovers,rfl,rfl⟩,?_⟩
      rw [seek_seek,Nat.mul_add_one,Nat.add_comm,uints]

theorem ByteStream.has_one_iff : stream.Has 1 ↔ stream.rest≠[] := by
  simp only [ByteStream.Has,ByteStream.rest,ne_eq,drop_eq_nil_iff,Nat.not_le,Nat.succ_le_iff]

/-- The next byte is read as a number, and the others are left. -/
theorem ByteStream.uint_one_of_rest {b : UInt8} {bs : List UInt8} (h : stream.rest=b::bs) :
    stream.uint 1=b.toNat ∧ (stream.seek 1).rest=bs := by
  constructor
  · have hbytes : stream.bytes 1=[b] := by
      rw [ByteStream.bytes,←ByteStream.rest,h,take_succ_cons,take_zero]
    simp [ByteStream.uint,hbytes,littleEndian]
  · rw [ByteStream.rest,ByteStream.seek,←drop_drop,←ByteStream.rest,h,
      drop_succ_cons,drop_zero]

/-! ## Whether something is read -/

/-- What is defined under a condition is followed by something else. -/
theorem isSome_bind_of_iff {α β : Type} {x : Option α} {p : Prop} {value : α}
    (h : ∀ {result}, x=some result ↔ p ∧ result=value) {f : α→Option β} :
    (x.bind f).isSome ↔ p ∧ (f value).isSome := by
  by_cases hp : p
  · rw [h.mpr ⟨hp,rfl⟩,Option.bind_some,and_iff_right hp]
  · have hnone : x=none := Option.eq_none_iff_forall_ne_some.mpr fun _ hx => hp (h.mp hx).1
    simp [hnone,hp]

variable {α : Type}

@[simp] theorem ByteStream.isSome_readUInt_bind {f : ℕ×ByteStream→Option α} :
    ((stream.readUInt count).bind f).isSome ↔
      stream.Has count ∧ (f (stream.uint count,stream.seek count)).isSome :=
  isSome_bind_of_iff readUInt_eq_some_iff

@[simp] theorem isSome_guard_bind {p : Prop} [Decidable p] {f : Unit→Option α} :
    ((guard p : Option Unit).bind f).isSome ↔ p ∧ (f ()).isSome := by
  by_cases hp : p <;> simp [guard,hp]

end GuacServer.ByteStreams
