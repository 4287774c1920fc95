import Mathlib.Data.List.Basic

/-!
# Bytes in groups of three, as symbols of six bits

Three bytes are four symbols of an alphabet of 64, and a group that is not
full is padded. The alphabet is any table that can be inverted; nothing here
depends on which symbols it has or on who writes them.
-/

namespace GuacServer.SextetCoding

variable {σ : Type*}

/-- A table of 64 symbols with its inverse, and a symbol for padding. -/
structure Alphabet (σ : Type*) where
  /-- The symbol of a number below 64. -/
  symbol : ℕ→σ
  /-- The number of a symbol. -/
  value : σ→ℕ
  /-- The padding symbol. -/
  pad : σ
  /-- The number of a symbol of the table is its place. -/
  value_symbol : ∀ n<64, value (symbol n)=n
  /-- Padding is not a symbol of the table. -/
  symbol_ne_pad : ∀ n<64, symbol n≠pad

/-- Groups of three bytes as four symbols each, the last one padded. -/
def Alphabet.encode (A : Alphabet σ) : List UInt8→List σ
  | [] => []
  | [a] => [A.symbol (a.toNat/4),A.symbol (a.toNat%4*16),A.pad,A.pad]
  | [a,b] => [A.symbol (a.toNat/4),A.symbol (a.toNat%4*16+b.toNat/16),A.symbol (b.toNat%16*4),A.pad]
  | a::b::c::bytes =>
    A.symbol (a.toNat/4)::A.symbol (a.toNat%4*16+b.toNat/16)::
      A.symbol (b.toNat%16*4+c.toNat/64)::A.symbol (c.toNat%64)::A.encode bytes

/-- Every three bytes, and what is left over, take four symbols. -/
theorem Alphabet.length_encode (A : Alphabet σ) (bytes : List UInt8) :
    (A.encode bytes).length=(bytes.length+2)/3*4 := by
  induction bytes using Alphabet.encode.induct with
  | case1 => rfl
  | case2 a => simp [Alphabet.encode]
  | case3 a b => simp [Alphabet.encode]
  | case4 a b c bytes ih =>
    simp only [Alphabet.encode,List.length_cons,ih]
    omega

/-- A property of all symbols and of the padding holds throughout. -/
theorem Alphabet.forall_mem_encode (A : Alphabet σ) {P : σ→Prop}
    (hsymbol : ∀ n<64, P (A.symbol n)) (hpad : P A.pad) (bytes : List UInt8) :
    ∀ s∈A.encode bytes, P s := by
  have hbyte : ∀ b : UInt8, b.toNat<256 := fun b => b.toNat_lt
  induction bytes using Alphabet.encode.induct with
  | case1 => simp [Alphabet.encode]
  | case2 a =>
    have ha := hbyte a
    simp only [Alphabet.encode,List.forall_mem_cons,List.not_mem_nil,false_implies,
      implies_true,and_true]
    exact ⟨hsymbol _ (by omega),hsymbol _ (by omega),hpad,hpad⟩
  | case3 a b =>
    have ha := hbyte a
    have hb := hbyte b
    simp only [Alphabet.encode,List.forall_mem_cons,List.not_mem_nil,false_implies,
      implies_true,and_true]
    exact ⟨hsymbol _ (by omega),hsymbol _ (by omega),hsymbol _ (by omega),hpad⟩
  | case4 a b c bytes ih =>
    have ha := hbyte a
    have hb := hbyte b
    have hc := hbyte c
    simp only [Alphabet.encode,List.forall_mem_cons]
    exact ⟨hsymbol _ (by omega),hsymbol _ (by omega),hsymbol _ (by omega),hsymbol _ (by omega),ih⟩

end GuacServer.SextetCoding
