import Mathlib.Data.List.Basic
import Mathlib.Tactic.Ring

/-!
# Decimal numerals as bytes, exact and in 32-bit arithmetic

Numerals are lists of ASCII digits, most significant first. The exact value
and the value accumulated in a 32-bit two's complement integer are related
once, for every number of digits; printing is inverted by the exact value.
-/

namespace GuacServer.DecimalNumerals

open List

/-- ASCII decimal digits. -/
def IsDigit (c : UInt8) : Prop := 48≤c ∧ c≤57

instance : DecidablePred IsDigit := fun c => inferInstanceAs (Decidable (48≤c ∧ c≤57))

/-- The value of one digit. -/
def digitValue (c : UInt8) : ℕ := (c-48).toNat

/-- Digits have codes from 48 to 57. -/
theorem IsDigit.toNat_bounds {c : UInt8} (h : IsDigit c) : 48≤c.toNat ∧ c.toNat≤57 :=
  ⟨UInt8.le_iff_toNat_le.mp h.1,UInt8.le_iff_toNat_le.mp h.2⟩

/-- Digit values are offsets from the code of zero. -/
theorem IsDigit.digitValue_add {c : UInt8} (h : IsDigit c) : digitValue c+48=c.toNat := by
  have hc := h.toNat_bounds
  rw [digitValue,UInt8.toNat_sub_of_le _ _ h.1]
  exact Nat.sub_add_cancel hc.1

/-- Exact value after appending digits to a number. -/
def numeralFrom (n : ℕ) : List UInt8→ℕ
  | [] => n
  | c::ds => numeralFrom (n*10+digitValue c) ds

/-- Exact value of a numeral; the empty numeral has value zero. -/
def numeral (ds : List UInt8) : ℕ := numeralFrom 0 ds

/-- Digits appended in two groups are appended in one. -/
theorem numeralFrom_append (n : ℕ) (ds es : List UInt8) :
    numeralFrom n (ds++es)=numeralFrom (numeralFrom n ds) es := by
  induction ds generalizing n with
  | nil => rfl
  | cons c ds ih => simp only [cons_append,numeralFrom,ih]

/-- Further digits never make a numeral smaller. -/
theorem le_numeralFrom (n : ℕ) (ds : List UInt8) : n≤numeralFrom n ds := by
  induction ds generalizing n with
  | nil => exact Nat.le_refl _
  | cons c ds ih =>
    have h := ih (n*10+digitValue c)
    rw [numeralFrom]
    omega

/-- A run of digits multiplies what precedes it by at most its power of ten. -/
theorem numeralFrom_lt {ds : List UInt8} (h : ∀ d∈ds, IsDigit d) (n : ℕ) :
    numeralFrom n ds<(n+1)*10^ds.length := by
  induction ds generalizing n with
  | nil => simp [numeralFrom]
  | cons c ds ih =>
    have hc := h c (mem_cons_self ..)
    have hdigit : digitValue c<10 := by
      have hadd := hc.digitValue_add
      have hbounds := hc.toNat_bounds
      omega
    have hrest := ih (fun d hd => h d (mem_cons_of_mem _ hd)) (n*10+digitValue c)
    calc numeralFrom (n*10+digitValue c) ds
        < (n*10+digitValue c+1)*10^ds.length := hrest
      _ ≤ ((n+1)*10)*10^ds.length := Nat.mul_le_mul_right _ (by omega)
      _ = (n+1)*10^(c::ds).length := by rw [length_cons,pow_succ]; ring

/-- A numeral is below its power of ten. -/
theorem numeral_lt {ds : List UInt8} (h : ∀ d∈ds, IsDigit d) : numeral ds<10^ds.length := by
  have hlt := numeralFrom_lt h 0
  rwa [Nat.zero_add,Nat.one_mul] at hlt

/-- A value reduced to a signed 32-bit integer. -/
def wrap32 (x : ℤ) : ℤ := x.bmod (2^32)

/-- Values within the 32-bit range are unchanged. -/
theorem wrap32_of_range {x : ℤ} (h0 : -(2^31)≤x) (h1 : x<2^31) : wrap32 x=x := by
  unfold wrap32
  rw [Int.bmod_eq_of_le_mul_two] <;> omega

/-- Wrapped values are ints. -/
theorem wrap32_lt (x : ℤ) : wrap32 x<2^31 := by
  have hlt := Int.bmod_lt (x := x) (m := 2^32) (by decide)
  unfold wrap32
  omega

theorem neg_le_wrap32 (x : ℤ) : -(2^31)≤wrap32 x := by
  have hle := Int.le_bmod (x := x) (m := 2^32) (by decide)
  unfold wrap32
  omega

/-- Reduction to 32 bits changes a value by a multiple of 2^32. -/
theorem wrap32_eq_add (x : ℤ) : ∃ q : ℤ, wrap32 x=x+2^32*q := by
  have hmod : wrap32 x%2^32=x%2^32 := Int.bmod_emod
  exact ⟨(wrap32 x-x)/2^32,by omega⟩

/-- The result of an operation on ints, unless it overflows. -/
def checked (value : ℤ) : Option ℤ :=
  if -(2^31)≤value ∧ value<2^31 then some value else none

theorem checked_eq_some {value result : ℤ} :
    checked value=some result ↔ (-(2^31)≤value ∧ value<2^31) ∧ value=result := by
  unfold checked
  rw [Option.ite_none_right_eq_some,Option.some.injEq]

/-- One digit appended in 32-bit arithmetic. -/
def accumulate (v : ℤ) (c : UInt8) : ℤ := wrap32 (v*10+c.toNat-48)

/-- Appending a digit commutes with reduction to 32 bits. -/
theorem accumulate_wrap32 (n : ℕ) {c : UInt8} (h : IsDigit c) :
    accumulate (wrap32 n) c=wrap32 (n*10+digitValue c : ℕ) := by
  have hv : (n : ℤ)*10+c.toNat-48=(n*10+digitValue c : ℕ) := by
    rw [←h.digitValue_add]
    push_cast
    ring
  rw [←hv]
  unfold accumulate wrap32
  rw [add_sub_assoc,add_sub_assoc,Int.add_bmod,Int.bmod_mul_bmod,←Int.add_bmod]

/-- A run of digits accumulated in 32 bits is the exact value reduced once. -/
theorem foldl_accumulate {ds : List UInt8} (h : ∀ d∈ds, IsDigit d) (n : ℕ) :
    ds.foldl accumulate (wrap32 n)=wrap32 (numeralFrom n ds) := by
  induction ds generalizing n with
  | nil => rw [foldl_nil,numeralFrom]
  | cons c ds ih =>
    rw [foldl_cons,accumulate_wrap32 n (h c (mem_cons_self ..)),
      ih fun d hd => h d (mem_cons_of_mem _ hd),numeralFrom]

/-- The shortest decimal form of a number. -/
def decimal (n : ℕ) : List UInt8 :=
  if n<10 then [UInt8.ofNat (48+n)] else decimal (n/10)++[UInt8.ofNat (48+n%10)]

/-- The decimal form of a signed number. -/
def decimalInt : ℤ→List UInt8
  | .ofNat n => decimal n
  | .negSucc n => 45::decimal (n+1)

/-- The digit written for a remainder has that value. -/
theorem digit_ofNat {n : ℕ} (h : n<10) :
    IsDigit (UInt8.ofNat (48+n)) ∧ digitValue (UInt8.ofNat (48+n))=n := by
  have hall : ∀ n<10, IsDigit (UInt8.ofNat (48+n)) ∧ digitValue (UInt8.ofNat (48+n))=n := by decide
  exact hall n h

/-- Decimal forms consist of digits. -/
theorem decimal_digits (n : ℕ) : ∀ d∈decimal n, IsDigit d := by
  induction n using decimal.induct with
  | case1 n h =>
    rw [decimal,if_pos h]
    simpa using (digit_ofNat h).1
  | case2 n h ih =>
    rw [decimal,if_neg h]
    intro d hd
    rcases mem_append.mp hd with hd | hd
    · exact ih d hd
    · rw [mem_singleton.mp hd]
      exact (digit_ofNat (Nat.mod_lt n (by decide))).1

/-- Reading a decimal form gives back the number. -/
theorem numeral_decimal (n : ℕ) : numeral (decimal n)=n := by
  induction n using decimal.induct with
  | case1 n h =>
    rw [decimal,if_pos h]
    rw [numeral,numeralFrom,numeralFrom,(digit_ofNat h).2]
    omega
  | case2 n h ih =>
    have hd := (digit_ofNat (Nat.mod_lt n (by decide : 0<10))).2
    rw [decimal,if_neg h,numeral,numeralFrom_append,←numeral,ih,numeralFrom,numeralFrom,hd]
    omega

/-- Digits are ASCII and never zero bytes. -/
theorem IsDigit.ascii {c : UInt8} (h : IsDigit c) : c.toNat<128 ∧ c≠0 := by
  have hc := h.toNat_bounds
  refine ⟨by omega,?_⟩
  rintro rfl
  exact absurd hc.1 (by decide)

/-- Signed decimal forms are ASCII without zero bytes. -/
theorem decimalInt_ascii (i : ℤ) : ∀ c∈decimalInt i, c.toNat<128 ∧ c≠0 := by
  intro c hc
  cases i with
  | ofNat n => exact (decimal_digits n c hc).ascii
  | negSucc n =>
    rcases mem_cons.mp hc with rfl | hc
    · decide
    · exact (decimal_digits _ c hc).ascii

/-- A number below a power of ten has at most that many digits. -/
theorem length_decimal_le {k n : ℕ} (h : n<10^(k+1)) : (decimal n).length≤k+1 := by
  induction k generalizing n with
  | zero =>
    rw [decimal,if_pos (by simpa using h)]
    exact Nat.le_refl _
  | succ k ih =>
    rw [decimal]
    split
    · exact Nat.le_add_left _ _
    · have hdiv : n/10<10^(k+1) := Nat.div_lt_of_lt_mul (by rwa [←pow_succ'])
      have hrest := ih hdiv
      rw [length_append,length_singleton]
      omega

/-- An int has at most ten digits and a sign. -/
theorem length_decimalInt_le {i : ℤ} (h₀ : -(2^31) ≤ i) (h₁ : i<2^31) :
    (decimalInt i).length≤11 := by
  cases i with
  | ofNat n =>
    have hn : n<10^(9+1) := by
      simp only [Int.ofNat_eq_natCast] at h₁
      omega
    exact Nat.le_succ_of_le (length_decimal_le hn)
  | negSucc n =>
    have hn : n+1<10^(9+1) := by omega
    exact Nat.succ_le_succ (length_decimal_le hn)

end GuacServer.DecimalNumerals
