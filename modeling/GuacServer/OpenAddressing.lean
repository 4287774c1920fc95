import Mathlib.Data.Nat.ModEq
import Mathlib.Data.Fintype.Card

/-!
# Open addressing

Keys are kept in a circle of slots. A key is searched from the slot of its hash
onward, up to the first slot that is free or holds it. A table in which no key
lies behind a free slot of its search finds each key that it holds, and keeps
doing so when a key is added where its search ended.
-/

namespace GuacServer.OpenAddressing

variable {κ : Type*} [DecidableEq κ]

/-- The search for a key from a slot on, over at most as many slots as given. -/
def search (n : ℕ) (slots : ℕ→Option κ) (key : κ) : ℕ→ℕ→Option ℕ
  | 0, _ => none
  | fuel+1, slot =>
    if slots slot=none ∨ slots slot=some key then some slot
    else search n slots key fuel ((slot+1)%n)

/-- The search for a key goes on in a slot. -/
def Passes (slots : ℕ→Option κ) (key : κ) (slot : ℕ) : Prop := slots slot≠none ∧ slots slot≠some key

/-- Each key lies where its search comes to. -/
def Stored (n : ℕ) (hash : κ→ℕ) (slots : ℕ→Option κ) : Prop :=
  ∀ slot key, slot<n → slots slot=some key → ∃ distance<n, (hash key+distance)%n=slot ∧
      ∀ i<distance, Passes slots key ((hash key+i)%n)

variable {n : ℕ} {hash : κ→ℕ} {slots : ℕ→Option κ} {key : κ}

theorem next_add (n slot i : ℕ) : ((slot+1)%n+i)%n=(slot+(i+1))%n := by
  rw [Nat.mod_add_mod,Nat.add_assoc,Nat.add_comm 1 i]

/-- Where a search that passes over some slots ends. -/
theorem search_of_passes {slot distance fuel : ℕ} (hslot : slot<n) (hfuel : distance<fuel)
    (hpasses : ∀ i<distance, Passes slots key ((slot+i)%n))
    (hends : ¬Passes slots key ((slot+distance)%n)) :
    search n slots key fuel slot=some ((slot+distance)%n) := by
  induction distance generalizing slot fuel with
  | zero =>
    obtain ⟨fuel,rfl⟩ := Nat.exists_eq_succ_of_ne_zero (Nat.ne_of_gt hfuel)
    rw [Nat.add_zero,Nat.mod_eq_of_lt hslot] at hends ⊢
    rw [search,if_pos (by rwa [Passes,←not_or,not_not] at hends)]
  | succ distance ih =>
    obtain ⟨fuel,rfl⟩ := Nat.exists_eq_succ_of_ne_zero (Nat.ne_of_gt (Nat.zero_lt_of_lt hfuel))
    have hfirst := hpasses 0 (Nat.succ_pos distance)
    rw [Nat.add_zero,Nat.mod_eq_of_lt hslot] at hfirst
    rw [search,if_neg (by rw [not_or]; exact hfirst),
      ih (Nat.mod_lt _ (Nat.zero_lt_of_lt hslot)) (Nat.lt_of_succ_lt_succ hfuel),next_add]
    · intro i hi
      rw [next_add]
      exact hpasses (i+1) (Nat.succ_lt_succ hi)
    · rwa [next_add]

/-- Where a search ended, and what it passed over. -/
theorem passes_of_search {slot fuel found : ℕ} (hslot : slot<n)
    (hsearch : search n slots key fuel slot=some found) :
    ∃ distance<fuel, (slot+distance)%n=found ∧
      (∀ i<distance, Passes slots key ((slot+i)%n)) ∧ ¬Passes slots key found := by
  induction fuel generalizing slot with
  | zero => cases hsearch
  | succ fuel ih =>
    rw [search] at hsearch
    split_ifs at hsearch with hends
    · cases hsearch
      refine ⟨0,Nat.succ_pos fuel,Nat.mod_eq_of_lt hslot,
        fun i hi => absurd hi (Nat.not_lt_zero i),?_⟩
      rwa [Passes,←not_or,not_not]
    · obtain ⟨distance,hlt,hfound,hpasses,hstops⟩ :=
        ih (Nat.mod_lt _ (Nat.zero_lt_of_lt hslot)) hsearch
      rw [next_add] at hfound
      refine ⟨distance+1,Nat.succ_lt_succ hlt,hfound,fun i hi => ?_,hstops⟩
      cases i with
      | zero =>
        rw [Nat.add_zero,Nat.mod_eq_of_lt hslot]
        rwa [not_or] at hends
      | succ i =>
        rw [←next_add]
        exact hpasses i (Nat.lt_of_succ_lt_succ hi)

/-- A search ends if a slot is free. -/
theorem search_isSome {slot free : ℕ} (hslot : slot<n) (hfree : free<n)
    (hnone : slots free=none) : ∃ found, search n slots key n slot=some found := by
  have hreached : ∃ distance, ¬Passes slots key ((slot+distance)%n) := by
    refine ⟨n-slot+free,fun hpasses => hpasses.1 ?_⟩
    rw [←Nat.add_assoc,Nat.add_sub_cancel' hslot.le,Nat.add_mod_left,Nat.mod_eq_of_lt hfree]
    exact hnone
  classical
  have hwithin : Nat.find hreached<n := by
    refine lt_of_le_of_lt (Nat.find_min' hreached ?_) (Nat.mod_lt (n-slot+free)
      (Nat.zero_lt_of_lt hslot))
    rw [Nat.add_mod_mod,←Nat.add_assoc,Nat.add_sub_cancel' hslot.le,Nat.add_mod_left,
      Nat.mod_eq_of_lt hfree]
    exact fun hpasses => hpasses.1 hnone
  exact ⟨_,search_of_passes hslot hwithin
    (fun i hi => not_not.mp (Nat.find_min hreached hi)) (Nat.find_spec hreached)⟩

/-- A key that is in a table is found. -/
theorem Stored.search_eq (h : Stored n hash slots) (hhash : ∀ key, hash key<n) {slot : ℕ}
    (hslot : slot<n) (hkey : slots slot=some key) :
    search n slots key n (hash key)=some slot := by
  obtain ⟨distance,hlt,hreaches,hpasses⟩ := h slot key hslot hkey
  rw [←hreaches]
  refine search_of_passes (hhash key) hlt hpasses fun hends => hends.2 ?_
  rw [hreaches,hkey]

/-- More slots than there are need not be searched. -/
theorem search_add {slot found fuel : ℕ} (hslot : slot<n)
    (hsearch : search n slots key fuel slot=some found) (more : ℕ) :
    search n slots key (fuel+more) slot=some found := by
  obtain ⟨distance,hlt,hfound,hpasses,hends⟩ := passes_of_search hslot hsearch
  rw [←hfound] at hends ⊢
  exact search_of_passes hslot (Nat.lt_add_right more hlt) hpasses hends

/-- A key may be added where its search ended. -/
theorem Stored.update (h : Stored n hash slots) (hhash : ∀ key, hash key<n) {found : ℕ}
    (hsearch : search n slots key n (hash key)=some found) (hfree : slots found=none) :
    Stored n hash (Function.update slots found (some key)) := by
  have hkept : ∀ other slot, Passes slots other slot →
      Passes (Function.update slots found (some key)) other slot := by
    intro other slot hpasses
    have hne : slot≠found := by
      rintro rfl
      exact hpasses.1 hfree
    rwa [Passes,Function.update_of_ne hne]
  intro slot other hslot hother
  rcases eq_or_ne slot found with rfl | hne
  · rw [Function.update_self] at hother
    cases hother
    obtain ⟨distance,hlt,hreaches,hpasses,-⟩ := passes_of_search (hhash key) hsearch
    exact ⟨distance,hlt,hreaches,fun i hi => hkept _ _ (hpasses i hi)⟩
  · rw [Function.update_of_ne hne] at hother
    obtain ⟨distance,hlt,hreaches,hpasses⟩ := h slot other hslot hother
    exact ⟨distance,hlt,hreaches,fun i hi => hkept _ _ (hpasses i hi)⟩

end GuacServer.OpenAddressing
