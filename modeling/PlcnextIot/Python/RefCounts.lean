/-
  PlcnextIot.Python.RefCounts

  Reference counts in a `dict`: a key for each held item, with the item and how often
  it is held.

  `Counted key refs held` says that `refs` counts the items of the multiset `held`.
  Taking a reference adds an item to the multiset and giving one up removes it; the
  entry goes with the last reference.  `weight` sums a charge over the distinct items.
-/

import PlcnextIot.Python.Dict
import Mathlib.Algebra.Order.BigOperators.Group.Finset
import Mathlib.Data.Multiset.Count

namespace PlcnextIot.Python

variable {κ ι : Type} [DecidableEq κ] [DecidableEq ι]

/-- `refs` counts the items of `held`, which their keys tell apart. -/
structure Counted (key : ι → κ) (refs : Dict κ (ι × ℤ)) (held : Multiset ι) : Prop where
  unique : ∀ i ∈ held, ∀ j ∈ held, key i = key j → i = j
  entry : ∀ i ∈ held, refs.get? (key i) = some (i, (held.count i : ℤ))
  absent : ∀ k, (∀ i ∈ held, key i ≠ k) → refs.get? k = none

/-- The charge of the distinct items. -/
def weight (charge : ι → ℕ) (held : Multiset ι) : ℤ := ∑ i ∈ held.toFinset, (charge i : ℤ)

namespace Counted

variable {key : ι → κ} {refs : Dict κ (ι × ℤ)} {held : Multiset ι} {i : ι}

theorem empty : Counted key (.empty : Dict κ (ι × ℤ)) 0 where
  unique i hi := absurd hi (Multiset.notMem_zero i)
  entry i hi := absurd hi (Multiset.notMem_zero i)
  absent _ _ := rfl

/-- An item that is not held has no entry, if no other item has its key. -/
theorem get?_of_notMem (h : Counted key refs held) (hi : i ∉ held)
    (hkey : ∀ j ∈ held, key j = key i → j = i) : refs.get? (key i) = none := by
  refine h.absent (key i) fun j hj he => ?_
  rw [hkey j hj he] at hj
  exact hi hj

theorem unique_cons (h : Counted key refs held) (hkey : ∀ j ∈ held, key j = key i → j = i) :
    ∀ a ∈ i ::ₘ held, ∀ b ∈ i ::ₘ held, key a = key b → a = b := by
  intro a ha b hb he
  rcases Multiset.mem_cons.mp ha with ha | ha <;> rcases Multiset.mem_cons.mp hb with hb | hb
  · rw [ha, hb]
  · rw [ha] at he ⊢
    exact (hkey b hb he.symm).symm
  · rw [hb] at he ⊢
    exact hkey a ha he
  · exact h.unique a ha b hb he

/-- One more reference. -/
theorem retain (h : Counted key refs held) (hkey : ∀ j ∈ held, key j = key i → j = i) :
    Counted key (refs.set (key i) (i, (held.count i : ℤ) + 1)) (i ::ₘ held) where
  unique := h.unique_cons hkey
  entry j hj := by
    rw [Dict.get?_set]
    by_cases he : key j = key i
    · obtain rfl : j = i := h.unique_cons hkey j hj i (Multiset.mem_cons_self i held) he
      rw [if_pos rfl, Multiset.count_cons_self]
      push_cast
      rfl
    · have hne : j ≠ i := fun e => he (e ▸ rfl)
      have hmem : j ∈ held := (Multiset.mem_cons.mp hj).resolve_left hne
      rw [if_neg he, h.entry j hmem, Multiset.count_cons_of_ne hne]
  absent k hk := by
    have hne : k ≠ key i := fun e => hk i (Multiset.mem_cons_self i held) e.symm
    rw [Dict.get?_set, if_neg hne]
    exact h.absent k fun j hj => hk j (Multiset.mem_cons_of_mem hj)

/-- The entry of an item that is held once more. -/
theorem get?_cons (h : Counted key refs (i ::ₘ held)) :
    refs.get? (key i) = some (i, (held.count i : ℤ) + 1) := by
  rw [h.entry i (Multiset.mem_cons_self i held), Multiset.count_cons_self]
  push_cast
  rfl

theorem of_cons_key (h : Counted key refs (i ::ₘ held)) {j : ι} (hj : j ∈ held)
    (he : key j = key i) : j = i :=
  h.unique j (Multiset.mem_cons_of_mem hj) i (Multiset.mem_cons_self i held) he

/-- The last reference takes the entry away. -/
theorem forget_last (h : Counted key refs (i ::ₘ held)) (hlast : i ∉ held) :
    Counted key (refs.erase (key i)) held where
  unique a ha b hb := h.unique a (Multiset.mem_cons_of_mem ha) b (Multiset.mem_cons_of_mem hb)
  entry j hj := by
    have hne : j ≠ i := fun e => hlast (e ▸ hj)
    rw [Dict.get?_erase, if_neg fun he => hne (h.of_cons_key hj he),
      h.entry j (Multiset.mem_cons_of_mem hj), Multiset.count_cons_of_ne hne]
  absent k hk := by
    rw [Dict.get?_erase]
    by_cases he : k = key i
    · rw [if_pos he]
    · rw [if_neg he]
      refine h.absent k fun j hj => ?_
      rcases Multiset.mem_cons.mp hj with rfl | hj
      · exact fun e => he e.symm
      · exact hk j hj

/-- One reference less. -/
theorem forget_one (h : Counted key refs (i ::ₘ held)) (hmore : i ∈ held) :
    Counted key (refs.set (key i) (i, (held.count i : ℤ))) held where
  unique a ha b hb := h.unique a (Multiset.mem_cons_of_mem ha) b (Multiset.mem_cons_of_mem hb)
  entry j hj := by
    rw [Dict.get?_set]
    by_cases he : key j = key i
    · obtain rfl := h.of_cons_key hj he
      rw [if_pos rfl]
    · have hne : j ≠ i := fun e => he (e ▸ rfl)
      rw [if_neg he, h.entry j (Multiset.mem_cons_of_mem hj), Multiset.count_cons_of_ne hne]
  absent k hk := by
    have hne : k ≠ key i := fun e => hk i hmore e.symm
    rw [Dict.get?_set, if_neg hne]
    refine h.absent k fun j hj => ?_
    rcases Multiset.mem_cons.mp hj with rfl | hj
    · exact fun e => hne e.symm
    · exact hk j hj

/-- An entry counts a held item. -/
theorem entry_eq (h : Counted key refs held) {k : κ} {n : ℤ} (hk : refs.get? k = some (i, n)) :
    n = held.count i ∧ i ∈ held := by
  by_cases hex : ∃ j ∈ held, key j = k
  · obtain ⟨j, hj, rfl⟩ := hex
    rw [h.entry j hj] at hk
    obtain ⟨rfl, rfl⟩ := Prod.mk.inj (Option.some.inj hk)
    exact ⟨rfl, hj⟩
  · rw [h.absent k fun j hj he => hex ⟨j, hj, he⟩] at hk
    cases hk

end Counted

section Weight

variable {charge : ι → ℕ} {held : Multiset ι} {i : ι}

@[simp] theorem weight_zero : weight charge (0 : Multiset ι) = 0 := rfl

theorem weight_cons_of_mem (h : i ∈ held) : weight charge (i ::ₘ held) = weight charge held := by
  rw [weight, Multiset.toFinset_cons, Finset.insert_eq_of_mem (Multiset.mem_toFinset.mpr h), weight]

theorem weight_cons_of_notMem (h : i ∉ held) :
    weight charge (i ::ₘ held) = charge i + weight charge held := by
  rw [weight, Multiset.toFinset_cons,
    Finset.sum_insert (fun hi => h (Multiset.mem_toFinset.mp hi)), weight]

theorem weight_cons_le : weight charge (i ::ₘ held) ≤ charge i + weight charge held := by
  by_cases h : i ∈ held
  · rw [weight_cons_of_mem h]
    omega
  · rw [weight_cons_of_notMem h]

theorem weight_mono {more : Multiset ι} (h : held ⊆ more) : weight charge held ≤ weight charge more :=
  Finset.sum_le_sum_of_subset_of_nonneg
    (fun _ hi => Multiset.mem_toFinset.mpr (h (Multiset.mem_toFinset.mp hi)))
    fun _ _ _ => Int.natCast_nonneg _

end Weight

end PlcnextIot.Python
