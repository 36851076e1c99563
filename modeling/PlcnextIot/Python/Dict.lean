/-
  PlcnextIot.Python.Dict

  The built-in `dict`: one value for a key, in the order in which the keys came.

  Assigning to a key that is present keeps its place; a new key goes to the
  end.  The items are a list whose keys differ, carried as a field, so that
  every dictionary there is is well formed.
-/

import Mathlib.Data.List.Induction
import Mathlib.Data.List.Nodup
import Mathlib.Data.List.Perm.Subperm

namespace PlcnextIot.Python

/-- A dictionary: its items in order, with distinct keys. -/
structure Dict (κ ν : Type) where
  items : List (κ × ν)
  nodup : (items.map Prod.fst).Nodup

namespace Dict

variable {κ ν : Type}

/-- `dict()` -/
def empty : Dict κ ν := ⟨[], List.nodup_nil⟩

/-- `d.keys()` -/
def keys (d : Dict κ ν) : List κ := d.items.map Prod.fst

/-- `d.values()` -/
def values (d : Dict κ ν) : List ν := d.items.map Prod.snd

variable [DecidableEq κ]

/-- `d.get(key)` -/
def get? (d : Dict κ ν) (key : κ) : Option ν := (d.items.find? fun kv => kv.1 = key).map Prod.snd

/-- The items after `d[key] = v`. -/
def setItems : List (κ × ν) → κ → ν → List (κ × ν)
  | [], key, v => [(key, v)]
  | (k, w) :: rest, key, v =>
    if k = key then (k, v) :: rest else (k, w) :: setItems rest key v

theorem setItems_keys (items : List (κ × ν)) (key : κ) (v : ν) :
    (setItems items key v).map Prod.fst =
      if key ∈ items.map Prod.fst then items.map Prod.fst else items.map Prod.fst ++ [key] := by
  induction items with
  | nil => simp [setItems]
  | cons kw rest ih =>
      obtain ⟨k, w⟩ := kw
      by_cases hk : k = key
      · simp [setItems, hk]
      · have hk' : key ≠ k := fun h => hk h.symm
        rw [setItems, if_neg hk, List.map_cons, ih]
        by_cases hmem : key ∈ rest.map Prod.fst
        · rw [if_pos hmem, if_pos (by simp only [List.map_cons]; exact .tail _ hmem)]
          rfl
        · rw [if_neg hmem, if_neg (by simpa [hk'] using hmem)]
          rfl

theorem setItems_nodup {items : List (κ × ν)} (h : (items.map Prod.fst).Nodup) (key : κ) (v : ν) :
    ((setItems items key v).map Prod.fst).Nodup := by
  rw [setItems_keys]
  by_cases hmem : key ∈ items.map Prod.fst
  · rwa [if_pos hmem]
  · rw [if_neg hmem, ← List.concat_eq_append]
    exact h.concat hmem

/-- `d[key] = v` -/
def set (d : Dict κ ν) (key : κ) (v : ν) : Dict κ ν :=
  ⟨setItems d.items key v, setItems_nodup d.nodup key v⟩

/-- `d.pop(key, None)` -/
def erase (d : Dict κ ν) (key : κ) : Dict κ ν :=
  ⟨d.items.filter fun kv => kv.1 ≠ key, d.nodup.sublist (List.filter_sublist.map _)⟩

/-- The values `v` of `d` with `other.get(key) is not v`. -/
def unmatched [DecidableEq ν] (d other : Dict κ ν) : List ν :=
  (d.items.filter fun kv => other.get? kv.1 ≠ some kv.2).map Prod.snd

/-- `{key: value for ...}` -/
def ofItems (items : List (κ × ν)) : Dict κ ν :=
  items.foldl (fun d kv => d.set kv.1 kv.2) empty

/-! ## Reading -/

@[simp] theorem get?_empty (key : κ) : (empty : Dict κ ν).get? key = none := rfl

omit [DecidableEq κ] in
@[simp] theorem values_empty : (empty : Dict κ ν).values = [] := rfl

omit [DecidableEq κ] in
/-- One item for a key. -/
theorem eq_of_mem {d : Dict κ ν} {key : κ} {v w : ν} (hv : (key, v) ∈ d.items)
    (hw : (key, w) ∈ d.items) : v = w := by
  have h := List.inj_on_of_nodup_map d.nodup hv hw rfl
  exact (Prod.mk.inj h).2

theorem get?_eq_some {d : Dict κ ν} {key : κ} {v : ν} :
    d.get? key = some v ↔ (key, v) ∈ d.items := by
  unfold get?
  constructor
  · intro h
    obtain ⟨⟨k, w⟩, hfind, rfl⟩ := Option.map_eq_some_iff.mp h
    have hk : k = key := by simpa using List.find?_some hfind
    subst hk
    exact List.mem_of_find?_eq_some hfind
  · intro h
    cases hfind : d.items.find? fun kv => kv.1 = key with
    | none => exact absurd (List.find?_eq_none.mp hfind _ h) (by simp)
    | some kw =>
        obtain ⟨k, w⟩ := kw
        have hk : k = key := by simpa using List.find?_some hfind
        subst hk
        rw [Option.map_some, eq_of_mem (List.mem_of_find?_eq_some hfind) h]

theorem get?_eq_none {d : Dict κ ν} {key : κ} : d.get? key = none ↔ key ∉ d.keys := by
  unfold get? keys
  simp only [Option.map_eq_none_iff, List.find?_eq_none, List.mem_map, decide_eq_true_eq]
  exact ⟨fun h ⟨kv, hkv, he⟩ => h kv hkv he, fun h kv hkv he => h ⟨kv, hkv, he⟩⟩

theorem mem_values {d : Dict κ ν} {v : ν} : v ∈ d.values ↔ ∃ key, d.get? key = some v := by
  simp only [get?_eq_some, values, List.mem_map]
  exact ⟨fun ⟨kv, hkv, he⟩ => ⟨kv.1, he ▸ hkv⟩, fun ⟨key, h⟩ => ⟨(key, v), h, rfl⟩⟩

/-- The keys of the values with a property. -/
def keysWhere (d : Dict κ ν) (p : ν → Bool) : List κ := (d.items.filter fun kv => p kv.2).map Prod.fst

omit [DecidableEq κ] in
theorem length_keysWhere (d : Dict κ ν) (p : ν → Bool) :
    (d.keysWhere p).length = d.values.countP p := by
  rw [keysWhere, values, List.length_map, List.countP_map, List.countP_eq_length_filter]
  rfl

theorem mem_keysWhere {d : Dict κ ν} {p : ν → Bool} {key : κ} :
    key ∈ d.keysWhere p ↔ ∃ v, d.get? key = some v ∧ p v = true := by
  simp only [keysWhere, List.mem_map, List.mem_filter, get?_eq_some, Prod.exists, exists_and_right,
    exists_eq_right]

/-- Values with a property that only come from values with a property, apart
    from some keys. -/
theorem countP_values_le {d d' : Dict κ ν} {p p' : ν → Bool} {l : List κ}
    (h : ∀ key v', d'.get? key = some v' → p' v' = true →
      key ∈ l ∨ ∃ v, d.get? key = some v ∧ p v = true) :
    d'.values.countP p' ≤ l.length + d.values.countP p := by
  rw [← length_keysWhere, ← length_keysWhere, ← List.length_append]
  refine (List.subperm_of_subset (d'.nodup.sublist (List.filter_sublist.map _)) ?_).length_le
  intro key hkey
  obtain ⟨v', hv', hp'⟩ := mem_keysWhere.mp hkey
  rcases h key v' hv' hp' with hextra | hold
  · exact List.mem_append_left _ hextra
  · exact List.mem_append_right _ (mem_keysWhere.mpr hold)

theorem mem_unmatched [DecidableEq ν] {d other : Dict κ ν} {v : ν} :
    v ∈ d.unmatched other ↔ ∃ key, d.get? key = some v ∧ other.get? key ≠ some v := by
  unfold unmatched
  simp only [List.mem_map, List.mem_filter, decide_eq_true_eq, get?_eq_some (d := d)]
  constructor
  · rintro ⟨⟨key, w⟩, ⟨hmem, hne⟩, rfl⟩
    exact ⟨key, hmem, hne⟩
  · rintro ⟨key, hmem, hne⟩
    exact ⟨(key, v), ⟨hmem, hne⟩, rfl⟩

/-- With distinct values, a value has one key. -/
theorem key_unique {d : Dict κ ν} (h : d.values.Nodup) {key key' : κ} {v : ν}
    (hv : d.get? key = some v) (hv' : d.get? key' = some v) : key = key' := by
  have he := List.inj_on_of_nodup_map h (get?_eq_some.mp hv) (get?_eq_some.mp hv') rfl
  exact (Prod.mk.inj he).1

/-! ## Writing -/

theorem mem_setItems {items : List (κ × ν)} (h : (items.map Prod.fst).Nodup) {key k : κ}
    {v w : ν} :
    (k, w) ∈ setItems items key v ↔ (k = key ∧ w = v) ∨ (k ≠ key ∧ (k, w) ∈ items) := by
  induction items with
  | nil => simp [setItems]
  | cons kw rest ih =>
      obtain ⟨k', w'⟩ := kw
      rw [List.map_cons, List.nodup_cons] at h
      by_cases hk : k' = key
      · subst hk
        -- the rest has no second item for this key
        have hrest : ∀ w, (k', w) ∉ rest := fun w hw => h.1 (List.mem_map.mpr ⟨(k', w), hw, rfl⟩)
        rw [setItems, if_pos rfl, List.mem_cons, List.mem_cons]
        by_cases hkk : k = k'
        · subst hkk
          simp [hrest]
        · simp [hkk]
      · rw [setItems, if_neg hk, List.mem_cons, List.mem_cons, ih h.2]
        by_cases hkk : k = k'
        · subst hkk
          simp [hk]
        · simp [hkk]

theorem get?_set (d : Dict κ ν) (key k : κ) (v : ν) :
    (d.set key v).get? k = if k = key then some v else d.get? k := by
  apply Option.ext
  intro w
  rw [get?_eq_some]
  show (k, w) ∈ setItems d.items key v ↔ _
  rw [mem_setItems d.nodup]
  by_cases hk : k = key
  · simp [hk, eq_comm]
  · simp [hk, get?_eq_some]

@[simp] theorem get?_set_self (d : Dict κ ν) (key : κ) (v : ν) :
    (d.set key v).get? key = some v := by rw [get?_set, if_pos rfl]

theorem get?_erase (d : Dict κ ν) (key k : κ) :
    (d.erase key).get? k = if k = key then none else d.get? k := by
  apply Option.ext
  intro w
  rw [get?_eq_some]
  show (k, w) ∈ d.items.filter _ ↔ _
  rw [List.mem_filter]
  by_cases hk : k = key
  · simp [hk]
  · simp [hk, get?_eq_some]

/-- A new key goes to the end. -/
theorem items_set {d : Dict κ ν} {key : κ} {v : ν} (h : key ∉ d.keys) :
    (d.set key v).items = d.items ++ [(key, v)] := by
  have hitems : ∀ items : List (κ × ν), key ∉ items.map Prod.fst →
      setItems items key v = items ++ [(key, v)] := by
    intro items
    induction items with
    | nil => exact fun _ => rfl
    | cons kw rest ih =>
        intro h
        rw [List.map_cons, List.mem_cons, not_or] at h
        rw [setItems, if_neg (Ne.symm h.1), ih h.2, List.cons_append]
  exact hitems d.items h

theorem keys_set {d : Dict κ ν} {key : κ} {v : ν} (h : key ∉ d.keys) :
    (d.set key v).keys = d.keys ++ [key] := by
  rw [keys, items_set h, List.map_append]
  rfl

/-- Keys that are new and distinct are still new after the first of them. -/
theorem fresh_after {α : Type} {f : α → κ} {a : α} {rest : List α} (d : Dict κ ν)
    (hfresh : ∀ b ∈ a :: rest, f b ∉ d.keys) (hnodup : ((a :: rest).map f).Nodup) (v : ν) :
    (∀ b ∈ rest, f b ∉ (d.set (f a) v).keys) ∧ (rest.map f).Nodup := by
  obtain ⟨ha, hrest⟩ := List.nodup_cons.mp hnodup
  refine ⟨fun b hb => ?_, hrest⟩
  rw [keys_set (hfresh a (.head _)), List.mem_append, List.mem_singleton, not_or]
  exact ⟨hfresh b (.tail _ hb), fun he => ha (he ▸ List.mem_map_of_mem hb)⟩

/-- Every item of a comprehension is one of those it ran over. -/
theorem get?_ofItems {items : List (κ × ν)} {key : κ} {v : ν}
    (h : (ofItems items).get? key = some v) : (key, v) ∈ items := by
  unfold ofItems at h
  induction items using List.reverseRecOn with
  | nil => cases h
  | append_singleton items kv ih =>
      rw [List.foldl_append, List.foldl_cons, List.foldl_nil, get?_set] at h
      split at h
      · next hk =>
          cases h
          subst hk
          exact List.mem_append_right _ (.head _)
      · exact List.mem_append_left _ (ih h)

/-- Every key of a comprehension has a value. -/
theorem isSome_ofItems {items : List (κ × ν)} {key : κ} (h : key ∈ items.map Prod.fst) :
    ((ofItems items).get? key).isSome = true := by
  unfold ofItems
  induction items using List.reverseRecOn with
  | nil => cases h
  | append_singleton items kv ih =>
      rw [List.foldl_append, List.foldl_cons, List.foldl_nil, get?_set]
      split
      · rfl
      · next hk =>
          rw [List.map_append, List.mem_append] at h
          exact ih (h.resolve_right fun hlast => hk (List.mem_singleton.mp hlast))

/-! ## Values -/

theorem setItems_perm {items : List (κ × ν)} (h : (items.map Prod.fst).Nodup) (key : κ) (v : ν) :
    (setItems items key v).Perm ((key, v) :: items.filter fun kv => kv.1 ≠ key) := by
  induction items with
  | nil => exact .refl _
  | cons kw rest ih =>
      obtain ⟨k, w⟩ := kw
      rw [List.map_cons, List.nodup_cons] at h
      by_cases hk : k = key
      · subst hk
        -- the rest has no item for this key
        have hrest : rest.filter (fun kv => kv.1 ≠ k) = rest := by
          refine List.filter_eq_self.mpr fun kv hkv => decide_eq_true fun he => h.1 ?_
          exact List.mem_map.mpr ⟨kv, hkv, he⟩
        rw [setItems, if_pos rfl, List.filter_cons_of_neg (by simp), hrest]
      · rw [setItems, if_neg hk, List.filter_cons_of_pos (by simpa using hk)]
        exact ((ih h.2).cons _).trans (.swap _ _ _)

theorem setItems_self {items : List (κ × ν)} (h : (items.map Prod.fst).Nodup) {key : κ} {v : ν}
    (hmem : (key, v) ∈ items) : setItems items key v = items := by
  induction items with
  | nil => cases hmem
  | cons kw rest ih =>
      obtain ⟨k, w⟩ := kw
      rw [List.map_cons, List.nodup_cons] at h
      by_cases hk : k = key
      · subst hk
        rcases List.mem_cons.mp hmem with he | hrest
        · rw [setItems, if_pos rfl, (Prod.mk.inj he).2]
        · exact absurd (List.mem_map.mpr ⟨_, hrest, rfl⟩) h.1
      · rw [setItems, if_neg hk, ih h.2]
        exact (List.mem_cons.mp hmem).resolve_left fun he => hk (Prod.mk.inj he).1.symm

/-- The values after an assignment. -/
theorem values_set (d : Dict κ ν) (key : κ) (v : ν) :
    (d.set key v).values.Perm (v :: (d.erase key).values) :=
  (setItems_perm d.nodup key v).map Prod.snd

/-- The values before a key is taken out. -/
theorem values_erase {d : Dict κ ν} {key : κ} {v : ν} (h : d.get? key = some v) :
    d.values.Perm (v :: (d.erase key).values) := by
  have hperm := (setItems_perm d.nodup key v).map Prod.snd
  rwa [setItems_self d.nodup (get?_eq_some.mp h)] at hperm

theorem erase_of_none {d : Dict κ ν} {key : κ} (h : d.get? key = none) : d.erase key = d := by
  have hitems : d.items.filter (fun kv => kv.1 ≠ key) = d.items := by
    refine List.filter_eq_self.mpr fun kv hkv => decide_eq_true fun he => ?_
    exact get?_eq_none.mp h (List.mem_map.mpr ⟨kv, hkv, he⟩)
  cases d
  simp only [erase, Dict.mk.injEq]
  exact hitems

end Dict

end PlcnextIot.Python
