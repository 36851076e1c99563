/-
  PlcnextIot.Effect.Rows

  Tables as lists of rows with a key.

  A table is a list whose keys are distinct.  A row is looked up with `find?`,
  a new row goes to the end, and an update maps the rows without touching
  their keys.
-/

import Mathlib.Data.List.Nodup

namespace PlcnextIot.Effect

variable {ρ κ : Type} {key : ρ → κ} {rows : List ρ} {k : κ} {r r' : ρ}

/-- The rows have distinct keys. -/
def Keyed (key : ρ → κ) (rows : List ρ) : Prop := (rows.map key).Nodup

theorem Keyed.nil : Keyed key [] := List.nodup_nil

/-- A row is known by its key. -/
theorem Keyed.eq_of_key (h : Keyed key rows) (hr : r ∈ rows) (hr' : r' ∈ rows)
    (hkey : key r = key r') : r = r' :=
  List.inj_on_of_nodup_map h hr hr' hkey

theorem Keyed.append (h : Keyed key rows) (hnew : ∀ r' ∈ rows, key r' ≠ key r) :
    Keyed key (rows ++ [r]) := by
  rw [Keyed, List.map_append, List.nodup_append]
  refine ⟨h, List.nodup_singleton _, fun a ha b hb => ?_⟩
  obtain ⟨r', hr', rfl⟩ := List.mem_map.mp ha
  rw [List.mem_singleton.mp hb]
  exact hnew r' hr'

theorem Keyed.map (h : Keyed key rows) {f : ρ → ρ} (hf : ∀ r, key (f r) = key r) :
    Keyed key (rows.map f) := by
  have hkeys : (rows.map f).map key = rows.map key := by
    rw [List.map_map]
    exact List.map_congr_left fun r _ => hf r
  rw [Keyed, hkeys]
  exact h

theorem Keyed.filter (h : Keyed key rows) (p : ρ → Bool) : Keyed key (rows.filter p) :=
  (List.filter_sublist.map key).nodup h

section Lookup

variable [DecidableEq κ]

theorem find?_key_none : rows.find? (fun r => decide (key r = k)) = none ↔ ∀ r ∈ rows, key r ≠ k := by
  simp [List.find?_eq_none]

theorem mem_of_find?_key (h : rows.find? (fun r => decide (key r = k)) = some r) :
    r ∈ rows ∧ key r = k :=
  ⟨List.mem_of_find?_eq_some h, by simpa using List.find?_some h⟩

theorem Keyed.find?_eq_some (h : Keyed key rows) :
    rows.find? (fun r => decide (key r = k)) = some r ↔ r ∈ rows ∧ key r = k := by
  constructor
  · exact mem_of_find?_key
  · rintro ⟨hr, hk⟩
    cases hf : rows.find? (fun r => decide (key r = k)) with
    | none => exact absurd hk (find?_key_none.mp hf r hr)
    | some r' =>
        obtain ⟨hr', hk'⟩ := mem_of_find?_key hf
        rw [h.eq_of_key hr hr' (hk.trans hk'.symm)]

end Lookup

end PlcnextIot.Effect
