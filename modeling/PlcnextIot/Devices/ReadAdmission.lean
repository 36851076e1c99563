/-
  PlcnextIot.Devices.ReadAdmission

  What a read budget admits.

  `Coherent` relates the semaphore, the entries and the map of endpoints to the calls in
  progress: each is counted where it is registered, and holds what its local variables
  say.  Every step keeps it, and no `finally` raises.
-/

import PlcnextIot.Devices.ReadBudget

namespace PlcnextIot.Devices

open PlcnextIot.Python PlcnextIot.Effect PlcnextIot.Effect.Prog

variable {κ : Type} [DecidableEq κ]

/-! ## The invariant -/

/-- What the local variables of a call say that it holds. -/
def Acquire.holds (k : Acquire κ) : Permit → ℕ
  | .lock entry => if k.localLock = true ∧ k.entry = entry then 1 else 0
  | .slot => if k.globalSlot then 1 else 0

/-- The local variables agree with the place of a call. -/
def Acquire.staged (k : Acquire κ) : Prop :=
  match k.stage with
  | .endpoint => k.localLock = false ∧ k.globalSlot = false
  | .slot => k.localLock = true ∧ k.globalSlot = false
  | .body admitted => k.globalSlot = admitted ∧ (k.globalSlot = true → k.localLock = true)

namespace ReadBudget

variable (b : ReadBudget κ)

/-- How many calls in progress have a property. -/
def count (p : Acquire κ → Bool) : ℕ := b.calls.values.countP p

/-- What a call holds; a call that has ended holds nothing. -/
def holding (c : ℕ) (r : Permit) : ℕ := ((b.calls.get? c).map (·.holds r)).getD 0

end ReadBudget

/-- The calls of an endpoint. -/
def isOf (endpoint : κ) (k : Acquire κ) : Bool := k.endpoint = endpoint

/-- The calls of an endpoint that hold its lock. -/
def locksOf (endpoint : κ) (k : Acquire κ) : Bool := k.endpoint = endpoint && k.localLock

/-- An entry of the map has its calls, at most one of which holds the lock. -/
structure EntryOf (b : ReadBudget κ) (endpoint : κ) (entry : ℕ) : Prop where
  created : entry < b.created
  calls : (b.entries entry).calls = b.count (isOf endpoint)
  locked : b.count (locksOf endpoint) = if (b.entries entry).locked then 1 else 0

/-- The books of a budget with `n` slots.  The entry of `pending` may be one that no call has joined yet. -/
structure Coherent (n : ℕ) (pending : Option κ) (b : ReadBudget κ) : Prop where
  slots : b.free + b.count (·.globalSlot) = n
  staged : ∀ c k, b.calls.get? c = some k → k.staged
  mapped : ∀ c k, b.calls.get? c = some k → b.endpoints.get? k.endpoint = some k.entry
  entries : ∀ endpoint entry, b.endpoints.get? endpoint = some entry → EntryOf b endpoint entry
  used : ∀ endpoint entry, b.endpoints.get? endpoint = some entry →
    some endpoint = pending ∨ 0 < b.count (isOf endpoint)
  injective : ∀ endpoint endpoint' entry, b.endpoints.get? endpoint = some entry →
    b.endpoints.get? endpoint' = some entry → endpoint = endpoint'
  numbered : ∀ c k, b.calls.get? c = some k → c < b.started
  accounts : ∀ c r, b.taken.count (c, r) = b.released.count (c, r) + b.holding c r
  kept : ∀ c r, (b.calls.get? c).isSome → b.released.count (c, r) = 0
  once : ∀ c r, b.taken.count (c, r) ≤ 1
  unstarted : ∀ c r, b.started ≤ c → b.taken.count (c, r) = 0

/-! ## Counting calls -/

section Counting

variable {b : ReadBudget κ} {d : Dict ℕ (Acquire κ)} {c : ℕ} {k k' : Acquire κ} {p : Acquire κ → Bool}

omit [DecidableEq κ] in
theorem countP_set_new (h : d.get? c = none) :
    (d.set c k).values.countP p = d.values.countP p + if p k then 1 else 0 := by
  rw [(Dict.values_set d c k).countP_eq, Dict.erase_of_none h, List.countP_cons]

omit [DecidableEq κ] in
theorem countP_set (h : d.get? c = some k) :
    (d.set c k').values.countP p + (if p k then 1 else 0) =
      d.values.countP p + if p k' then 1 else 0 := by
  rw [(Dict.values_set d c k').countP_eq, (Dict.values_erase h).countP_eq, List.countP_cons,
    List.countP_cons]
  omega

omit [DecidableEq κ] in
theorem countP_erase (h : d.get? c = some k) :
    (d.erase c).values.countP p + (if p k then 1 else 0) = d.values.countP p := by
  rw [(Dict.values_erase h).countP_eq, List.countP_cons]

theorem count_pos (h : b.calls.get? c = some k) (hp : p k = true) : 0 < b.count p :=
  List.countP_pos_iff.mpr ⟨k, Dict.mem_values.mpr ⟨c, h⟩, hp⟩

end Counting

/-! ## A call begins -/

section Begin

variable {n : ℕ} {b : ReadBudget κ} {c : ℕ} {k : Acquire κ} {pending : Option κ} {endpoint : κ} {entry : ℕ}

/-- An entry that a step does not touch. -/
theorem EntryOf.congr {b' : ReadBudget κ} (h : EntryOf b endpoint entry)
    (hcreated : b.created ≤ b'.created) (hentry : b'.entries entry = b.entries entry)
    (hcalls : b'.count (isOf endpoint) = b.count (isOf endpoint))
    (hlocks : b'.count (locksOf endpoint) = b.count (locksOf endpoint)) :
    EntryOf b' endpoint entry where
  created := h.created.trans_le hcreated
  calls := by
    rw [hentry, hcalls]
    exact h.calls
  locked := by
    rw [hentry, hlocks]
    exact h.locked

theorem isOf_of_eq (h : k.endpoint = endpoint) : isOf endpoint k = true := decide_eq_true h

theorem isOf_of_ne (h : k.endpoint ≠ endpoint) : isOf endpoint k = false := decide_eq_false h

theorem locksOf_of_ne (h : k.endpoint ≠ endpoint) : locksOf endpoint k = false := by
  rw [locksOf, decide_eq_false h, Bool.false_and]

theorem locksOf_unlocked (h : k.localLock = false) : locksOf endpoint k = false := by
  rw [locksOf, h, Bool.and_false]

theorem isOf_of_locksOf (h : locksOf endpoint k = true) : isOf endpoint k = true := by
  rw [locksOf, Bool.and_eq_true] at h
  exact h.1

/-- An endpoint without an entry has no calls. -/
theorem Coherent.unused (h : Coherent n pending b) (hnone : b.endpoints.get? endpoint = none)
    {p : Acquire κ → Bool} (hp : ∀ k, p k = true → isOf endpoint k = true) : b.count p = 0 := by
  refine List.countP_eq_zero.mpr fun k hk hpk => ?_
  obtain ⟨c, hc⟩ := Dict.mem_values.mp hk
  have hmapped := h.mapped c k hc
  rw [of_decide_eq_true (hp k hpk), hnone] at hmapped
  cases hmapped

theorem Coherent.unnumbered (h : Coherent n pending b) : b.calls.get? b.started = none := by
  cases hc : b.calls.get? b.started with
  | none => rfl
  | some k => exact absurd (h.numbered _ k hc) (lt_irrefl _)

theorem Coherent.opened (h : Coherent n none b) (hnone : b.endpoints.get? endpoint = none) :
    Coherent n (some endpoint) (b.opened endpoint) := by
  -- The new entry has a number of its own, above all others.
  have hset : ∀ endpoint' entry', (b.opened endpoint).endpoints.get? endpoint' = some entry' →
      endpoint' = endpoint ∧ entry' = b.created ∨
        endpoint' ≠ endpoint ∧ b.endpoints.get? endpoint' = some entry' ∧ entry' < b.created := by
    intro endpoint' entry' he
    have he : (b.endpoints.set endpoint b.created).get? endpoint' = some entry' := he
    rw [Dict.get?_set] at he
    by_cases hsame : endpoint' = endpoint
    · rw [if_pos hsame] at he
      exact .inl ⟨hsame, (Option.some.inj he).symm⟩
    · rw [if_neg hsame] at he
      exact .inr ⟨hsame, he, (h.entries _ _ he).created⟩
  refine ⟨h.slots, h.staged, fun c k hc => ?_, fun endpoint' entry' he => ?_,
    fun endpoint' entry' he => ?_, fun endpoint₁ endpoint₂ entry' h₁ h₂ => ?_, h.numbered, h.accounts,
    h.kept, h.once, h.unstarted⟩
  · show (b.endpoints.set endpoint b.created).get? k.endpoint = _
    have hmapped := h.mapped c k hc
    rw [Dict.get?_set, if_neg]
    · exact hmapped
    · rintro he
      rw [he, hnone] at hmapped
      cases hmapped
  · rcases hset endpoint' entry' he with ⟨rfl, rfl⟩ | ⟨-, he, hlt⟩
    · refine ⟨Nat.lt_succ_self _, ?_, ?_⟩
      · show (Function.update b.entries b.created _ b.created).calls = (b.count (isOf endpoint') : ℕ)
        rw [Function.update_self, h.unused hnone fun _ hk => hk]
        rfl
      · show b.count (locksOf endpoint') =
          if (Function.update b.entries b.created _ b.created).locked then 1 else 0
        rw [Function.update_self, h.unused hnone fun _ hk => isOf_of_locksOf hk]
        rfl
    · exact (h.entries endpoint' entry' he).congr (Nat.le_succ _) (Function.update_of_ne hlt.ne _ _)
        rfl rfl
  · rcases hset endpoint' entry' he with ⟨rfl, -⟩ | ⟨-, he, -⟩
    · exact .inl rfl
    · exact .inr ((h.used endpoint' entry' he).resolve_left (by simp))
  · rcases hset _ _ h₁ with ⟨rfl, rfl⟩ | ⟨-, h₁, hlt₁⟩ <;>
      rcases hset _ _ h₂ with ⟨rfl, he⟩ | ⟨-, h₂, hlt₂⟩
    · rfl
    · exact absurd hlt₂ (lt_irrefl _)
    · exact absurd hlt₁ (by omega)
    · exact h.injective _ _ _ h₁ h₂

theorem Coherent.joined (h : Coherent n pending b) (hpending : ∀ e, pending = some e → e = endpoint)
    (hentry : b.endpoints.get? endpoint = some entry) : Coherent n none (b.joined endpoint entry) := by
  have hnew := h.unnumbered
  have hget : ∀ c k, (b.joined endpoint entry).calls.get? c = some k →
      c = b.started ∧ k = { endpoint, entry } ∨ b.calls.get? c = some k := by
    intro c k hc
    have hc : (b.calls.set b.started { endpoint, entry }).get? c = some k := hc
    rw [Dict.get?_set] at hc
    by_cases hsame : c = b.started
    · rw [if_pos hsame] at hc
      exact .inl ⟨hsame, (Option.some.inj hc).symm⟩
    · rw [if_neg hsame] at hc
      exact .inr hc
  have hcount : ∀ p : Acquire κ → Bool, (b.joined endpoint entry).count p =
      b.count p + if p { endpoint, entry } then 1 else 0 := fun p => countP_set_new hnew
  refine ⟨?_, fun c k hc => ?_, fun c k hc => ?_, fun endpoint' entry' he => ?_,
    fun endpoint' entry' he => .inr ?_, h.injective, fun c k hc => ?_, fun c r => ?_, fun c r hc => ?_,
    h.once, fun c r hc => h.unstarted c r (Nat.le_of_succ_le hc)⟩
  · show b.free + (b.joined endpoint entry).count _ = _
    rw [hcount]
    exact h.slots
  · rcases hget c k hc with ⟨-, rfl⟩ | hc
    · exact ⟨rfl, rfl⟩
    · exact h.staged c k hc
  · rcases hget c k hc with ⟨-, rfl⟩ | hc
    · exact hentry
    · exact h.mapped c k hc
  · have hold := h.entries endpoint' entry' he
    by_cases hsame : endpoint' = endpoint
    · subst hsame
      obtain rfl := Option.some.inj (hentry.symm.trans he)
      refine ⟨hold.created, ?_, ?_⟩
      · show (Function.update b.entries entry _ entry).calls = _
        rw [hcount, isOf_of_eq (k := { endpoint := endpoint', entry }) rfl, if_pos rfl,
          Function.update_self]
        push_cast
        rw [← hold.calls]
      · show _ = if (Function.update b.entries entry _ entry).locked then 1 else 0
        rw [hcount, locksOf_unlocked rfl, Function.update_self]
        exact hold.locked
    · have hother : entry' ≠ entry := fun he' => hsame (h.injective _ _ _ (he' ▸ he) hentry)
      refine hold.congr le_rfl (Function.update_of_ne hother _ _) ?_ ?_
      · rw [hcount, isOf_of_ne fun he => hsame he.symm]
        rfl
      · rw [hcount, locksOf_of_ne fun he => hsame he.symm]
        rfl
  · rw [hcount]
    rcases h.used endpoint' entry' he with hpend | hpos
    · rw [isOf_of_eq (hpending endpoint' hpend.symm).symm, if_pos rfl]
      omega
    · omega
  · show c < b.started + 1
    rcases hget c k hc with ⟨rfl, -⟩ | hc
    · omega
    · exact (h.numbered c k hc).trans (Nat.lt_succ_self _)
  · -- the new call holds nothing
    have haccounts := h.accounts c r
    show b.taken.count (c, r) = b.released.count (c, r) +
      (((b.calls.set b.started { endpoint, entry }).get? c).map (·.holds r)).getD 0
    rw [ReadBudget.holding] at haccounts
    rw [Dict.get?_set]
    by_cases hc : c = b.started
    · rw [hc, hnew] at haccounts
      rw [if_pos hc, hc]
      cases r <;> simpa [Acquire.holds] using haccounts
    · rw [if_neg hc]
      exact haccounts
  · have hc : ((b.calls.set b.started { endpoint, entry }).get? c).isSome := hc
    rw [Dict.get?_set] at hc
    by_cases hnumber : c = b.started
    · have haccounts := h.accounts c r
      rw [h.unstarted c r hnumber.ge] at haccounts
      show b.released.count (c, r) = 0
      omega
    · rw [if_neg hnumber] at hc
      exact h.kept c r hc

theorem begin_coherent (endpoint : κ) (h : Coherent n none b) :
    wp (begin endpoint) (fun _ => Coherent n none) (fun _ _ => False) b := by
  rw [begin, wp_bind, setdefault, wp_bind, wp_get]
  cases hentry : b.endpoints.get? endpoint with
  | some entry => exact h.joined (fun _ he => by cases he) hentry
  | none =>
      refine (h.opened hentry).joined (fun e he => (Option.some.inj he).symm) ?_
      show (b.endpoints.set endpoint b.created).get? endpoint = some b.created
      rw [Dict.get?_set_self]

end Begin

/-! ## A call goes on -/

section Grants

variable {n : ℕ} {b b' : ReadBudget κ} {c : ℕ} {k k' : Acquire κ}

omit [DecidableEq κ] in
theorem Acquire.holds_le_one (k : Acquire κ) (r : Permit) : k.holds r ≤ 1 := by
  cases r <;> rw [Acquire.holds] <;> split <;> omega

theorem Coherent.taken_eq (h : Coherent n none b) (hc : b.calls.get? c = some k) (r : Permit) :
    b.taken.count (c, r) = k.holds r := by
  rw [h.accounts, h.kept c r (by rw [hc]; rfl), ReadBudget.holding, hc, zero_add]
  rfl

/-- A call in progress changes what it holds, and the budget accordingly. -/
theorem Coherent.change (h : Coherent n none b) (hc : b.calls.get? c = some k)
    (hstaged : k'.staged) (hendpoint : k'.endpoint = k.endpoint) (hentry : k'.entry = k.entry)
    (hcalls : b'.calls = b.calls.set c k') (hendpoints : b'.endpoints = b.endpoints)
    (hcreated : b'.created = b.created) (hstarted : b'.started = b.started)
    (hreleased : b'.released = b.released)
    (hfree : b'.free + (if k'.globalSlot then 1 else 0) = b.free + if k.globalSlot then 1 else 0)
    (hothers : ∀ entry, entry ≠ k.entry → b'.entries entry = b.entries entry)
    (hcount : (b'.entries k.entry).calls = (b.entries k.entry).calls)
    (hlocked : (if (b'.entries k.entry).locked then 1 else 0) + (if k.localLock then 1 else 0) =
      (if (b.entries k.entry).locked then 1 else 0) + if k'.localLock then 1 else 0)
    (htaken : ∀ r, b'.taken.count (c, r) = k'.holds r)
    (huntaken : ∀ c', c' ≠ c → ∀ r, b'.taken.count (c', r) = b.taken.count (c', r)) :
    Coherent n none b' := by
  -- Every count over the calls changes by what this call changes.
  have hcounts : ∀ p : Acquire κ → Bool, b'.count p + (if p k then 1 else 0) =
      b.count p + if p k' then 1 else 0 := by
    intro p
    rw [ReadBudget.count, hcalls]
    exact countP_set hc
  have hget : ∀ c' k₁, b'.calls.get? c' = some k₁ →
      c' = c ∧ k₁ = k' ∨ c' ≠ c ∧ b.calls.get? c' = some k₁ := by
    intro c' k₁ hk₁
    rw [hcalls, Dict.get?_set] at hk₁
    by_cases hsame : c' = c
    · rw [if_pos hsame] at hk₁
      exact .inl ⟨hsame, (Option.some.inj hk₁).symm⟩
    · rw [if_neg hsame] at hk₁
      exact .inr ⟨hsame, hk₁⟩
  -- The call stays at its endpoint.
  have hisOf : ∀ endpoint, b'.count (isOf endpoint) = b.count (isOf endpoint) := by
    intro endpoint
    have hcounts := hcounts (isOf endpoint)
    rw [isOf, isOf, hendpoint] at hcounts
    omega
  have hmapped := h.mapped c k hc
  refine ⟨?_, fun c' k₁ hk₁ => ?_, fun c' k₁ hk₁ => ?_, fun endpoint entry he => ?_,
    fun endpoint entry he => ?_, ?_, fun c' k₁ hk₁ => ?_, fun c' r => ?_, fun c' r hc' => ?_,
    fun c' r => ?_, fun c' r hc' => ?_⟩
  · have hslots := hcounts (·.globalSlot)
    have hbefore := h.slots
    omega
  · rcases hget c' k₁ hk₁ with ⟨-, rfl⟩ | ⟨-, hk₁⟩
    · exact hstaged
    · exact h.staged c' k₁ hk₁
  · rw [hendpoints]
    rcases hget c' k₁ hk₁ with ⟨-, rfl⟩ | ⟨-, hk₁⟩
    · rw [hendpoint, hentry]
      exact hmapped
    · exact h.mapped c' k₁ hk₁
  · rw [hendpoints] at he
    have hold := h.entries endpoint entry he
    by_cases hsame : endpoint = k.endpoint
    · subst hsame
      obtain rfl := Option.some.inj (hmapped.symm.trans he)
      refine ⟨hcreated ▸ hold.created, ?_, ?_⟩
      · rw [hcount, hisOf]
        exact hold.calls
      · have hlocks := hcounts (locksOf k.endpoint)
        rw [locksOf, locksOf, hendpoint, decide_eq_true rfl, Bool.true_and, Bool.true_and] at hlocks
        have hbefore := hold.locked
        omega
    · have hother : entry ≠ k.entry := fun he' => hsame (h.injective _ _ _ (he' ▸ he) hmapped)
      refine hold.congr hcreated.ge (hothers entry hother) (hisOf endpoint) ?_
      have hlocks := hcounts (locksOf endpoint)
      rw [locksOf_of_ne fun he => hsame he.symm,
        locksOf_of_ne fun he => hsame (he.symm.trans hendpoint)] at hlocks
      exact hlocks
  · rw [hendpoints] at he
    rw [hisOf]
    exact h.used endpoint entry he
  · rw [hendpoints]
    exact h.injective
  · rw [hstarted]
    rcases hget c' k₁ hk₁ with ⟨rfl, -⟩ | ⟨-, hk₁⟩
    · exact h.numbered c' k hc
    · exact h.numbered c' k₁ hk₁
  · rw [hreleased, ReadBudget.holding, hcalls, Dict.get?_set]
    by_cases hsame : c' = c
    · rw [if_pos hsame, hsame, htaken, h.kept c r (by rw [hc]; rfl), zero_add]
      rfl
    · rw [if_neg hsame, huntaken c' hsame]
      exact h.accounts c' r
  · rw [hreleased]
    rw [hcalls, Dict.get?_set] at hc'
    by_cases hsame : c' = c
    · rw [hsame]
      exact h.kept c r (by rw [hc]; rfl)
    · rw [if_neg hsame] at hc'
      exact h.kept c' r hc'
  · by_cases hsame : c' = c
    · rw [hsame, htaken]
      exact k'.holds_le_one r
    · rw [huntaken c' hsame]
      exact h.once c' r
  · rw [hstarted] at hc'
    have hlt := h.numbered c k hc
    rw [huntaken c' (by omega)]
    exact h.unstarted c' r hc'

theorem count_cons_call {taken : List (ℕ × Permit)} {c c' : ℕ} (r r' : Permit) (h : c' ≠ c) :
    ((c, r) :: taken).count (c', r') = taken.count (c', r') :=
  List.count_cons_of_ne fun he => h (Prod.mk.inj he).1.symm

theorem grantLock_coherent (c : ℕ) (h : Coherent n none b) :
    wp (grantLock c) (fun _ => Coherent n none) (fun _ _ => False) b := by
  rw [grantLock, wp_modify]
  cases hc : b.calls.get? c with
  | none => exact h
  | some k =>
      show Coherent n none (if _ then _ else _)
      split
      · next hgrant =>
        obtain ⟨hstage, hfree⟩ := hgrant
        obtain ⟨hlocal, hglobal⟩ : k.localLock = false ∧ k.globalSlot = false := by
          have hstaged := h.staged c k hc
          rwa [Acquire.staged, hstage] at hstaged
        have hstaged : ({ k with localLock := true, stage := .slot } : Acquire κ).staged :=
          ⟨rfl, hglobal⟩
        refine h.change hc hstaged rfl rfl rfl rfl rfl rfl rfl rfl
          (fun entry he => Function.update_of_ne he _ _) ?_ ?_ (fun r => ?_)
          (fun c' hne r => count_cons_call _ r hne)
        · show (Function.update b.entries k.entry _ k.entry).calls = _
          rw [Function.update_self]
        · show (if (Function.update b.entries k.entry _ k.entry).locked then 1 else 0) + _ = _
          rw [Function.update_self, hlocal, hfree]
          rfl
        · show ((c, Permit.lock k.entry) :: b.taken).count (c, r) = _
          rw [List.count_cons, h.taken_eq hc]
          cases r with
          | lock entry => simp [Acquire.holds, hlocal]
          | slot => simp [Acquire.holds, hglobal]
      · exact h

theorem grantSlot_coherent (c : ℕ) (h : Coherent n none b) :
    wp (grantSlot c) (fun _ => Coherent n none) (fun _ _ => False) b := by
  rw [grantSlot, wp_modify]
  cases hc : b.calls.get? c with
  | none => exact h
  | some k =>
      show Coherent n none (if _ then _ else _)
      split
      · next hgrant =>
        obtain ⟨hstage, hfree⟩ := hgrant
        obtain ⟨hlocal, hglobal⟩ : k.localLock = true ∧ k.globalSlot = false := by
          have hstaged := h.staged c k hc
          rwa [Acquire.staged, hstage] at hstaged
        have hstaged : ({ k with globalSlot := true, stage := .body true } : Acquire κ).staged :=
          ⟨rfl, fun _ => hlocal⟩
        refine h.change hc hstaged rfl rfl rfl rfl rfl rfl rfl ?_ (fun _ _ => rfl)
          rfl rfl (fun r => ?_) (fun c' hne r => count_cons_call _ r hne)
        · show b.free - 1 + 1 = b.free + if k.globalSlot then 1 else 0
          rw [hglobal]
          exact Nat.succ_pred_eq_of_pos hfree
        · show ((c, Permit.slot) :: b.taken).count (c, r) = _
          rw [List.count_cons, h.taken_eq hc]
          cases r with
          | lock entry => simp [Acquire.holds]
          | slot => simp [Acquire.holds, hglobal]
      · exact h

theorem expire_coherent (c : ℕ) (h : Coherent n none b) :
    wp (expire c) (fun _ => Coherent n none) (fun _ _ => False) b := by
  rw [expire, wp_modify]
  cases hc : b.calls.get? c with
  | none => exact h
  | some k =>
      have hwaiting : k.globalSlot = false → Coherent n none { b with
          skipped := b.skipped + 1
          calls := b.calls.set c { k with stage := .body k.globalSlot } } := by
        intro hglobal
        have hstaged : ({ k with stage := .body k.globalSlot } : Acquire κ).staged := by
          refine ⟨rfl, fun he => ?_⟩
          have he : k.globalSlot = true := he
          rw [hglobal] at he
          cases he
        exact h.change hc hstaged rfl rfl rfl rfl rfl rfl rfl rfl (fun _ _ => rfl) rfl rfl (fun r => h.taken_eq hc r) (fun _ _ _ => rfl)
      have hstaged := h.staged c k hc
      dsimp only
      cases hstage : k.stage with
      | endpoint =>
          rw [Acquire.staged, hstage] at hstaged
          exact hwaiting hstaged.2
      | slot =>
          rw [Acquire.staged, hstage] at hstaged
          exact hwaiting hstaged.2
      | body admitted => exact h

end Grants

/-! ## A call ends -/

section Unwind

variable {n : ℕ} {b : ReadBudget κ} {c : ℕ} {k : Acquire κ}

/-- What a call has released when it ends. -/
def Acquire.returned (k : Acquire κ) (c : ℕ) : List (ℕ × Permit) :=
  (if k.localLock then [(c, .lock k.entry)] else []) ++ if k.globalSlot then [(c, .slot)] else []

/-- The budget after the `finally` of a call. -/
def ReadBudget.unwound (b : ReadBudget κ) (c : ℕ) (k : Acquire κ) : ReadBudget κ :=
  { b with
    free := if k.globalSlot then b.free + 1 else b.free
    entries := Function.update b.entries k.entry
      { locked := if k.localLock then false else (b.entries k.entry).locked
        calls := (b.entries k.entry).calls - 1 }
    endpoints := if (b.entries k.entry).calls - 1 = 0 then b.endpoints.erase k.endpoint
      else b.endpoints
    calls := b.calls.erase c
    released := k.returned c ++ b.released }

theorem leave_spec (hentry : (b.endpoints.get? k.endpoint).isSome) :
    wp (leave k) (fun _ b' => b' = { b with
        entries := Function.update b.entries k.entry
          { b.entries k.entry with calls := (b.entries k.entry).calls - 1 }
        endpoints := if (b.entries k.entry).calls - 1 = 0 then b.endpoints.erase k.endpoint
          else b.endpoints }) (fun _ _ => False) b := by
  rw [leave, wp_bind, wp_modify, wp_bind, wp_get]
  show wp (if (Function.update b.entries k.entry _ k.entry).calls = 0 then _ else _) _ _ _
  rw [Function.update_self, wp_ite]
  refine ⟨fun hlast => ?_, fun hmore => ?_⟩
  · rw [wp_bind, wp_check]
    refine ⟨fun _ => ?_, fun hno => absurd hentry hno⟩
    rw [wp_modify]
    simp only [if_pos hlast]
  · rw [wp_pure]
    simp only [if_neg hmore]

/-- No release of a `finally` raises. -/
theorem unwind_spec (hlocked : k.localLock = true → (b.entries k.entry).locked = true)
    (hentry : (b.endpoints.get? k.endpoint).isSome) :
    wp (unwind c k) (fun _ b' => b' = b.unwound c k) (fun _ _ => False) b := by
  have hslot : wp (releaseSlot c k) (fun _ b' => b' = { b with
      free := if k.globalSlot then b.free + 1 else b.free
      released := (if k.globalSlot then [(c, .slot)] else []) ++ b.released }) (fun _ _ => False) b := by
    rw [releaseSlot, wp_ite]
    refine ⟨fun hheld => ?_, fun hfree => ?_⟩
    · rw [wp_modify, if_pos hheld, if_pos hheld]
      rfl
    · rw [wp_pure, if_neg hfree, if_neg hfree]
      rfl
  rw [unwind, wp_bind]
  refine hslot.mono ?_ fun _ _ hf => hf
  rintro - b₁ rfl
  rw [wp_bind]
  have hlock : wp (releaseLock c k) (fun _ b' => b' = { b with
      free := if k.globalSlot then b.free + 1 else b.free
      entries := Function.update b.entries k.entry
        { b.entries k.entry with locked := if k.localLock then false else (b.entries k.entry).locked }
      released := k.returned c ++ b.released }) (fun _ _ => False) { b with
      free := if k.globalSlot then b.free + 1 else b.free
      released := (if k.globalSlot then [(c, .slot)] else []) ++ b.released } := by
    rw [releaseLock, wp_ite]
    refine ⟨fun hheld => ?_, fun hfree => ?_⟩
    · rw [wp_bind, wp_get, wp_bind, wp_check]
      refine ⟨fun _ => ?_, fun hno => absurd (hlocked hheld) hno⟩
      rw [wp_modify, Acquire.returned, if_pos hheld, if_pos hheld]
      rfl
    · rw [wp_pure, Acquire.returned, if_neg hfree, if_neg hfree, Function.update_eq_self]
      rfl
  refine hlock.mono ?_ fun _ _ hf => hf
  rintro - b₂ rfl
  rw [wp_bind]
  refine wp.mono (leave_spec ?_) ?_ fun _ _ hf => hf
  · exact hentry
  · rintro - b₃ rfl
    rw [wp_modify, ReadBudget.unwound]
    simp only [Function.update_self, Function.update_idem]

theorem Coherent.holds_lock (h : Coherent n none b) (hc : b.calls.get? c = some k)
    (hlocal : k.localLock = true) : (b.entries k.entry).locked = true := by
  have hlocked := (h.entries _ _ (h.mapped c k hc)).locked
  have hpos : 0 < b.count (locksOf k.endpoint) := by
    refine count_pos hc ?_
    rw [locksOf, hlocal, decide_eq_true rfl]
    rfl
  by_contra hno
  rw [if_neg hno] at hlocked
  omega

omit [DecidableEq κ] in
theorem count_returned (k : Acquire κ) (c : ℕ) (r : Permit) : (k.returned c).count (c, r) = k.holds r := by
  rw [Acquire.returned, List.count_append]
  cases hlocal : k.localLock <;> cases hglobal : k.globalSlot <;> cases r <;>
    simp [Acquire.holds, hlocal, hglobal, List.count_cons]

omit [DecidableEq κ] in
theorem count_returned_of_ne (k : Acquire κ) {c c' : ℕ} (h : c' ≠ c) (r : Permit) :
    (k.returned c).count (c', r) = 0 := by
  refine List.count_eq_zero.mpr fun hmem => h ?_
  rw [Acquire.returned] at hmem
  cases hlocal : k.localLock <;> cases hglobal : k.globalSlot <;>
    simp [hlocal, hglobal] at hmem
  · exact hmem.1
  · exact hmem.1
  · exact hmem.elim (·.1) (·.1)

/-- The end of a call keeps the invariant. -/
theorem Coherent.unwound (h : Coherent n none b) (hc : b.calls.get? c = some k) :
    Coherent n none (b.unwound c k) := by
  have hcounts : ∀ p : Acquire κ → Bool,
      (b.unwound c k).count p + (if p k then 1 else 0) = b.count p := fun p => countP_erase hc
  have hget : ∀ c' k', (b.unwound c k).calls.get? c' = some k' → c' ≠ c ∧ b.calls.get? c' = some k' := by
    intro c' k' hk'
    have hk' : (b.calls.erase c).get? c' = some k' := hk'
    rw [Dict.get?_erase] at hk'
    by_cases hsame : c' = c
    · rw [if_pos hsame] at hk'
      cases hk'
    · rw [if_neg hsame] at hk'
      exact ⟨hsame, hk'⟩
  have hmapped := h.mapped c k hc
  have hown := h.entries _ _ hmapped
  have hisOf := hcounts (isOf k.endpoint)
  rw [isOf_of_eq rfl, if_pos rfl] at hisOf
  -- the entry goes exactly when the endpoint has no call left
  have hlast : (b.entries k.entry).calls - 1 = 0 ↔ (b.unwound c k).count (isOf k.endpoint) = 0 := by
    rw [hown.calls]
    omega
  have hendpoints : ∀ endpoint entry, (b.unwound c k).endpoints.get? endpoint = some entry →
      b.endpoints.get? endpoint = some entry ∧
        (endpoint = k.endpoint → 0 < (b.unwound c k).count (isOf k.endpoint)) := by
    intro endpoint entry he
    have he : (if (b.entries k.entry).calls - 1 = 0 then b.endpoints.erase k.endpoint
      else b.endpoints).get? endpoint = some entry := he
    by_cases hzero : (b.entries k.entry).calls - 1 = 0
    · rw [if_pos hzero, Dict.get?_erase] at he
      by_cases hsame : endpoint = k.endpoint
      · rw [if_pos hsame] at he
        cases he
      · rw [if_neg hsame] at he
        exact ⟨he, fun hsame' => absurd hsame' hsame⟩
    · rw [if_neg hzero] at he
      exact ⟨he, fun _ => Nat.pos_of_ne_zero fun h0 => hzero (hlast.mpr h0)⟩
  refine ⟨?_, fun c' k' hk' => h.staged c' k' (hget c' k' hk').2, fun c' k' hk' => ?_,
    fun endpoint entry he => ?_, fun endpoint entry he => .inr ?_,
    fun _ _ _ h₁ h₂ => h.injective _ _ _ (hendpoints _ _ h₁).1 (hendpoints _ _ h₂).1,
    fun c' k' hk' => h.numbered c' k' (hget c' k' hk').2, fun c' r => ?_, fun c' r hc' => ?_,
    h.once, h.unstarted⟩
  · have hslots := hcounts (·.globalSlot)
    have hbefore := h.slots
    show (if k.globalSlot then b.free + 1 else b.free) + (b.unwound c k).count _ = n
    cases hglobal : k.globalSlot with
    | true =>
        rw [hglobal, if_pos rfl] at hslots
        rw [if_pos rfl]
        omega
    | false =>
        rw [hglobal, if_neg (by simp)] at hslots
        rw [if_neg (by simp)]
        omega
  · obtain ⟨hne, hk'⟩ := hget c' k' hk'
    have hother := h.mapped c' k' hk'
    show (if (b.entries k.entry).calls - 1 = 0 then b.endpoints.erase k.endpoint
      else b.endpoints).get? k'.endpoint = some k'.entry
    by_cases hzero : (b.entries k.entry).calls - 1 = 0
    · rw [if_pos hzero, Dict.get?_erase]
      rw [if_neg]
      · exact hother
      · -- another call of the endpoint would be left
        intro hsame
        have hpos : 0 < (b.unwound c k).count (isOf k.endpoint) :=
          count_pos (show (b.calls.erase c).get? c' = some k' by
            rw [Dict.get?_erase, if_neg hne]
            exact hk') (isOf_of_eq hsame)
        have hnone := hlast.mp hzero
        omega
    · rw [if_neg hzero]
      exact hother
  · obtain ⟨hold, -⟩ := hendpoints endpoint entry he
    have hentry := h.entries endpoint entry hold
    by_cases hsame : endpoint = k.endpoint
    · subst hsame
      obtain rfl := Option.some.inj (hmapped.symm.trans hold)
      refine ⟨hentry.created, ?_, ?_⟩
      · show (Function.update b.entries k.entry _ k.entry).calls = _
        rw [Function.update_self]
        show (b.entries k.entry).calls - 1 = _
        rw [hentry.calls]
        omega
      · show _ = if (Function.update b.entries k.entry _ k.entry).locked then 1 else 0
        rw [Function.update_self]
        have hlocks := hcounts (locksOf k.endpoint)
        have hbefore := hentry.locked
        rw [locksOf, decide_eq_true rfl, Bool.true_and] at hlocks
        cases hlocal : k.localLock with
        | true =>
            rw [hlocal, if_pos rfl] at hlocks
            rw [if_pos (h.holds_lock hc hlocal)] at hbefore
            simp only [if_true]
            simp only [Bool.false_eq_true, if_false]
            omega
        | false =>
            rw [hlocal, if_neg (by simp)] at hlocks
            simp only [Bool.false_eq_true, if_false]
            omega
    · have hother : entry ≠ k.entry := fun he' => hsame (h.injective _ _ _ (he' ▸ hold) hmapped)
      refine hentry.congr le_rfl (Function.update_of_ne hother _ _) ?_ ?_
      · have hcalls := hcounts (isOf endpoint)
        rw [isOf_of_ne fun he => hsame he.symm] at hcalls
        exact hcalls
      · have hlocks := hcounts (locksOf endpoint)
        rw [locksOf_of_ne fun he => hsame he.symm] at hlocks
        exact hlocks
  · obtain ⟨hold, hpos⟩ := hendpoints endpoint entry he
    by_cases hsame : endpoint = k.endpoint
    · rw [hsame]
      exact hpos hsame
    · have hcalls := hcounts (isOf endpoint)
      rw [isOf_of_ne fun he => hsame he.symm] at hcalls
      have hused := (h.used endpoint entry hold).resolve_left (by simp)
      rw [if_neg (by simp)] at hcalls
      omega
  · show b.taken.count (c', r) = (k.returned c ++ b.released).count (c', r) +
      (((b.calls.erase c).get? c').map (·.holds r)).getD 0
    rw [List.count_append, Dict.get?_erase]
    by_cases hsame : c' = c
    · rw [if_pos hsame, hsame, count_returned, h.taken_eq hc, h.kept c r (by rw [hc]; rfl)]
      rfl
    · rw [if_neg hsame, count_returned_of_ne k hsame, zero_add]
      exact h.accounts c' r
  · have hc' : ((b.calls.erase c).get? c').isSome := hc'
    show (k.returned c ++ b.released).count (c', r) = 0
    rw [Dict.get?_erase] at hc'
    by_cases hsame : c' = c
    · rw [if_pos hsame] at hc'
      cases hc'
    · rw [if_neg hsame] at hc'
      rw [List.count_append, count_returned_of_ne k hsame, zero_add]
      exact h.kept c' r hc'

theorem unwind_coherent (h : Coherent n none b) (hc : b.calls.get? c = some k) :
    wp (unwind c k) (fun _ => Coherent n none) (fun _ _ => False) b := by
  refine (unwind_spec (fun hlocal => h.holds_lock hc hlocal) ?_).mono ?_ fun _ _ hf => hf
  · rw [h.mapped c k hc]
    rfl
  · rintro - b' rfl
    exact h.unwound hc

end Unwind

/-! ## Runs -/

section Runs

variable {n : ℕ} {b : ReadBudget κ}

/-- Every step keeps the invariant, and none raises. -/
theorem step_coherent (step : BudgetStep κ) (h : Coherent n none b) :
    wp step.exec (fun _ => Coherent n none) (fun _ _ => False) b := by
  cases step with
  | begin endpoint => exact begin_coherent endpoint h
  | grantLock c => exact grantLock_coherent c h
  | grantSlot c => exact grantSlot_coherent c h
  | expire c => exact expire_coherent c h
  | cancel c =>
      rw [BudgetStep.exec, wp_bind, wp_get]
      cases hc : b.calls.get? c with
      | none => exact h
      | some k => exact unwind_coherent h hc
  | finish c =>
      rw [BudgetStep.exec, wp_bind, wp_get]
      cases hc : b.calls.get? c with
      | none => exact h
      | some k =>
          dsimp only
          cases k.stage with
          | endpoint => exact h
          | slot => exact h
          | body admitted => exact unwind_coherent h hc

theorem Coherent.new {capacity : ℤ} (h : ReadBudget.new capacity = .ok b) :
    Coherent capacity.toNat none b := by
  rw [ReadBudget.new] at h
  split at h
  · obtain rfl := Except.ok.inj h
    refine ⟨rfl, ?_, ?_, ?_, ?_, ?_, ?_, fun _ _ => rfl, ?_, fun _ _ => Nat.zero_le _, fun _ _ _ => rfl⟩
    · exact fun _ _ hc => by cases hc
    · exact fun _ _ hc => by cases hc
    · exact fun _ _ hc => by cases hc
    · exact fun _ _ hc => by cases hc
    · exact fun _ _ _ hc => by cases hc
    · exact fun _ _ hc => by cases hc
    · exact fun _ _ hc => by cases hc
  · cases h

/-- What holds between the steps of a budget. -/
structure Admits (capacity : ℤ) (b : ReadBudget κ) : Prop where
  /-- At most so many calls hold a slot, each of them in its body. -/
  slots : (b.count (·.globalSlot) : ℤ) ≤ capacity
  /-- At most one call of an endpoint holds a slot. -/
  exclusive : ∀ endpoint, b.count (fun k => k.endpoint = endpoint && k.globalSlot) ≤ 1
  /-- A slot is held only in a body that was told so. -/
  admitted : ∀ c k, b.calls.get? c = some k → (b.holding c .slot = 1 ↔ k.stage = .body true)
  /-- What a call in progress has taken, it still holds. -/
  held : ∀ c r, (b.calls.get? c).isSome →
    b.taken.count (c, r) = b.holding c r ∧ b.released.count (c, r) = 0
  /-- What a call has taken is released once when it ends. -/
  released : ∀ c r, b.calls.get? c = none →
    b.released.count (c, r) = b.taken.count (c, r) ∧ b.taken.count (c, r) ≤ 1
  /-- The endpoints of the map are those with a call in progress. -/
  endpoints : ∀ endpoint, (b.endpoints.get? endpoint).isSome ↔
    ∃ c k, b.calls.get? c = some k ∧ k.endpoint = endpoint
  /-- The calls of an endpoint use one lock, which no other endpoint uses. -/
  oneLock : ∀ c c' k k', b.calls.get? c = some k → b.calls.get? c' = some k' →
    (k.endpoint = k'.endpoint ↔ k.entry = k'.entry)
  /-- When all calls have ended, the map is empty and every slot is free. -/
  idle : b.calls.items = [] → b.endpoints.items = [] ∧ (b.free : ℤ) = capacity

theorem Coherent.admitted (h : Coherent n none b) {c : ℕ} {k : Acquire κ}
    (hc : b.calls.get? c = some k) : b.holding c .slot = 1 ↔ k.stage = .body true := by
  have hstaged := h.staged c k hc
  rw [ReadBudget.holding, hc]
  show (if k.globalSlot then 1 else 0) = 1 ↔ _
  rw [Acquire.staged] at hstaged
  cases hstage : k.stage with
  | endpoint =>
      rw [hstage] at hstaged
      simp [hstaged.2]
  | slot =>
      rw [hstage] at hstaged
      simp [hstaged.2]
  | body admitted =>
      rw [hstage] at hstaged
      rw [hstaged.1]
      cases admitted <;> simp

theorem Coherent.exclusive (h : Coherent n none b) (endpoint : κ) :
    b.count (fun k => k.endpoint = endpoint && k.globalSlot) ≤ 1 := by
  -- who holds a slot holds the lock of its endpoint
  have hle : b.count (fun k => k.endpoint = endpoint && k.globalSlot) ≤ b.count (locksOf endpoint) := by
    refine List.countP_mono_left fun k hk hp => ?_
    obtain ⟨c, hc⟩ := Dict.mem_values.mp hk
    rw [Bool.and_eq_true] at hp
    have hstaged := h.staged c k hc
    have hlocal : k.localLock = true := by
      rw [Acquire.staged] at hstaged
      cases hstage : k.stage with
      | endpoint => exact absurd hp.2 (by rw [hstage] at hstaged; simp [hstaged.2])
      | slot => exact absurd hp.2 (by rw [hstage] at hstaged; simp [hstaged.2])
      | body admitted =>
          rw [hstage] at hstaged
          exact hstaged.2 hp.2
    rw [locksOf, hp.1, hlocal]
    rfl
  refine hle.trans ?_
  cases hentry : b.endpoints.get? endpoint with
  | none => rw [h.unused hentry fun _ hk => isOf_of_locksOf hk]; omega
  | some entry =>
      rw [(h.entries endpoint entry hentry).locked]
      split <;> omega

theorem Coherent.admits {capacity : ℤ} (h : Coherent capacity.toNat none b) (hpos : 0 ≤ capacity) :
    Admits capacity b where
  slots := by
    have hslots := h.slots
    omega
  exclusive := h.exclusive
  admitted _ _ hc := h.admitted hc
  held c r hc := by
    have haccounts := h.accounts c r
    have hkept := h.kept c r hc
    exact ⟨by omega, hkept⟩
  released c r hc := by
    have haccounts := h.accounts c r
    rw [ReadBudget.holding, hc] at haccounts
    exact ⟨haccounts.symm, h.once c r⟩
  endpoints endpoint := by
    constructor
    · intro hsome
      obtain ⟨entry, hentry⟩ := Option.isSome_iff_exists.mp hsome
      have hpos := (h.used endpoint entry hentry).resolve_left (by simp)
      obtain ⟨k, hk, hisOf⟩ := List.countP_pos_iff.mp hpos
      obtain ⟨c, hc⟩ := Dict.mem_values.mp hk
      exact ⟨c, k, hc, of_decide_eq_true hisOf⟩
    · rintro ⟨c, k, hc, rfl⟩
      rw [h.mapped c k hc]
      rfl
  oneLock c c' k k' hc hc' := by
    have hmapped := h.mapped c k hc
    have hmapped' := h.mapped c' k' hc'
    constructor
    · intro he
      rw [he, hmapped'] at hmapped
      exact (Option.some.inj hmapped).symm
    · intro he
      rw [← he] at hmapped'
      exact h.injective _ _ _ hmapped hmapped'
  idle hnone := by
    have hcount : ∀ p, b.count p = 0 := by
      intro p
      rw [ReadBudget.count, Dict.values, hnone]
      rfl
    constructor
    · refine List.eq_nil_iff_forall_not_mem.mpr fun kv hkv => ?_
      have hentry := Dict.get?_eq_some.mpr (show (kv.1, kv.2) ∈ b.endpoints.items from hkv)
      have hpos := (h.used _ _ hentry).resolve_left (by simp)
      rw [hcount] at hpos
      exact absurd hpos (lt_irrefl _)
    · have hslots := h.slots
      rw [hcount] at hslots
      omega

end Runs

end PlcnextIot.Devices
