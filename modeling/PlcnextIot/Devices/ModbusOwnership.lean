/-
  PlcnextIot.Devices.ModbusOwnership

  Who owns the poll tasks and the readers of the Modbus runners.

  `Shape` lists what a runner can look like: stopped, running a poll, stopping it,
  or with a poll whose stop was cancelled.  In each shape all other polls of the
  runner are over: their tasks have ended and their readers were released.  `Counted`
  says that the pool counts the open readers.  Every step keeps both.
-/

import PlcnextIot.Devices.Modbus
import PlcnextIot.Devices.Transitions

namespace PlcnextIot.Devices

open PlcnextIot.Python PlcnextIot.Config

/-! ## The pool counts the open readers -/

/-- The open readers of an endpoint. -/
def openOn (polls : List Poll) (key : Endpoint) : ℕ :=
  polls.countP fun p => !p.released && p.endpoint = key

/-- An entry for every endpoint with open readers; all of them hold this entry. -/
def Counted (pool : ModbusConnectionPool) (polls : List Poll) : Prop :=
  ∀ key, match pool.entries.get? key with
    | some entry => entry.references = openOn polls key ∧ 0 < entry.references ∧
        ∀ p ∈ polls, p.released = false → p.endpoint = key → p.entry = entry.identity
    | none => openOn polls key = 0

section Pool

variable {pool : ModbusConnectionPool} {polls : List Poll} {k : ℕ} {p : Poll} {f : Poll → Poll}

theorem polls_split (hp : polls[k]? = some p) :
    polls = polls.take k ++ p :: polls.drop (k + 1) ∧
      polls.modify k f = polls.take k ++ f p :: polls.drop (k + 1) := by
  obtain ⟨hk, rfl⟩ := List.getElem?_eq_some_iff.mp hp
  constructor
  · rw [List.cons_getElem_drop_succ, List.take_append_drop]
  · rw [List.modify_eq_take_cons_drop hk]

theorem openOn_modify (hp : polls[k]? = some p) (key : Endpoint) :
    openOn (polls.modify k f) key + (if !p.released && p.endpoint = key then 1 else 0)
      = openOn polls key + (if !(f p).released && (f p).endpoint = key then 1 else 0) := by
  obtain ⟨hpolls, hmodify⟩ := polls_split (f := f) hp
  rw [openOn, openOn, hmodify]
  conv_rhs => rw [hpolls]
  simp only [List.countP_append, List.countP_cons]
  omega

theorem mem_modify (hp : polls[k]? = some p) {q : Poll} (hq : q ∈ polls.modify k f) :
    q ∈ polls ∨ q = f p := by
  obtain ⟨hpolls, hmodify⟩ := polls_split (f := f) hp
  rw [hmodify, List.mem_append, List.mem_cons] at hq
  rcases hq with hq | rfl | hq
  · exact .inl (List.mem_of_mem_take hq)
  · exact .inr rfl
  · exact .inl (List.mem_of_mem_drop hq)

/-- A step that leaves the reader alone. -/
theorem Counted.modify (h : Counted pool polls) (hp : polls[k]? = some p)
    (hreleased : (f p).released = p.released) (hendpoint : (f p).endpoint = p.endpoint)
    (hentry : (f p).entry = p.entry) : Counted pool (polls.modify k f) := by
  intro key
  have hopen : openOn (polls.modify k f) key = openOn polls key := by
    have hcount := openOn_modify (f := f) hp key
    rw [hreleased, hendpoint] at hcount
    omega
  have hkey := h key
  cases hget : pool.entries.get? key with
  | none =>
      rw [hget] at hkey
      exact hopen.trans hkey
  | some entry =>
      rw [hget] at hkey
      obtain ⟨hrefs, hpos, hall⟩ := hkey
      refine ⟨hrefs.trans hopen.symm, hpos, fun q hq hq' hkey => ?_⟩
      rcases mem_modify hp hq with hq | rfl
      · exact hall q hq hq' hkey
      · rw [hentry]
        exact hall p (List.mem_of_getElem? hp) (hreleased ▸ hq') (hendpoint ▸ hkey)

/-- An open reader that is closed is released, and the assertion of the pool holds. -/
theorem Counted.release (h : Counted pool polls) (hp : polls[k]? = some p) (hopen : p.released = false) :
    ∃ pool', pool.release p.endpoint p.entry = some pool' ∧ Counted pool' (polls.modify k Poll.close) := by
  have hclosed : p.close.released = true ∧ p.close.endpoint = p.endpoint := by
    rw [Poll.close, hopen]
    exact ⟨rfl, rfl⟩
  have hkey := h p.endpoint
  have hself : openOn (polls.modify k Poll.close) p.endpoint + 1 = openOn polls p.endpoint := by
    have hcount := openOn_modify (f := Poll.close) hp p.endpoint
    rw [hclosed.1, hclosed.2, hopen] at hcount
    simpa using hcount
  have hother : ∀ key, key ≠ p.endpoint → openOn (polls.modify k Poll.close) key = openOn polls key := by
    intro key hne
    have hcount := openOn_modify (f := Poll.close) hp key
    rw [hclosed.1, hclosed.2] at hcount
    simpa [Ne.symm hne] using hcount
  have hmem : ∀ q ∈ polls.modify k Poll.close, q.released = false → q ∈ polls := by
    intro q hq hreleased
    refine (mem_modify hp hq).resolve_right ?_
    rintro rfl
    rw [hclosed.1] at hreleased
    cases hreleased
  cases hget : pool.entries.get? p.endpoint with
  | none =>
      rw [hget] at hkey
      omega
  | some entry =>
      rw [hget] at hkey
      obtain ⟨hrefs, hpos, hall⟩ := hkey
      -- An open poll holds the entry that the pool has for its endpoint.
      have hentry : p.entry = entry.identity := hall p (List.mem_of_getElem? hp) hopen rfl
      refine ⟨_, by rw [ModbusConnectionPool.release, hget]; exact if_pos ⟨hentry.symm, hpos⟩,
        fun key => ?_⟩
      dsimp only
      by_cases hkey : key = p.endpoint
      · subst hkey
        -- The last poll takes the entry away.
        by_cases hlast : entry.references = 1
        · rw [if_pos hlast, Dict.get?_erase, if_pos rfl]
          show openOn _ _ = 0
          omega
        · rw [if_neg hlast, Dict.get?_set_self]
          exact ⟨by dsimp only; omega, by dsimp only; omega,
            fun q hq hq' he => hall q (hmem q hq hq') hq' he⟩
      · have hsame : (if entry.references = 1 then pool.entries.erase p.endpoint
            else pool.entries.set p.endpoint { entry with references := entry.references - 1 }).get? key
            = pool.entries.get? key := by
          split
          · rw [Dict.get?_erase, if_neg hkey]
          · rw [Dict.get?_set, if_neg hkey]
        rw [hsame]
        have hold := h key
        cases hget' : pool.entries.get? key with
        | none =>
            rw [hget'] at hold
            exact (hother key hkey).trans hold
        | some entry' =>
            rw [hget'] at hold
            exact ⟨hold.1.trans (hother key hkey).symm, hold.2.1,
              fun q hq hq' he => hold.2.2 q (hmem q hq hq') hq' he⟩

/-- A reader that is made holds the entry of its endpoint. -/
theorem Counted.retain (h : Counted pool polls) {endpoint : Endpoint} {entry : ℕ}
    {pool' : ModbusConnectionPool} (hretain : pool.retain endpoint = some (entry, pool'))
    (hnew : p.released = false) (hendpoint : p.endpoint = endpoint) (hentry : p.entry = entry) :
    Counted pool' (polls ++ [p]) := by
  intro key
  have hcount : openOn (polls ++ [p]) key = openOn polls key + if endpoint = key then 1 else 0 := by
    rw [openOn, List.countP_append, List.countP_singleton, hnew, hendpoint]
    simp [openOn]
  have hold := h key
  have hkeep : key ≠ endpoint → pool'.entries.get? key = pool.entries.get? key →
      match pool'.entries.get? key with
      | some entry => entry.references = openOn (polls ++ [p]) key ∧ 0 < entry.references ∧
          ∀ q ∈ polls ++ [p], q.released = false → q.endpoint = key → q.entry = entry.identity
      | none => openOn (polls ++ [p]) key = 0 := by
    intro hkey hsame
    rw [hcount, if_neg (Ne.symm hkey), hsame]
    cases hget : pool.entries.get? key with
    | none =>
        rw [hget] at hold
        exact hold
    | some shared =>
        rw [hget] at hold
        refine ⟨hold.1, hold.2.1, fun q hq hq' he => ?_⟩
        rcases List.mem_append.mp hq with hq | hq
        · exact hold.2.2 q hq hq' he
        · rw [List.mem_singleton.mp hq, hendpoint] at he
          exact absurd he.symm hkey
  unfold ModbusConnectionPool.retain at hretain
  split at hretain
  · -- One reader more for the entry of the endpoint.
    rename_i shared hget
    cases hretain
    by_cases hkey : key = endpoint
    · subst hkey
      rw [hget] at hold
      simp only [Dict.get?_set_self]
      refine ⟨by rw [hcount, if_pos rfl, hold.1], by omega, fun q hq hq' he => ?_⟩
      rcases List.mem_append.mp hq with hq | hq
      · exact hold.2.2 q hq hq' he
      · rw [List.mem_singleton.mp hq]
        exact hentry
    · exact hkeep hkey (by rw [Dict.get?_set, if_neg hkey])
  · -- The first reader of the endpoint, with an entry of its own.
    rename_i hget
    split at hretain
    · cases hretain
    cases hretain
    by_cases hkey : key = endpoint
    · subst hkey
      rw [hget] at hold
      simp only [Dict.get?_set_self]
      refine ⟨by rw [hcount, if_pos rfl, hold], by omega, fun q hq hq' he => ?_⟩
      rcases List.mem_append.mp hq with hq | hq
      · have hpos : 0 < openOn polls key :=
          List.countP_pos_iff.mpr ⟨q, hq, by simp [hq', he]⟩
        omega
      · rw [List.mem_singleton.mp hq]
        exact hentry
    · exact hkeep hkey (by rw [Dict.get?_set, if_neg hkey])

end Pool

/-! ## What a runner looks like -/

/-- All polls of a runner but one are over. -/
def Over (w : Pollers) (r : Runner) (live : Option ℕ) : Prop :=
  ∀ k p, w.polls[k]? = some p → p.runner = r → some k ≠ live → p.phase = .ended ∧ p.released = true

/-- The shapes of a runner between two steps. -/
inductive Shape (w : Pollers) (r : Runner) : Prop
  | stopped (hstatus : w.status r ≠ .running) (hrunner : w.runners r = {}) (hover : Over w r none)
  | running {k : ℕ} {p : Poll} (hstatus : w.status r = .running)
      (hrunner : w.runners r = ⟨some k, some k, none⟩) (hp : w.polls[k]? = some p)
      (howner : p.runner = r) (hcancel : p.cancelRequested = false)
      (hended : p.phase = .ended ↔ p.released = true) (hover : Over w r (some k))
  | stopping {k : ℕ} {p : Poll} {cancelled : Bool} (hstatus : w.status r = .running)
      (hrunner : w.runners r = ⟨none, some k, some (k, cancelled)⟩) (hp : w.polls[k]? = some p)
      (howner : p.runner = r) (hopen : p.phase ≠ .ended → p.released = false)
      (hover : Over w r (some k))
  | cancelled {k : ℕ} {p : Poll} (hstatus : w.status r = .unknown)
      (hrunner : w.runners r = ⟨none, some k, none⟩) (hp : w.polls[k]? = some p)
      (howner : p.runner = r) (hended : p.phase = .ended) (hover : Over w r (some k))

/-- Nothing is lost: every runner has a shape, and the pool counts. -/
structure Sound (w : Pollers) : Prop where
  shape : ∀ r, Shape w r
  counted : Counted w.pool w.polls
  releases : ∀ p ∈ w.polls, p.releases = if p.released then 1 else 0
  asserted : w.asserted = false

/-- What a step does not touch keeps its shape. -/
theorem Shape.frame {w w' : Pollers} {r : Runner} (h : Shape w r)
    (hrunner : w'.runners r = w.runners r) (hstatus : w'.status r = w.status r)
    (hpolls : ∀ (k : ℕ) (p : Poll), p.runner = r → (w'.polls[k]? = some p ↔ w.polls[k]? = some p)) : Shape w' r := by
  have hover : ∀ {live}, Over w r live → Over w' r live :=
    fun ho k p hp hr => ho k p ((hpolls k p hr).mp hp) hr
  cases h with
  | stopped hs hx ho => exact .stopped (hstatus ▸ hs) (hrunner.trans hx) (hover ho)
  | running hs hx hp hr hc he ho =>
      exact .running (hstatus.trans hs) (hrunner.trans hx) ((hpolls _ _ hr).mpr hp) hr hc he (hover ho)
  | stopping hs hx hp hr he ho =>
      exact .stopping (hstatus.trans hs) (hrunner.trans hx) ((hpolls _ _ hr).mpr hp) hr he (hover ho)
  | cancelled hs hx hp hr he ho =>
      exact .cancelled (hstatus.trans hs) (hrunner.trans hx) ((hpolls _ _ hr).mpr hp) hr he (hover ho)

section Steps

variable {w w' : Pollers} {r : Runner} {k : ℕ} {p : Poll} {f : Poll → Poll}

theorem getElem?_modify_self (hp : w.polls[k]? = some p) : (w.polls.modify k f)[k]? = some (f p) := by
  rw [List.getElem?_modify_eq, hp]
  rfl

/-- A step for one poll of a runner. -/
theorem Sound.change (h : Sound w) (hp : w.polls[k]? = some p) (howner : p.runner = r)
    (hf : (f p).runner = r) (hpolls : w'.polls = w.polls.modify k f)
    (hrunners : ∀ x, x ≠ r → w'.runners x = w.runners x)
    (hstatus : ∀ x, x ≠ r → w'.status x = w.status x) (hshape : Shape w' r)
    (hcounted : Counted w'.pool w'.polls) (hreleases : (f p).releases = if (f p).released then 1 else 0)
    (hasserted : w'.asserted = false) : Sound w' where
  shape x := by
    by_cases hx : x = r
    · exact hx ▸ hshape
    · refine (h.shape x).frame (hrunners x hx) (hstatus x hx) fun j q hq => ?_
      rw [hpolls]
      by_cases hj : k = j
      · subst hj
        rw [getElem?_modify_self hp, hp]
        constructor
        · intro he
          cases he
          exact absurd (hq.symm.trans hf) hx
        · intro he
          cases he
          exact absurd (hq.symm.trans howner) hx
      · rw [List.getElem?_modify_ne _ _ hj]
  counted := hcounted
  releases q hq := by
    rw [hpolls] at hq
    rcases mem_modify hp hq with hq | rfl
    · exact h.releases q hq
    · exact hreleases
  asserted := hasserted

/-- The other polls of the runner stay over. -/
theorem Over.modify {live : Option ℕ} (h : Over w r (some k)) (hp : w.polls[k]? = some p)
    (hpolls : w'.polls = w.polls.modify k f)
    (hlive : live = some k ∨ (f p).phase = .ended ∧ (f p).released = true) : Over w' r live := by
  intro j q hq hr hj
  rw [hpolls] at hq
  by_cases hjk : k = j
  · subst hjk
    rw [getElem?_modify_self hp] at hq
    cases hq
    exact hlive.resolve_left (Ne.symm hj)
  · rw [List.getElem?_modify_ne _ _ hjk] at hq
    exact h j q hq hr fun he => hjk (Option.some.inj he).symm

/-- `reader.close()` for a reader that there is. -/
theorem close_spec (h : Counted w.pool w.polls) (hp : w.polls[k]? = some p) :
    ∃ pool, w.close k = { w.setPoll k Poll.close with pool } ∧
      Counted pool (w.polls.modify k Poll.close) := by
  rw [Pollers.close, hp]
  dsimp only
  by_cases hreleased : p.released = true
  · have hself : w.polls.modify k Poll.close = w.polls := by
      obtain ⟨hpolls, hmodify⟩ := polls_split (f := Poll.close) hp
      rw [hmodify, Poll.close, if_pos hreleased]
      exact hpolls.symm
    refine ⟨w.pool, ?_, by rw [hself]; exact h⟩
    rw [if_pos hreleased, Pollers.setPoll, hself]
  · obtain ⟨pool, hpool, hcounted⟩ := h.release hp (Bool.not_eq_true _ ▸ hreleased)
    exact ⟨pool, by rw [if_neg hreleased, hpool], hcounted⟩

theorem close_released (p : Poll) : p.close.released = true := by
  unfold Poll.close
  split
  · assumption
  · rfl

theorem close_runner (p : Poll) : p.close.runner = p.runner ∧ p.close.phase = p.phase := by
  unfold Poll.close
  split <;> exact ⟨rfl, rfl⟩

theorem close_releases (h : p.releases = if p.released then 1 else 0) :
    p.close.releases = if p.close.released then 1 else 0 := by
  rw [close_released]
  unfold Poll.close
  by_cases hreleased : p.released = true
  · rw [if_pos hreleased, h, if_pos hreleased]
    rfl
  · rw [if_neg hreleased]
    show p.releases + 1 = 1
    rw [h, if_neg hreleased]

/-! ## The calls -/

@[simp] theorem setStatus_status (w : Pollers) (r : Runner) (x : RunStatus) :
    (w.setStatus r x).status r = x := Function.update_self ..

/-- A change of what is known of a runner that is not running. -/
theorem Sound.idle (h : Sound w) (hrunner : w.runners r = {}) (hover : Over w r none) {x : RunStatus}
    (hx : x ≠ .running) : Sound (w.setStatus r x) where
  shape y := by
    by_cases hy : y = r
    · subst hy
      refine .stopped ?_ hrunner hover
      rwa [setStatus_status]
    · exact (h.shape y).frame rfl (Function.update_of_ne hy ..) fun _ _ _ => Iff.rfl
  counted := h.counted
  releases := h.releases
  asserted := h.asserted

/-- The end of a stop: the reader of the task that ended is released. -/
theorem Sound.dropped (h : Sound w) (hp : w.polls[k]? = some p) (howner : p.runner = r)
    (hended : p.phase = .ended) (hover : Over w r (some k)) :
    Sound (((w.setRunner r ⟨none, some k, none⟩).dropReader r).setStatus r .stopped) := by
  have hreader : ((w.setRunner r ⟨none, some k, none⟩).runners r) = ⟨none, some k, none⟩ :=
    Function.update_self ..
  have hcounted : Counted (w.setRunner r ⟨none, some k, none⟩).pool
      (w.setRunner r ⟨none, some k, none⟩).polls := h.counted
  obtain ⟨pool, hclose, hcounted⟩ := close_spec hcounted hp
  rw [Pollers.dropReader, hreader]
  dsimp only
  rw [hclose]
  refine h.change hp howner ((close_runner p).1.trans howner) rfl (fun x hx => ?_) (fun x hx => ?_)
    (.stopped ?_ ?_ ?_) hcounted (close_releases (h.releases p (List.mem_of_getElem? hp))) h.asserted
  · exact (Function.update_of_ne hx ..).trans (Function.update_of_ne hx ..)
  · exact Function.update_of_ne hx ..
  · rw [setStatus_status]
    decide
  · exact Function.update_self ..
  · exact hover.modify hp rfl (.inr ⟨(close_runner p).2.trans hended, close_released p⟩)

theorem newest (polls : List Poll) (p : Poll) : (polls ++ [p])[polls.length]? = some p := by
  rw [List.getElem?_append_right le_rfl, Nat.sub_self]
  rfl

/-- A runner without a task makes a reader and a task, or the pool is full. -/
theorem start_cases (hrunner : w.runners r = {}) (endpoint : Endpoint) :
    w.start endpoint r = w.setStatus r .unknown ∨ ∃ entry pool,
      w.pool.retain endpoint = some (entry, pool) ∧
      w.start endpoint r = (({ w with
        pool := pool, polls := w.polls ++ [{ runner := r, endpoint, entry }] } : Pollers).setRunner r
          ⟨some w.polls.length, some w.polls.length, none⟩).setStatus r .running := by
  rw [Pollers.start, hrunner, if_neg (by simp)]
  cases hretain : w.pool.retain endpoint with
  | none => exact .inl rfl
  | some made => exact .inr ⟨made.1, made.2, rfl, rfl⟩

/-- A runner that is known to be stopped holds nothing. -/
theorem Sound.at_rest (h : Sound w) (hstatus : w.status r = .stopped)
    (hidle : (w.runners r).stopping = none) : w.runners r = {} ∧ Over w r none := by
  cases h.shape r with
  | stopped hs hrunner hover => exact ⟨hrunner, hover⟩
  | running hs => rw [hstatus] at hs; cases hs
  | cancelled hs => rw [hstatus] at hs; cases hs
  | stopping hs hrunner => rw [hrunner] at hidle; cases hidle

theorem Sound.start (h : Sound w) (endpoint : Endpoint) (hstatus : w.status r = .stopped)
    (hidle : (w.runners r).stopping = none) : Sound (w.start endpoint r) := by
  obtain ⟨hrunner, hover⟩ := h.at_rest hstatus hidle
  rcases start_cases hrunner endpoint with hstart | ⟨entry, pool, hretain, hstart⟩
  · rw [hstart]
    exact h.idle hrunner hover (by decide)
  rw [hstart]
  have hnew := newest w.polls { runner := r, endpoint, entry }
  -- The polls that there were keep their numbers.
  have hold : ∀ j q, (w.polls ++ [({ runner := r, endpoint, entry } : Poll)])[j]? = some q →
      j ≠ w.polls.length → w.polls[j]? = some q := by
    intro j q hq hj
    have hlt : j < w.polls.length := by
      have := (List.getElem?_eq_some_iff.mp hq).1
      rw [List.length_append, List.length_singleton] at this
      omega
    rwa [List.getElem?_append_left hlt] at hq
  refine ⟨fun y => ?_, h.counted.retain hretain rfl rfl rfl, fun q hq => ?_, h.asserted⟩
  · by_cases hy : y = r
    · subst hy
      refine .running (Function.update_self ..) (Function.update_self ..) hnew rfl rfl (by simp)
        fun j q hq hr hj => ?_
      exact hover j q (hold j q hq fun he => hj (he ▸ rfl)) hr nofun
    · refine (h.shape y).frame (Function.update_of_ne hy ..) (Function.update_of_ne hy ..)
        fun j q hq => ?_
      constructor
      · intro he
        refine hold j q he ?_
        rintro rfl
        cases hnew.symm.trans he
        exact hy hq.symm
      · exact fun he => (List.getElem?_append_left (List.getElem?_eq_some_iff.mp he).1).trans he
  · rcases List.mem_append.mp hq with hq | hq
    · exact h.releases q hq
    · rw [List.mem_singleton.mp hq]
      rfl

/-- A cancellation of the task that a `stop` awaits. -/
theorem Sound.await (h : Sound w) (hp : w.polls[k]? = some p) (howner : p.runner = r)
    (hopen : p.phase ≠ .ended → p.released = false) (hover : Over w r (some k))
    (hstatus : w.status r = .running) (cancelled : Bool) :
    Sound ((w.cancel k).setRunner r ⟨none, some k, some (k, cancelled)⟩) := by
  have hcancel : p.cancel.runner = p.runner ∧ p.cancel.phase = p.phase ∧ p.cancel.released = p.released ∧
      p.cancel.releases = p.releases ∧ p.cancel.endpoint = p.endpoint ∧ p.cancel.entry = p.entry := by
    unfold Poll.cancel
    split <;> exact ⟨rfl, rfl, rfl, rfl, rfl, rfl⟩
  obtain ⟨hrunner, hphase, hreleased, hreleases, hendpoint, hentry⟩ := hcancel
  refine h.change hp howner (hrunner.trans howner) rfl (fun x hx => Function.update_of_ne hx ..)
    (fun _ _ => rfl) (.stopping hstatus (Function.update_self ..) (getElem?_modify_self hp)
      (hrunner.trans howner) ?_ (hover.modify hp rfl (.inl rfl)))
    (h.counted.modify hp hreleased hendpoint hentry) ?_ h.asserted
  · rw [hphase, hreleased]
    exact hopen
  · rw [hreleases, hreleased]
    exact h.releases p (List.mem_of_getElem? hp)

theorem setRunner_self {x : ModbusRunner} (h : w.runners r = x) : w.setRunner r x = w := by
  rw [Pollers.setRunner, ← h, Function.update_eq_self]

theorem Sound.stop (h : Sound w) (hidle : (w.runners r).stopping = none) : Sound (w.stop r) := by
  cases h.shape r with
  | stopped hs hrunner hover =>
      rw [Pollers.stop, hrunner, Pollers.dropReader, hrunner]
      exact h.idle hrunner hover (by decide)
  | running hs hrunner hp howner hcancel hended hover =>
      rw [Pollers.stop, hrunner]
      refine h.await hp howner (fun hne => ?_) hover hs false
      exact Bool.not_eq_true _ ▸ fun he => hne (hended.mpr he)
  | stopping hs hrunner => rw [hrunner] at hidle; cases hidle
  | cancelled hs hrunner hp howner hended hover =>
      have hdropped := h.dropped hp howner hended hover
      rw [setRunner_self hrunner] at hdropped
      rw [Pollers.stop, hrunner]
      exact hdropped

theorem done_iff (hp : w.polls[k]? = some p) : w.done k = true ↔ p.phase = .ended := by
  rw [Pollers.done, hp, Option.all_some, decide_eq_true_eq]

theorem Sound.timeout (h : Sound w) {cancelled : Bool}
    (hstop : (w.runners r).stopping = some (k, cancelled)) :
    Sound ((w.cancel k).setRunner r { w.runners r with stopping := some (k, true) }) := by
  cases h.shape r with
  | stopped hs hrunner => rw [hrunner] at hstop; cases hstop
  | running hs hrunner => rw [hrunner] at hstop; cases hstop
  | cancelled hs hrunner => rw [hrunner] at hstop; cases hstop
  | stopping hs hrunner hp howner hopen hover =>
      rw [hrunner] at hstop ⊢
      cases hstop
      exact h.await hp howner hopen hover hs true

theorem Sound.stopped (h : Sound w) {cancelled : Bool}
    (hstop : (w.runners r).stopping = some (k, cancelled)) (hdone : w.done k = true) :
    Sound (w.stopped r cancelled) := by
  cases h.shape r with
  | stopped hs hrunner => rw [hrunner] at hstop; cases hstop
  | running hs hrunner => rw [hrunner] at hstop; cases hstop
  | cancelled hs hrunner => rw [hrunner] at hstop; cases hstop
  | stopping hs hrunner hp howner hopen hover =>
      rw [hrunner] at hstop
      cases hstop
      have hended := (done_iff hp).mp hdone
      rw [Pollers.stopped, hrunner]
      cases cancelled with
      | false => exact h.dropped hp howner hended hover
      | true =>
          refine ⟨fun y => ?_, h.counted, h.releases, h.asserted⟩
          by_cases hy : y = r
          · subst hy
            exact .cancelled (Function.update_self ..) (Function.update_self ..) hp howner hended hover
          · exact (h.shape y).frame (Function.update_of_ne hy ..) (Function.update_of_ne hy ..)
              fun _ _ _ => Iff.rfl

/-! ## The tasks -/

/-- A task that has not ended is the one that its runner polls with, or stops. -/
theorem Sound.live (h : Sound w) (hp : w.polls[k]? = some p) (hlive : p.phase ≠ .ended) :
    Over w p.runner (some k) ∧ w.status p.runner = .running ∧ p.released = false ∧
      (w.runners p.runner = ⟨some k, some k, none⟩ ∧ p.cancelRequested = false ∨
        ∃ cancelled, w.runners p.runner = ⟨none, some k, some (k, cancelled)⟩) := by
  have hsame : ∀ {j q}, w.polls[j]? = some q → Over w p.runner (some j) → j = k := by
    intro j q _ hover
    by_contra hne
    exact hlive (hover k p hp rfl fun he => hne (Option.some.inj he).symm).1
  cases h.shape p.runner with
  | stopped hs hrunner hover => exact absurd (hover k p hp rfl nofun).1 hlive
  | running hs hrunner hq howner hcancel hended hover =>
      obtain rfl := hsame hq hover
      cases hp.symm.trans hq
      exact ⟨hover, hs, Bool.not_eq_true _ ▸ fun he => hlive (hended.mpr he), .inl ⟨hrunner, hcancel⟩⟩
  | stopping hs hrunner hq howner hopen hover =>
      obtain rfl := hsame hq hover
      cases hp.symm.trans hq
      exact ⟨hover, hs, hopen hlive, .inr ⟨_, hrunner⟩⟩
  | cancelled hs hrunner hq howner hended hover =>
      obtain rfl := hsame hq hover
      cases hp.symm.trans hq
      exact absurd hended hlive

theorem Sound.resume (h : Sound w) {raises : Bool} (hdone : w.done k = false) :
    Sound (w.setPoll k (Poll.resume raises)) := by
  cases hp : w.polls[k]? with
  | none => rw [Pollers.done, hp] at hdone; cases hdone
  | some p =>
      have hlive : p.phase ≠ .ended := fun he => by
        rw [(done_iff hp).mpr he] at hdone
        cases hdone
      obtain ⟨hover, hstatus, hopen, hrunner⟩ := h.live hp hlive
      have hresume : (p.resume raises).runner = p.runner ∧ (p.resume raises).released = p.released ∧
          (p.resume raises).releases = p.releases ∧ (p.resume raises).endpoint = p.endpoint ∧
          (p.resume raises).entry = p.entry ∧ (p.resume raises).cancelRequested = false ∧
          (p.cancelRequested = false → (p.resume raises).phase ≠ .ended) := by
        unfold Poll.resume
        cases hphase : p.phase with
        | created => exact ⟨rfl, rfl, rfl, rfl, rfl, rfl, fun hc => by rw [hc]; exact nofun⟩
        | polling =>
            refine ⟨rfl, rfl, rfl, rfl, rfl, rfl, fun _ => ?_⟩
            dsimp only
            split <;> exact nofun
        | unwinding => exact ⟨rfl, rfl, rfl, rfl, rfl, rfl, fun hc => by rw [hc]; exact nofun⟩
        | ended => exact absurd hphase hlive
      obtain ⟨howner, hreleased, hreleases, hendpoint, hentry, hcancel, hphase⟩ := hresume
      have hself := getElem?_modify_self (f := Poll.resume raises) hp
      have hrest : Over (w.setPoll k (Poll.resume raises)) p.runner (some k) :=
        hover.modify hp rfl (.inl rfl)
      refine h.change hp rfl howner rfl (fun _ _ => rfl) (fun _ _ => rfl) ?_
        (h.counted.modify hp hreleased hendpoint hentry) ?_ h.asserted
      · rcases hrunner with ⟨hrunner, hquiet⟩ | ⟨cancelled, hrunner⟩
        · refine .running hstatus hrunner hself howner hcancel ?_ hrest
          rw [hreleased, hopen]
          exact iff_of_false (hphase hquiet) nofun
        · exact .stopping hstatus hrunner hself howner (fun _ => hreleased.trans hopen) hrest
      · rw [hreleases, hreleased]
        exact h.releases p (List.mem_of_getElem? hp)

theorem Sound.cleanup (h : Sound w) (hp : w.polls[k]? = some p) (hphase : p.phase = .unwinding) :
    (w.runners p.runner).reader = some k ∧ Sound (w.cleanup k p.runner) := by
  have hlive : p.phase ≠ .ended := by
    rw [hphase]
    decide
  obtain ⟨hover, hstatus, hopen, hrunner⟩ := h.live hp hlive
  have hreader : (w.runners p.runner).reader = some k := by
    rcases hrunner with ⟨hrunner, -⟩ | ⟨_, hrunner⟩ <;> rw [hrunner]
  refine ⟨hreader, ?_⟩
  obtain ⟨pool, hclose, hcounted⟩ := close_spec h.counted hp
  have hself := getElem?_modify_self (f := Poll.close) hp
  rw [Pollers.cleanup, hreader]
  dsimp only
  rw [hclose]
  have hpolls : (w.polls.modify k Poll.close).modify k Poll.finish
      = w.polls.modify k (Poll.finish ∘ Poll.close) := List.modify_modify_eq ..
  have hdone : ((Poll.finish ∘ Poll.close) p).released = true := close_released p
  have hlast : (w.polls.modify k (Poll.finish ∘ Poll.close))[k]? = some ((Poll.finish ∘ Poll.close) p) :=
    getElem?_modify_self hp
  rw [← hpolls] at hlast
  refine h.change (f := Poll.finish ∘ Poll.close) hp rfl (close_runner p).1 hpolls (fun _ _ => rfl)
    (fun _ _ => rfl) ?_ (hcounted.modify hself rfl rfl rfl)
    (close_releases (h.releases p (List.mem_of_getElem? hp))) h.asserted
  rcases hrunner with ⟨hrunner, hquiet⟩ | ⟨cancelled, hrunner⟩
  · have hcancel : ((Poll.finish ∘ Poll.close) p).cancelRequested = false := by
      rw [Function.comp_apply, Poll.close, hopen]
      exact hquiet
    exact .running hstatus hrunner hlast (close_runner p).1 hcancel (iff_of_true rfl hdone)
      (hover.modify hp hpolls (.inl rfl))
  · exact .stopping hstatus hrunner hlast (close_runner p).1 (fun hne => absurd rfl hne)
      (hover.modify hp hpolls (.inl rfl))

theorem Sound.step {endpoints : Runner → Endpoint} {ev : PollEvent} (h : Sound w)
    (hstep : w.step endpoints ev = some w') : Sound w' := by
  cases ev with
  | start r =>
      rw [Pollers.step] at hstep
      split at hstep
      · rename_i hready
        cases hstep
        exact h.start _ hready.2 hready.1
      · cases hstep
  | stop r =>
      rw [Pollers.step] at hstep
      split at hstep
      · rename_i hidle
        cases hstep
        exact h.stop hidle
      · cases hstep
  | timeout r =>
      rw [Pollers.step] at hstep
      split at hstep
      · rename_i hstop
        cases hstep
        exact h.timeout hstop
      · cases hstep
  | stopped r =>
      rw [Pollers.step] at hstep
      split at hstep
      · rename_i hstop
        split at hstep
        · rename_i hdone
          cases hstep
          exact h.stopped hstop hdone
        · cases hstep
      · cases hstep
  | resume k raises =>
      rw [Pollers.step] at hstep
      split at hstep
      · cases hstep
      · rename_i hdone
        cases hstep
        exact h.resume (Bool.not_eq_true _ ▸ hdone)
  | cleanup k =>
      rw [Pollers.step] at hstep
      split at hstep
      · rename_i hp
        split at hstep
        · rename_i hphase
          cases hstep
          exact (h.cleanup hp hphase.1).2
        · cases hstep
      · cases hstep

/-! ## Runs -/

theorem sound_new (capacity : ℕ) : Sound { pool := { capacity } } where
  shape r := .stopped nofun rfl fun k p hp => by cases hp
  counted key := rfl
  releases p hp := by cases hp
  asserted := rfl

theorem Pollers.Reachable.sound {endpoints : Runner → Endpoint} {capacity : ℕ}
    (h : Pollers.Reachable endpoints capacity w) : Sound w := by
  induction h with
  | new => exact sound_new capacity
  | step _ hstep ih => exact ih.step hstep

end Steps

/-- What a step from `w` to `w'` says of the poll tasks and the readers. -/
structure PollsOwned (w : Pollers) (ev : PollEvent) (w' : Pollers) : Prop where
  /-- When a runner is started, no task of it is unfinished. -/
  alone : ∀ r, ev = .start r → ∀ p ∈ w.polls, p.runner = r → p.phase = .ended
  /-- So one task of a runner is unfinished at a time. -/
  single : ∀ (j k : ℕ) (p q : Poll), w'.polls[j]? = some p → w'.polls[k]? = some q →
    p.runner = q.runner → p.phase ≠ .ended → q.phase ≠ .ended → j = k
  /-- The clean-up of a task closes the reader that was made with it. -/
  own : ∀ (k : ℕ) (p : Poll), ev = .cleanup k → w.polls[k]? = some p → (w.runners p.runner).reader = some k
  /-- A reader is released once at most, and the pool finds it. -/
  once : w'.asserted = false ∧ ∀ p ∈ w'.polls, p.releases ≤ 1
  /-- It is released when its task has ended, unless a `stop` of the runner is at its
      await or was cancelled there. -/
  released : ∀ p ∈ w'.polls, p.phase = .ended → (w'.runners p.runner).stopping = none →
    w'.status p.runner ≠ .unknown → p.releases = 1
  /-- After a start that returned, the current reader is open. -/
  started : ∀ r, ev = .start r → w'.status r = .running → ∃ (k : ℕ) (p : Poll),
    w'.runners r = ⟨some k, some k, none⟩ ∧ w'.polls[k]? = some p ∧ p.phase ≠ .ended ∧
      p.released = false

/-- Each Modbus runner owns one poll task and the reader that was made with it, in every
    order of calls, timeouts and steps of the tasks. -/
theorem polls_owned {endpoints : Runner → Endpoint} {capacity : ℕ} {w w' : Pollers} {ev : PollEvent}
    (h : Pollers.Reachable endpoints capacity w) (hstep : w.step endpoints ev = some w') :
    PollsOwned w ev w' := by
  have hsound := h.sound
  have hnext := hsound.step hstep
  have hstart : ∀ r, ev = .start r → (w.runners r).stopping = none ∧ w.status r = .stopped ∧
      w' = w.start (endpoints r) r := by
    rintro r rfl
    rw [Pollers.step] at hstep
    split at hstep
    · rename_i hready
      cases hstep
      exact ⟨hready.1, hready.2, rfl⟩
    · cases hstep
  refine ⟨?_, ?_, ?_, ?_, ?_, ?_⟩
  · intro r hev p hp hr
    obtain ⟨hidle, hstatus, -⟩ := hstart r hev
    -- A poll that has not ended keeps its runner from being `STOPPED`.
    by_contra hlive
    obtain ⟨k, hk, rfl⟩ := List.mem_iff_getElem.mp hp
    obtain ⟨-, hrunning, -⟩ := hsound.live (List.getElem?_eq_getElem hk) hlive
    rw [hr, hstatus] at hrunning
    cases hrunning
  · intro j k p q hp hq hpq hp' hq'
    obtain ⟨hother, -⟩ := hnext.live hp hp'
    by_contra hne
    exact hq' (hother k q hq hpq.symm fun he => hne (Option.some.inj he).symm).1
  · rintro k p rfl hp
    rw [Pollers.step, hp] at hstep
    dsimp only at hstep
    split at hstep
    · rename_i hphase
      exact (hsound.cleanup hp hphase.1).1
    · cases hstep
  · refine ⟨hnext.asserted, fun p hp => ?_⟩
    rw [hnext.releases p hp]
    split <;> omega
  · intro p hp hended hidle hknown
    have hreleased : p.released = true := by
      obtain ⟨k, hk, rfl⟩ := List.mem_iff_getElem.mp hp
      have hp := List.getElem?_eq_getElem hk
      cases hnext.shape (w'.polls[k]).runner with
      | stopped hs hrunner hover => exact (hover k _ hp rfl nofun).2
      | running hs hrunner hq howner hcancel hiff hover =>
          rename_i j q
          by_cases hj : j = k
          · subst hj
            cases hp.symm.trans hq
            exact hiff.mp hended
          · exact (hover k _ hp rfl fun he => hj (Option.some.inj he).symm).2
      | stopping hs hrunner => rw [hrunner] at hidle; cases hidle
      | cancelled hs => exact absurd hs hknown
    rw [hnext.releases p hp, if_pos hreleased]
  · intro r hev hrunning
    obtain ⟨hidle, hstatus, rfl⟩ := hstart r hev
    rcases start_cases (hsound.at_rest hstatus hidle).1 (endpoints r) with hstart | ⟨_, _, -, hstart⟩
    · rw [hstart, setStatus_status] at hrunning
      cases hrunning
    · rw [hstart]
      exact ⟨_, _, Function.update_self .., newest _ _, nofun, rfl⟩

/-! ## The runtime starts runners that are stopped -/

/-- A start found its runner stopped. -/
def RunnerEvent.FromStopped (ev : RunnerEvent) : Prop :=
  ev.op = .start → ev.status ev.runner = .stopped

def StartsStopped (s : DeviceRuntime) : Prop := ∀ ev ∈ s.log, ev.FromStopped

section Starts

open Effect Effect.Prog

variable {inp : RuntimeInputs} {s : DeviceRuntime} {t : RuntimeTransition} {x : Runner}

theorem StartsStopped.note {op : RunnerOp} {returned : Bool} (h : StartsStopped s)
    (hop : op = .start → s.status x = .stopped) : StartsStopped (s.note op x returned) := by
  intro ev hev
  rcases List.mem_append.mp hev with hev | hev
  · exact h ev hev
  · rw [List.mem_singleton.mp hev]
    exact hop

/-- The candidates of a transition that has not begun are stopped. -/
theorem Switching.fresh (h : Switching t s) (hstarted : t.started = []) :
    ∀ x ∈ t.arriving, s.status x = .stopped := by
  intro x hx
  by_contra hmay
  rcases h.only x hmay with hold | hold
  · exact h.not_old hx hold
  · rw [hstarted] at hold
    cases hold

theorem Switching.arriving_nodup (h : Switching t s) : t.arriving.Nodup :=
  h.proposedDistinct.sublist (List.filter_sublist.map _)

theorem activate_startsStopped (h : Switching t s) (hstarted : t.started = [])
    (hlog : StartsStopped s) : wp (activate inp) (fun _ => StartsStopped) (fun _ => StartsStopped) s := by
  refine wp_onTransition h.held ?_
  rw [wp_bind]
  refine (wp_each (I := fun s' => (∀ x ∈ t.arriving, s'.status x = .stopped) ∧ StartsStopped s') ?_
    ⟨h.fresh hstarted, hlog⟩).mono ?_ fun _ _ h => h
  · rintro r hr s' ⟨hfresh, hlog⟩
    rw [wp_bind, wp_modify]
    refine wp_operate ⟨fun x hx => ?_, hlog.note nofun⟩ fun _ => hlog.note nofun
    have hne : x ≠ r := fun he => h.not_old hx (old_of_leaving (he ▸ hr))
    rw [status_note_ne hne]
    exact hfresh x hx
  rintro _ s' ⟨hfresh, hlog⟩
  rw [wp_bind]
  refine (wp_each_done (I := fun done s' => (∀ x ∈ t.arriving, x ∉ done → s'.status x = .stopped) ∧
    StartsStopped s') ?_ ⟨fun x hx _ => hfresh x hx, hlog⟩).mono ?_ fun _ _ h => h
  · rintro done r rest hsplit s' ⟨hfresh, hlog⟩
    have hdistinct := h.arriving_nodup
    rw [hsplit, List.nodup_append] at hdistinct
    have hr : r ∉ done := fun hmem => hdistinct.2.2 r hmem r (.head _) rfl
    have hstopped : s'.status r = .stopped :=
      hfresh r (hsplit ▸ List.mem_append_right done List.mem_cons_self) hr
    rw [wp_bind, wp_modify]
    refine wp_operate ⟨fun x hx hnew => ?_, hlog.note fun _ => hstopped⟩
      fun _ => hlog.note fun _ => hstopped
    rw [List.mem_append, List.mem_singleton, not_or] at hnew
    rw [status_note_ne hnew.2]
    exact hfresh x hx hnew.1
  · rintro _ s' ⟨-, hlog⟩
    exact hlog

/-- A rollback starts a runner right after a stop of it that returned. -/
theorem rollback_startsStopped (h : Switching t s) (hlog : StartsStopped s) :
    wp (rollback inp) (fun _ => StartsStopped) (fun _ => StartsStopped) s := by
  refine wp_onTransition h.held ?_
  rw [wp_bind]
  refine (wp_each (I := StartsStopped) (fun r _ s' hlog => ?_) hlog).mono ?_ fun _ _ h => h
  · exact wp_operate (hlog.note nofun) fun _ => hlog.note nofun
  intro _ s' hlog
  rw [wp_bind]
  refine (wp_each (I := StartsStopped) (fun r _ s' hlog => ?_) hlog).mono ?_ fun _ _ h => h
  · rw [wp_bind]
    refine wp_operate ?_ fun _ => hlog.note nofun
    have hstopped : (s'.note .stop r true).status r = .stopped := status_note_self
    have hlog' : StartsStopped (s'.note .stop r true) := hlog.note nofun
    exact wp_operate (hlog'.note fun _ => hstopped) fun _ => hlog'.note fun _ => hstopped
  intro _ s' hlog
  rw [wp_bind]
  refine (wp_each (I := StartsStopped) (fun r _ s' hlog => ?_) hlog).mono ?_ fun _ _ h => h
  · exact hlog
  · exact fun _ _ hlog => hlog

/-- A preparation starts nothing. -/
theorem prepare_startsStopped (snapshot : ConfigSnapshot) (hlog : StartsStopped s) :
    wp (prepare inp snapshot) (fun _ => StartsStopped) (fun _ => StartsStopped) s := by
  unfold prepare
  rw [wp_bind, wp_get, wp_bind, wp_check]
  refine ⟨fun _ => ?_, fun _ => hlog⟩
  rw [wp_bind, wp_modify, wp_bind, wp_result]
  refine ⟨fun proposed _ => ?_, fun _ _ => hlog⟩
  rw [wp_bind, wp_check]
  exact ⟨fun _ => hlog, fun _ => hlog⟩

/-- Nor does a shutdown. -/
theorem stopEach_startsStopped {rs : List Runner} (hlog : StartsStopped s) :
    wp (stopEach inp rs) (fun _ => StartsStopped) (fun _ => StartsStopped) s := by
  induction rs generalizing s with
  | nil => exact hlog
  | cons r rest ih =>
      have hnote : ∀ returned, StartsStopped (s.note .stop r returned) := fun _ => hlog.note nofun
      rw [stopEach, wp_bind, wp_attempt, wp_bind]
      refine wp_operate ?_ fun e => ?_
      · rw [wp_bind, wp_modify, wp_pure, wp_bind]
        have hlog' : StartsStopped ((s.note .stop r true).unmanage r) := hnote true
        exact (ih hlog').mono (fun _ _ h => h) fun _ _ h => h
      · cases e with
        | cancelled => exact hnote false
        | failed | timedOut =>
            refine (wp_bind _ _).mpr ?_
            exact (ih (hnote false)).mono (fun _ _ h => h) fun _ _ h => h

theorem shutdown_startsStopped (hlog : StartsStopped s) :
    wp (shutdown inp) (fun _ => StartsStopped) (fun _ => StartsStopped) s := by
  unfold shutdown
  rw [wp_bind, wp_gets, wp_bind]
  refine (stopEach_startsStopped hlog).mono (fun failures s' hlog => ?_) fun _ _ h => h
  rw [wp_bind, wp_check]
  exact ⟨fun _ => hlog, fun _ => hlog⟩

/-- In every run of the lifecycle, a start finds its runner stopped: its last operation
    was a stop that returned, or it had none. -/
theorem starts_stopped {p : Phase} (h : p.Holds s) (hlog : StartsStopped s) {calls : List RuntimeCall}
    (horder : InOrder p (trace (RuntimeCall.exec inp) s calls) = true) :
    ∀ st ∈ trace (RuntimeCall.exec inp) s calls, StartsStopped st.after := by
  induction calls generalizing p s with
  | nil => intro st hst; cases hst
  | cons c cs ih =>
      rw [trace, InOrder, Bool.and_eq_true] at horder
      obtain ⟨-, hnext⟩ : Proceeds inp p (perform (RuntimeCall.exec inp) s c) :=
        step_proceeds h horder.1
      have hstarts : wp (RuntimeCall.exec inp c) (fun _ => StartsStopped) (fun _ => StartsStopped) s := by
        cases c with
        | prepare snapshot => exact prepare_startsStopped snapshot hlog
        | activate =>
            cases p with
            | prepared =>
                obtain ⟨t, ht, -, hstarted⟩ := h
                exact activate_startsStopped ht hstarted hlog
            | idle | activated | broken | stuck => cases horder.1
        | rollback =>
            cases p with
            | activated =>
                obtain ⟨t, ht⟩ := h
                exact rollback_startsStopped ht.toSwitching hlog
            | broken =>
                obtain ⟨t, ht⟩ := h
                exact rollback_startsStopped ht hlog
            | idle | prepared | stuck => cases horder.1
        | publish =>
            cases p with
            | activated =>
                obtain ⟨t, ht⟩ := h
                refine (wp_publish ht).mono (fun _ s' hs' => ?_) fun _ _ he => he.elim
                rw [StartsStopped, hs'.2.2.2]
                exact hlog
            | idle | prepared | broken | stuck => cases horder.1
        | shutdown => exact shutdown_startsStopped hlog
      have hafter : StartsStopped (perform (RuntimeCall.exec inp) s c).after := by
        obtain ⟨hok, herror⟩ := perform_spec hstarts
        cases hresult : (perform (RuntimeCall.exec inp) s c).result with
        | ok => exact hok _ hresult
        | error e => exact herror e hresult
      intro st hst
      rcases List.mem_cons.mp hst with rfl | hst
      · exact hafter
      · exact ih hnext hafter horder.2 st hst

end Starts

/-! ## One runner -/

section Concrete

/-- Any steps in a row. -/
def Pollers.run (endpoints : Runner → Endpoint) : Pollers → List PollEvent → Option Pollers
  | w, [] => some w
  | w, ev :: rest => (w.step endpoints ev).bind fun w => w.run endpoints rest

theorem Pollers.Reachable.run {endpoints : Runner → Endpoint} {capacity : ℕ} {w w' : Pollers}
    {events : List PollEvent} (h : Pollers.Reachable endpoints capacity w)
    (hrun : w.run endpoints events = some w') : Pollers.Reachable endpoints capacity w' := by
  induction events generalizing w with
  | nil => exact Option.some.inj hrun ▸ h
  | cons ev rest ih =>
      obtain ⟨w₁, hstep, hrest⟩ := Option.bind_eq_some_iff.mp hrun
      exact ih (h.step hstep) hrest

/-- Every device is at one endpoint. -/
def oneEndpoint : Runner → Endpoint := fun _ => (py "h", 502)

def meter : Runner := ⟨0, 0⟩

/-- The runner is stopped while it polls; the `stop` times out when the task is in its
    `finally` already. -/
def lateTimeout : List PollEvent :=
  [.start meter, .resume 0 false, .stop meter, .resume 0 false, .timeout meter, .resume 0 true,
    .stopped meter]

/-- What the runs say of the runner. -/
def Pollers.shows (w : Pollers) : List Poll × ModbusRunner × RunStatus :=
  (w.polls, w.runners meter, w.status meter)

theorem polls_owned_meter : ∃ w w', Pollers.Reachable oneEndpoint 50 w ∧
    w.step oneEndpoint (.start meter) = some w' ∧ PollsOwned w (.start meter) w' := by
  obtain ⟨w', hstep⟩ : ∃ w', Pollers.step oneEndpoint { pool := { capacity := 50 } } (.start meter)
      = some w' := ⟨_, rfl⟩
  exact ⟨_, w', .new, hstep, polls_owned .new hstep⟩

/-- The task has ended, and no `stop` is at its await any more; the reader was not
    released. -/
theorem reader_outlives_task : ∃ w, Pollers.Reachable oneEndpoint 50 w ∧
    (w.runners meter).stopping = none ∧
    ∃ p ∈ w.polls, p.runner = meter ∧ p.phase = .ended ∧ p.releases = 0 := by
  have hshows : (Pollers.run oneEndpoint { pool := { capacity := 50 } } lateTimeout).map Pollers.shows
      = some ([⟨meter, (py "h", 502), 0, false, 0, .ended, false⟩], ⟨none, some 0, none⟩, .unknown) := by
    decide +kernel
  obtain ⟨w, hrun, hw⟩ := Option.map_eq_some_iff.mp hshows
  simp only [Pollers.shows, Prod.mk.injEq] at hw
  obtain ⟨hpolls, hrunner, -⟩ := hw
  refine ⟨w, Pollers.Reachable.new.run hrun, by rw [hrunner], ?_⟩
  rw [hpolls]
  exact ⟨_, .head _, rfl, rfl, rfl⟩

end Concrete

end PlcnextIot.Devices
