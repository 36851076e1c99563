/-
  PlcnextIot.Provisioning.Supervisor

  `_supervise` and `_watch_reload` of `tools/appliance.py`: an agent runs with the record
  that was saved last, and is restarted when another one is saved.

  A task runs alone from one of its awaits to the next, and a saved revision is one
  step.  The supervisor awaits a sleep while the record is unusable, the run of the
  agent, the end of the watcher after a run, and a sleep before the next run.  The
  watcher awaits a part of a second.  Steps that are not possible in a state change
  nothing.  Whether a record is usable is found out anew at each start: writing the CA
  file may fail.
-/

import PlcnextIot.Effect.Run
import Mathlib.Algebra.Order.Ring.Int

namespace PlcnextIot.Provisioning

open PlcnextIot.Effect PlcnextIot.Effect.Prog

/-! ## State -/

/-- A record with the value that `change_seq` has with it. -/
structure Revision (V : Type) where
  value : V
  seq : ℤ
  deriving DecidableEq, Repr

/-- Where `_supervise` is. -/
inductive SupervisorPlace where
  /-- It waits for a first record. -/
  | ready
  | blocked (seq : ℤ)
  | running (seq : ℤ)
  /-- The run has ended, and its watcher is being cancelled. -/
  | ended (seq code : ℤ)
  | settling (code : ℤ)
  | returned (code : ℤ)
  /-- The run has raised. -/
  | raised
  deriving DecidableEq, Repr

/-- The server and its supervisor.  `saved` and `started` are no part of the program: they
    list the revisions, and those with which a run was started. -/
structure Appliance (V : Type) where
  /-- `server.value` -/
  value : Option V
  changeSeq : ℤ := 0
  appliedSeq : ℤ := 0
  stop : Bool := false
  place : SupervisorPlace := .ready
  /-- The watcher of the run has not ended. -/
  watching : Bool := false
  /-- `run_stop` -/
  runStop : Bool := false
  saved : List (Revision V) := []
  started : List (Revision V) := []

variable {V : Type}

/-- `SetupServer(store, value)` -/
def Appliance.new (value : Option V) : Appliance V :=
  { value, saved := value.toList.map fun v => ⟨v, 0⟩ }

/-! ## Steps -/

/-- A record is saved, as `route` does it: `change_seq` counts only a record that differs
    from the one in force. -/
def Appliance.save [DecidableEq V] (a : Appliance V) (v : V) : Appliance V :=
  match a.value with
  -- The first record is what the supervisor waits for, and it is not counted.
  | none => { a with value := some v, saved := a.saved ++ [⟨v, a.changeSeq⟩] }
  | some existing =>
    if v = existing then a
    else { a with
      value := some v, changeSeq := a.changeSeq + 1, saved := a.saved ++ [⟨v, a.changeSeq + 1⟩] }

/-- The head of the supervisor's loop: an agent is started with the record in force, unless
    the record is found to be unusable. -/
def Appliance.head (a : Appliance V) (usable : Bool) : Appliance V :=
  match a.value with
  | none => { a with place := .returned 1 }
  | some v =>
    if usable then { a with
      appliedSeq := a.changeSeq, place := .running a.changeSeq, watching := true, runStop := false
      started := a.started ++ [⟨v, a.changeSeq⟩] }
    else if a.stop then { a with place := .returned 0 }
    else { a with place := .blocked a.changeSeq }

/-- A sleep of the supervisor is over. -/
def Appliance.wake (a : Appliance V) (usable : Bool) : Appliance V :=
  match a.place with
  | .blocked seq =>
    if a.stop then { a with place := .returned 0 }
    -- The record that was unusable is still in force.
    else if a.changeSeq = seq then a
    else a.head usable
  | .settling code => if a.stop then { a with place := .returned code } else a.head usable
  | _ => a

/-- The watcher looks whether the run is to end. -/
def Appliance.poll (a : Appliance V) : Appliance V :=
  match a.place with
  | .running seq =>
    if a.watching = true ∧ (a.stop = true ∨ a.changeSeq ≠ seq) then
      { a with runStop := true, watching := false }
    else a
  | _ => a

/-- The run of the agent is over. -/
def Appliance.runEnds (a : Appliance V) (code : ℤ) : Appliance V :=
  match a.place with
  | .running seq => { a with place := .ended seq code }
  | _ => a

def Appliance.runRaises (a : Appliance V) : Appliance V :=
  match a.place with
  | .running _ => { a with place := .raised, watching := false }
  | _ => a

/-- The watcher of the last run is over. -/
def Appliance.joined (a : Appliance V) : Appliance V :=
  match a.place with
  | .ended seq code =>
    -- The run has ended by itself, or everything ends.
    if a.stop = true ∨ a.changeSeq = seq then { a with place := .returned code, watching := false }
    else { a with place := .settling code, watching := false }
  | _ => a

inductive SupervisorStep (V : Type) where
  /-- `_supervise` is called, once there is a record. -/
  | begin (usable : Bool)
  | save (value : V)
  | stop
  | wake (usable : Bool)
  | poll
  | runEnds (code : ℤ)
  | runRaises
  | joined
  deriving DecidableEq, Repr

def SupervisorStep.apply [DecidableEq V] : SupervisorStep V → Appliance V → Appliance V
  | .begin usable, a => if a.place = .ready ∧ a.value.isSome then a.head usable else a
  | .save v, a => a.save v
  | .stop, a => { a with stop := true }
  | .wake usable, a => a.wake usable
  | .poll, a => a.poll
  | .runEnds code, a => a.runEnds code
  | .runRaises, a => a.runRaises
  | .joined, a => a.joined

/-- The steps raise nothing. -/
def SupervisorStep.exec [DecidableEq V] (step : SupervisorStep V) : Prog (Appliance V) Empty Unit :=
  modify step.apply

/-! ## The invariant -/

/-- How the supervisor and its watcher stand to the revisions. -/
def Appliance.PlacedAt (a : Appliance V) : SupervisorPlace → Prop
  | .ready => a.started = []
  | .blocked seq => seq ≤ a.changeSeq ∧ a.appliedSeq ≤ seq
  | .running seq => a.started.getLast?.map (·.seq) = some seq ∧
      (a.watching = true ∨ a.runStop = true) ∧ (a.runStop = true → a.stop = true ∨ seq < a.changeSeq)
  | .ended seq _ => a.started.getLast?.map (·.seq) = some seq
  | .settling _ => a.appliedSeq < a.changeSeq
  | .returned _ => True
  | .raised => True

structure Supervised (a : Appliance V) : Prop where
  /-- The record in force is the one saved last, if there is one. -/
  current : a.value.map (fun v => ⟨v, a.changeSeq⟩) = a.saved.getLast?
  increasing : a.saved.Pairwise fun r s => r.seq < s.seq
  known : ∀ r ∈ a.started, r ∈ a.saved
  restarts : a.started.Pairwise fun r s => r.seq < s.seq
  last : ∀ r, a.started.getLast? = some r → r.seq = a.appliedSeq
  applied : a.appliedSeq ≤ a.changeSeq
  configured : a.place ≠ .ready → a.value.isSome
  placed : a.PlacedAt a.place

/-- In an increasing list the last revision has the greatest number. -/
theorem le_of_getLast? {revisions : List (Revision V)} (h : revisions.Pairwise fun r s => r.seq < s.seq)
    {last : Revision V} (hlast : revisions.getLast? = some last) {r : Revision V} (hr : r ∈ revisions) :
    r.seq ≤ last.seq ∧ (r.seq = last.seq → r = last) := by
  obtain ⟨before, rfl⟩ := List.getLast?_eq_some_iff.mp hlast
  rcases List.mem_append.mp hr with hbefore | hsame
  · have hlt := (List.pairwise_append.mp h).2.2 r hbefore last (List.mem_singleton_self last)
    exact ⟨hlt.le, fun he => absurd he hlt.ne⟩
  · rw [List.mem_singleton.mp hsame]
    exact ⟨le_rfl, fun _ => rfl⟩

theorem pairwise_snoc {revisions : List (Revision V)} (h : revisions.Pairwise fun r s => r.seq < s.seq)
    {last : Revision V} (hlast : ∀ r ∈ revisions, r.seq < last.seq) :
    (revisions ++ [last]).Pairwise fun r s => r.seq < s.seq := by
  refine List.pairwise_append.mpr ⟨h, List.pairwise_singleton _ _, fun r hr s hs => ?_⟩
  rw [List.mem_singleton.mp hs]
  exact hlast r hr

section Steps

variable {a b : Appliance V}

/-- Later revisions and a stop request leave the supervisor where it is. -/
theorem placedAt_later {place : SupervisorPlace} (h : a.PlacedAt place)
    (hstarted : b.started = a.started) (happlied : b.appliedSeq = a.appliedSeq)
    (hchange : a.changeSeq ≤ b.changeSeq) (hwatching : b.watching = a.watching)
    (hrunStop : b.runStop = a.runStop) (hstop : a.stop = true → b.stop = true) : b.PlacedAt place := by
  cases place with
  | ready => exact hstarted.trans h
  | blocked seq => exact ⟨h.1.trans hchange, happlied ▸ h.2⟩
  | running seq =>
      refine ⟨hstarted ▸ h.1, ?_, fun hrun => ?_⟩
      · rw [hwatching, hrunStop]
        exact h.2.1
      · rw [hrunStop] at hrun
        exact (h.2.2 hrun).imp hstop fun hlt => hlt.trans_le hchange
  | ended seq code =>
      show b.started.getLast?.map _ = _
      rw [hstarted]
      exact h
  | settling code =>
      show b.appliedSeq < b.changeSeq
      rw [happlied]
      exact lt_of_lt_of_le h hchange
  | returned code => trivial
  | raised => trivial

theorem Supervised.current_eq (h : Supervised a) {v : V} (hv : a.value = some v) :
    a.saved.getLast? = some ⟨v, a.changeSeq⟩ := by
  rw [← h.current, hv]
  rfl

theorem Supervised.unsaved (h : Supervised a) (hv : a.value = none) : a.saved = [] := by
  have hcurrent := h.current
  rw [hv] at hcurrent
  exact List.getLast?_eq_none_iff.mp hcurrent.symm

/-- Revisions are numbered up to `change_seq`. -/
theorem Supervised.saved_le (h : Supervised a) {r : Revision V} (hr : r ∈ a.saved) :
    r.seq ≤ a.changeSeq := by
  cases hv : a.value with
  | none =>
      rw [h.unsaved hv] at hr
      cases hr
  | some v => exact (le_of_getLast? h.increasing (h.current_eq hv) hr).1

theorem Supervised.started_le (h : Supervised a) {r : Revision V} (hr : r ∈ a.started) :
    r.seq ≤ a.appliedSeq := by
  cases hlast : a.started.getLast? with
  | none =>
      rw [List.getLast?_eq_none_iff.mp hlast] at hr
      cases hr
  | some last =>
      rw [← h.last last hlast]
      exact (le_of_getLast? h.restarts hlast hr).1

/-- The number of the run that a place belongs to. -/
theorem Supervised.run_seq (h : Supervised a) {seq : ℤ}
    (hseq : a.started.getLast?.map (·.seq) = some seq) : seq = a.appliedSeq := by
  obtain ⟨r, hr, rfl⟩ := Option.map_eq_some_iff.mp hseq
  exact h.last r hr

theorem save_supervised [DecidableEq V] (h : Supervised a) (v : V) : Supervised (a.save v) := by
  cases hv : a.value with
  | none =>
      rw [Appliance.save, hv]
      refine ⟨?_, ?_, fun r hr => ?_, h.restarts, h.last, h.applied, fun _ => rfl, ?_⟩
      · show _ = (a.saved ++ [_]).getLast?
        rw [List.getLast?_concat]
        rfl
      · show (a.saved ++ [_]).Pairwise _
        rw [h.unsaved hv]
        exact List.pairwise_singleton _ _
      · exact List.mem_append_left _ (h.known r hr)
      · exact placedAt_later h.placed rfl rfl le_rfl rfl rfl id
  | some existing =>
      rw [Appliance.save, hv]
      show Supervised (if v = existing then a else _)
      split
      · exact h
      · have happlied := h.applied
        have hnext : a.changeSeq ≤ a.changeSeq + 1 := by omega
        refine ⟨?_, ?_, fun r hr => ?_, h.restarts, h.last, happlied.trans hnext, fun _ => rfl, ?_⟩
        · show _ = (a.saved ++ [_]).getLast?
          rw [List.getLast?_concat]
          rfl
        · refine pairwise_snoc h.increasing fun r hr => ?_
          have hle := h.saved_le hr
          show r.seq < a.changeSeq + 1
          omega
        · exact List.mem_append_left _ (h.known r hr)
        · exact placedAt_later h.placed rfl rfl hnext rfl rfl id

theorem head_usable (a : Appliance V) {v : V} (hv : a.value = some v) : a.head true = { a with
    appliedSeq := a.changeSeq, place := .running a.changeSeq, watching := true, runStop := false
    started := a.started ++ [⟨v, a.changeSeq⟩] } := by
  rw [Appliance.head]
  split
  · next hnone =>
    rw [hv] at hnone
    cases hnone
  · next v' hv' =>
    rw [hv] at hv'
    rw [Option.some.inj hv']
    rfl

theorem head_unusable (a : Appliance V) (hvalue : a.value.isSome) : a.head false =
    if a.stop = true then { a with place := .returned 0 }
    else { a with place := .blocked a.changeSeq } := by
  rw [Appliance.head]
  split
  · next hnone =>
    rw [hnone] at hvalue
    cases hvalue
  · rfl

/-- The head of the loop, reached with a revision that no run was started with. -/
theorem head_supervised (h : Supervised a) (hvalue : a.value.isSome)
    (hnew : ∀ r ∈ a.started, r.seq < a.changeSeq) (usable : Bool) : Supervised (a.head usable) := by
  cases usable with
  | true =>
      obtain ⟨v, hv⟩ := Option.isSome_iff_exists.mp hvalue
      rw [head_usable a hv]
      refine ⟨h.current, h.increasing, fun r hr => ?_, ?_, fun r hr => ?_, le_rfl, fun _ => hvalue, ?_⟩
      · rcases List.mem_append.mp hr with hr | hr
        · exact h.known r hr
        · rw [List.mem_singleton.mp hr]
          exact List.mem_of_getLast? (h.current_eq hv)
      · exact pairwise_snoc h.restarts hnew
      · have hr : (a.started ++ [(⟨v, a.changeSeq⟩ : Revision V)]).getLast? = some r := hr
        rw [List.getLast?_concat] at hr
        rw [← Option.some.inj hr]
      · refine ⟨?_, .inl rfl, fun hstop => by cases hstop⟩
        show (a.started ++ [(⟨v, a.changeSeq⟩ : Revision V)]).getLast?.map _ = _
        rw [List.getLast?_concat]
        rfl
  | false =>
      rw [head_unusable a hvalue]
      split
      · exact ⟨h.current, h.increasing, h.known, h.restarts, h.last, h.applied, fun _ => hvalue, trivial⟩
      · exact ⟨h.current, h.increasing, h.known, h.restarts, h.last, h.applied, fun _ => hvalue,
          le_rfl, h.applied⟩

/-- The supervisor comes to another place. -/
theorem Supervised.moved (h : Supervised a) (hnot : a.place ≠ .ready) {place : SupervisorPlace}
    {watching runStop : Bool} (hplaced : ({ a with place, watching, runStop } : Appliance V).PlacedAt place) :
    Supervised { a with place, watching, runStop } :=
  ⟨h.current, h.increasing, h.known, h.restarts, h.last, h.applied, fun _ => h.configured hnot, hplaced⟩

theorem wake_supervised (h : Supervised a) (usable : Bool) : Supervised (a.wake usable) := by
  have hplaced := h.placed
  rw [Appliance.wake]
  cases hplace : a.place with
  | blocked seq =>
      rw [hplace] at hplaced
      have hnot : a.place ≠ .ready := by simp [hplace]
      show Supervised (if a.stop = true then _ else if a.changeSeq = seq then a else _)
      split
      · exact h.moved hnot trivial
      · split
        · exact h
        · next hchanged =>
          refine head_supervised h (h.configured hnot) (fun r hr => ?_) usable
          have hle := h.started_le hr
          have hbetween : seq ≤ a.changeSeq ∧ a.appliedSeq ≤ seq := hplaced
          omega
  | settling code =>
      rw [hplace] at hplaced
      have hnot : a.place ≠ .ready := by simp [hplace]
      show Supervised (if a.stop = true then _ else _)
      split
      · exact h.moved hnot trivial
      · refine head_supervised h (h.configured hnot) (fun r hr => ?_) usable
        exact lt_of_le_of_lt (h.started_le hr) hplaced
  | ready => exact h
  | running seq => exact h
  | ended seq code => exact h
  | returned code => exact h
  | raised => exact h

theorem poll_supervised (h : Supervised a) : Supervised a.poll := by
  have hplaced := h.placed
  rw [Appliance.poll]
  cases hplace : a.place with
  | running seq =>
      rw [hplace] at hplaced
      show Supervised (if _ then _ else a)
      split
      · next hasks =>
        have happlied := h.applied
        rw [← h.run_seq hplaced.1] at happlied
        refine h.moved (by simp [hplace]) ⟨hplaced.1, .inr rfl, fun _ => hasks.2.imp id fun hne => ?_⟩
        show seq < a.changeSeq
        omega
      · exact h
  | ready => exact h
  | blocked seq => exact h
  | ended seq code => exact h
  | settling code => exact h
  | returned code => exact h
  | raised => exact h

theorem runEnds_supervised (h : Supervised a) (code : ℤ) : Supervised (a.runEnds code) := by
  have hplaced := h.placed
  rw [Appliance.runEnds]
  cases hplace : a.place with
  | running seq =>
      rw [hplace] at hplaced
      exact h.moved (by simp [hplace]) hplaced.1
  | ready => exact h
  | blocked seq => exact h
  | ended seq code => exact h
  | settling code => exact h
  | returned code => exact h
  | raised => exact h

theorem runRaises_supervised (h : Supervised a) : Supervised a.runRaises := by
  rw [Appliance.runRaises]
  cases hplace : a.place with
  | running seq => exact h.moved (by simp [hplace]) trivial
  | ready => exact h
  | blocked seq => exact h
  | ended seq code => exact h
  | settling code => exact h
  | returned code => exact h
  | raised => exact h

theorem joined_supervised (h : Supervised a) : Supervised a.joined := by
  have hplaced := h.placed
  rw [Appliance.joined]
  cases hplace : a.place with
  | ended seq code =>
      rw [hplace] at hplaced
      have hnot : a.place ≠ .ready := by simp [hplace]
      show Supervised (if a.stop = true ∨ a.changeSeq = seq then _ else _)
      split
      · exact h.moved hnot trivial
      · next hchanged =>
        refine h.moved hnot ?_
        have hseq := h.run_seq hplaced
        have happlied := h.applied
        show a.appliedSeq < a.changeSeq
        push Not at hchanged
        have hne := hchanged.2
        omega
  | ready => exact h
  | blocked seq => exact h
  | running seq => exact h
  | settling code => exact h
  | returned code => exact h
  | raised => exact h

/-- Every step keeps the invariant. -/
theorem step_supervised [DecidableEq V] (step : SupervisorStep V) (h : Supervised a) :
    Supervised (step.apply a) := by
  cases step with
  | begin usable =>
      show Supervised (if a.place = .ready ∧ a.value.isSome then _ else a)
      split
      · next hready =>
        have hplaced := h.placed
        rw [hready.1] at hplaced
        refine head_supervised h hready.2 (fun r hr => ?_) usable
        have hnone : a.started = [] := hplaced
        rw [hnone] at hr
        cases hr
      · exact h
  | save v => exact save_supervised h v
  | stop =>
      exact ⟨h.current, h.increasing, h.known, h.restarts, h.last, h.applied, h.configured,
        placedAt_later h.placed rfl rfl le_rfl rfl rfl fun _ => rfl⟩
  | wake usable => exact wake_supervised h usable
  | poll => exact poll_supervised h
  | runEnds code => exact runEnds_supervised h code
  | runRaises => exact runRaises_supervised h
  | joined => exact joined_supervised h

/-! ## No revision is lost -/

/-- A revision waits: no run was started with it, and it was not found to be unusable. -/
def Appliance.Waiting (a : Appliance V) : Prop :=
  a.stop = false ∧ a.started.getLast? ≠ a.saved.getLast? ∧
    match a.place with
    | .blocked seq => a.changeSeq ≠ seq
    | .running _ => True
    | .ended _ _ => True
    | .settling _ => True
    | _ => False

/-- The watcher looks, the run ends, and the sleeps are over. -/
def Appliance.restarted (a : Appliance V) (code : ℤ) : Appliance V :=
  ((a.poll.runEnds code).joined).wake true

/-- A sleep that is over leads to a run with the latest revision. -/
theorem wake_starts (h : Supervised a) (hstop : a.stop = false)
    (hplace : (∃ code, a.place = .settling code) ∨ ∃ seq, a.place = .blocked seq ∧ a.changeSeq ≠ seq) :
    (a.wake true).started.getLast? = a.saved.getLast? := by
  have hvalue : a.value.isSome := by
    refine h.configured fun hready => ?_
    rcases hplace with ⟨code, he⟩ | ⟨seq, he, -⟩ <;>
    · rw [hready] at he
      cases he
  obtain ⟨v, hv⟩ := Option.isSome_iff_exists.mp hvalue
  have hwake : a.wake true = a.head true := by
    rw [Appliance.wake]
    rcases hplace with ⟨code, he⟩ | ⟨seq, he, hne⟩
    · split
      · next he' =>
        rw [he] at he'
        cases he'
      · rw [if_neg (by simp [hstop])]
      · next hother => exact absurd he (hother code)
    · split
      · next seq' he' =>
        obtain rfl := SupervisorPlace.blocked.inj (he.symm.trans he')
        rw [if_neg (by simp [hstop]), if_neg hne]
      · next he' =>
        rw [he] at he'
        cases he'
      · next hother _ => exact absurd he (hother seq)
  rw [hwake, head_usable a hv, h.current_eq hv]
  exact List.getLast?_concat ..

theorem Supervised.changed (h : Supervised a) {seq : ℤ}
    (hseq : a.started.getLast?.map (·.seq) = some seq)
    (hwaits : a.started.getLast? ≠ a.saved.getLast?) : a.changeSeq ≠ seq := by
  intro he
  obtain ⟨r, hr, rfl⟩ := Option.map_eq_some_iff.mp hseq
  have hmem := h.known r (List.mem_of_getLast? hr)
  cases hv : a.value with
  | none =>
      rw [h.unsaved hv] at hmem
      cases hmem
  | some v =>
      have hlast := h.current_eq hv
      have hsame := (le_of_getLast? h.increasing hlast hmem).2 he.symm
      rw [hr, hlast, hsame] at hwaits
      exact hwaits rfl

/-- What the watcher does is between itself and the run. -/
theorem poll_frame (a : Appliance V) : ∃ watching runStop, a.poll = { a with watching, runStop } := by
  rw [Appliance.poll]
  split
  · split
    · exact ⟨_, _, rfl⟩
    · exact ⟨_, _, rfl⟩
  · exact ⟨_, _, rfl⟩

/-- Without a run, neither the watcher nor its end changes anything. -/
theorem idle_steps (hplace : ∀ seq, a.place ≠ .running seq) (code : ℤ) : a.poll.runEnds code = a := by
  have hpoll : a.poll = a := by
    rw [Appliance.poll]
    split
    · next seq he => exact absurd he (hplace seq)
    · rfl
  rw [hpoll, Appliance.runEnds]
  split
  · next seq he => exact absurd he (hplace seq)
  · rfl

theorem idle_joined (hplace : ∀ seq code, a.place ≠ .ended seq code) : a.joined = a := by
  rw [Appliance.joined]
  split
  · next seq code he => exact absurd he (hplace seq code)
  · rfl

theorem joined_starts (h : Supervised a) (hstop : a.stop = false) {seq code : ℤ}
    (hplace : a.place = .ended seq code) (hwaits : a.started.getLast? ≠ a.saved.getLast?) :
    (a.joined.wake true).started.getLast? = a.saved.getLast? := by
  have hplaced := h.placed
  rw [hplace] at hplaced
  have hne := h.changed hplaced hwaits
  have hjoined : a.joined = { a with place := .settling code, watching := false } := by
    rw [Appliance.joined]
    split
    · next seq' code' he =>
      rw [hplace] at he
      obtain ⟨rfl, rfl⟩ := SupervisorPlace.ended.inj he
      rw [if_neg]
      simpa [hstop] using hne
    · next hother => exact absurd hplace (hother seq code)
  have hsupervised := joined_supervised h
  rw [hjoined] at hsupervised ⊢
  exact wake_starts hsupervised hstop (.inl ⟨code, rfl⟩)

/-- A revision that waits is applied once the run has ended, as the watcher asks it to. -/
theorem Supervised.applies (h : Supervised a) (hwaiting : a.Waiting) (code : ℤ) :
    (a.restarted code).started.getLast? = a.saved.getLast? := by
  obtain ⟨hstop, hwaits, hplaced⟩ := hwaiting
  rw [Appliance.restarted]
  cases hplace : a.place with
  | running seq =>
      obtain ⟨watching, runStop, hpoll⟩ := poll_frame a
      have hpolled := poll_supervised h
      have hended := runEnds_supervised hpolled code
      rw [hpoll] at hended ⊢
      have hends : ({ a with watching, runStop } : Appliance V).runEnds code =
          { a with watching, runStop, place := .ended seq code } := by
        rw [Appliance.runEnds]
        split
        · next seq' he =>
          have he : a.place = .running seq' := he
          rw [hplace] at he
          rw [SupervisorPlace.running.inj he]
        · next hother => exact absurd hplace (hother seq)
      rw [hends] at hended ⊢
      exact joined_starts hended hstop rfl hwaits
  | ended seq code' =>
      rw [idle_steps (by simp [hplace])]
      exact joined_starts h hstop hplace hwaits
  | settling code' =>
      rw [idle_steps (by simp [hplace]), idle_joined (by simp [hplace])]
      exact wake_starts h hstop (.inl ⟨code', hplace⟩)
  | blocked seq =>
      rw [hplace] at hplaced
      rw [idle_steps (by simp [hplace]), idle_joined (by simp [hplace])]
      exact wake_starts h hstop (.inr ⟨seq, hplace, hplaced⟩)
  | ready =>
      rw [hplace] at hplaced
      exact hplaced.elim
  | returned code' =>
      rw [hplace] at hplaced
      exact hplaced.elim
  | raised =>
      rw [hplace] at hplaced
      exact hplaced.elim

end Steps

/-! ## Runs -/

section Runs

variable [DecidableEq V]

/-- What a step of the appliance guarantees. -/
structure Reloads (a : Appliance V) (step : SupervisorStep V) (b : Appliance V) : Prop where
  /-- A run is started with the latest revision, which is then the applied one. -/
  starts : b.started = a.started ∨ ∃ r, b.started = a.started ++ [r] ∧ b.value = some r.value ∧
    b.changeSeq = r.seq ∧ b.appliedSeq = r.seq ∧ b.saved.getLast? = some r
  applied : a.appliedSeq ≤ b.appliedSeq ∧ b.appliedSeq ≤ b.changeSeq
  /-- A later run has a later revision. -/
  restarts : b.started.Pairwise (fun r s => r.seq < s.seq) ∧ ∀ r ∈ b.started, r ∈ b.saved
  /-- An unusable record starts no run, and only a stop request ends the supervisor then. -/
  unusable : step = .begin false ∨ step = .wake false → b.started = a.started ∧
    ∀ code, b.place = .returned code → a.place = .returned code ∨ a.stop = true
  /-- Without a stop request the supervisor returns after a run during which nothing was
      saved. -/
  returns : ∀ code, b.place = .returned code → a.place = .returned code ∨ b.stop = true ∨
    ∃ r, a.started.getLast? = some r ∧ a.place = .ended r.seq code ∧ b.changeSeq = r.seq
  /-- The watcher asks a run to end exactly for a stop request or a later revision. -/
  asks : ∀ seq, b.place = .running seq → (b.poll.runStop = true ↔ b.stop = true ∨ b.changeSeq ≠ seq)
  /-- A revision that waits is applied. -/
  applies : b.Waiting → ∀ code, (b.restarted code).started.getLast? = b.saved.getLast?

variable {a : Appliance V}

omit [DecidableEq V] in
/-- What the head of the loop can do. -/
theorem head_cases (hvalue : a.value.isSome) (usable : Bool) :
    (usable = true ∧ ∃ v, a.value = some v ∧ a.head usable = { a with
      appliedSeq := a.changeSeq, place := .running a.changeSeq, watching := true, runStop := false
      started := a.started ++ [⟨v, a.changeSeq⟩] }) ∨
    (usable = false ∧ ∃ place, a.head usable = { a with place } ∧
      ∀ code, place = .returned code → a.stop = true) := by
  cases usable with
  | true =>
      obtain ⟨v, hv⟩ := Option.isSome_iff_exists.mp hvalue
      exact .inl ⟨rfl, v, hv, head_usable a hv⟩
  | false =>
      rw [head_unusable a hvalue]
      refine .inr ⟨rfl, ?_⟩
      split
      · next hstop => exact ⟨_, rfl, fun _ _ => hstop⟩
      · exact ⟨_, rfl, fun _ he => by cases he⟩

/-- How a step goes on: a run is started, or the supervisor moves, or neither. -/
inductive Goes (a : Appliance V) (step : SupervisorStep V) : Appliance V → Prop
  | starts {v : V} (hv : a.value = some v) (h : step = .begin true ∨ step = .wake true) :
      Goes a step { a with
        appliedSeq := a.changeSeq, place := .running a.changeSeq, watching := true, runStop := false
        started := a.started ++ [⟨v, a.changeSeq⟩] }
  | moves {place : SupervisorPlace} {watching runStop : Bool}
      (h : ∀ code, place = .returned code → a.place = .returned code ∨ a.stop = true ∨
        ∃ seq, a.place = .ended seq code ∧ a.changeSeq = seq ∧ step = .joined) :
      Goes a step { a with place, watching, runStop }
  | saves (v : V) (h : step = .save v) : Goes a step (a.save v)
  | stops (h : step = .stop) : Goes a step { a with stop := true }

theorem Goes.kept (a : Appliance V) (step : SupervisorStep V) : Goes a step a :=
  .moves fun _ he => .inl he

theorem Goes.head (h : Supervised a) (hvalue : a.value.isSome) {usable : Bool}
    {step : SupervisorStep V} (hstep : step = .begin usable ∨ step = .wake usable) :
    Goes a step (a.head usable) := by
  rcases head_cases hvalue usable with ⟨rfl, v, hv, he⟩ | ⟨rfl, place, he, hreturned⟩
  · rw [he]
    exact .starts hv hstep
  · rw [he]
    exact .moves fun code hcode => .inr (.inl (hreturned code hcode))

theorem step_goes (step : SupervisorStep V) (h : Supervised a) : Goes a step (step.apply a) := by
  cases step with
  | begin usable =>
      show Goes a _ (if a.place = .ready ∧ a.value.isSome then _ else a)
      split
      · next hready => exact .head h hready.2 (.inl rfl)
      · exact .kept a _
  | save v => exact .saves v rfl
  | stop => exact .stops rfl
  | wake usable =>
      show Goes a _ (a.wake usable)
      rw [Appliance.wake]
      split
      · next seq hplace =>
        split
        · next hstop => exact .moves fun _ _ => .inr (.inl hstop)
        · split
          · exact .kept a _
          · exact .head h (h.configured (by simp [hplace])) (.inr rfl)
      · next code hplace =>
        split
        · next hstop => exact .moves fun _ _ => .inr (.inl hstop)
        · exact .head h (h.configured (by simp [hplace])) (.inr rfl)
      · exact .kept a _
  | poll =>
      show Goes a _ a.poll
      obtain ⟨watching, runStop, he⟩ := poll_frame a
      rw [he]
      exact .moves fun _ he => .inl he
  | runEnds code =>
      show Goes a _ (a.runEnds code)
      rw [Appliance.runEnds]
      split
      · exact .moves fun _ he => by cases he
      · exact .kept a _
  | runRaises =>
      show Goes a _ a.runRaises
      rw [Appliance.runRaises]
      split
      · exact .moves fun _ he => by cases he
      · exact .kept a _
  | joined =>
      show Goes a _ a.joined
      rw [Appliance.joined]
      split
      · next seq code hplace =>
        split
        · next hends =>
          refine .moves fun code' he => ?_
          obtain rfl := SupervisorPlace.returned.inj he
          exact .inr (hends.imp id fun hsame => ⟨seq, hplace, hsame, rfl⟩)
        · exact .moves fun _ he => by cases he
      · exact .kept a _

omit [DecidableEq V] in
/-- The watcher of a run asks it to end. -/
theorem Supervised.asks (h : Supervised a) {seq : ℤ} (hplace : a.place = .running seq) :
    a.poll.runStop = true ↔ a.stop = true ∨ a.changeSeq ≠ seq := by
  have hplaced := h.placed
  rw [hplace] at hplaced
  obtain ⟨-, hwatch, hasked⟩ := hplaced
  have hpoll : a.poll = if a.watching = true ∧ (a.stop = true ∨ a.changeSeq ≠ seq) then
      { a with runStop := true, watching := false } else a := by
    rw [Appliance.poll]
    split
    · next seq' he =>
      rw [SupervisorPlace.running.inj (hplace.symm.trans he)]
    · next hother => exact absurd hplace (hother seq)
  rw [hpoll]
  constructor
  · intro hrun
    split at hrun
    · next hasks => exact hasks.2
    · exact (hasked hrun).imp id fun hlt => hlt.ne'
  · intro hchanged
    split
    · rfl
    · next hnot => exact hwatch.resolve_left fun hwatching => hnot ⟨hwatching, hchanged⟩

theorem save_frame (a : Appliance V) (v : V) : ∃ value changeSeq saved,
    a.save v = { a with value, changeSeq, saved } := by
  rw [Appliance.save]
  split
  · exact ⟨_, _, _, rfl⟩
  · split
    · exact ⟨_, _, _, rfl⟩
    · exact ⟨_, _, _, rfl⟩

theorem step_reloads (step : SupervisorStep V) (h : Supervised a) : Reloads a step (step.apply a) := by
  have hafter := step_supervised step h
  have hgoes := step_goes step h
  generalize step.apply a = b at hafter hgoes ⊢
  refine ⟨?_, ⟨?_, hafter.applied⟩, ⟨hafter.restarts, hafter.known⟩, fun hstep => ?_, fun code hcode => ?_,
    fun _ hplace => hafter.asks hplace, fun hwaiting code => hafter.applies hwaiting code⟩
  · cases hgoes with
    | starts hv => exact .inr ⟨_, rfl, hv, rfl, rfl, h.current_eq hv⟩
    | moves => exact .inl rfl
    | saves v =>
        obtain ⟨_, _, _, he⟩ := save_frame a v
        rw [he]
        exact .inl rfl
    | stops => exact .inl rfl
  · cases hgoes with
    | starts hv => exact h.applied
    | moves => exact le_rfl
    | saves v =>
        obtain ⟨_, _, _, he⟩ := save_frame a v
        rw [he]
    | stops => exact le_rfl
  · cases hgoes with
    | starts hv hstart => rcases hstep with rfl | rfl <;> simp at hstart
    | moves hreturned =>
        refine ⟨rfl, fun code hcode => (hreturned code hcode).imp id fun hwhy => ?_⟩
        -- Neither `begin` nor `wake` joins a run.
        rcases hwhy with hstop | ⟨_, -, -, hjoined⟩
        · exact hstop
        · rcases hstep with rfl | rfl <;> cases hjoined
    | saves v hsave => rcases hstep with rfl | rfl <;> cases hsave
    | stops hstop => rcases hstep with rfl | rfl <;> cases hstop
  · cases hgoes with
    | starts hv => cases hcode
    | moves hreturned =>
        refine (hreturned code hcode).imp id fun hwhy => hwhy.imp id ?_
        rintro ⟨seq, hplace, hsame, -⟩
        have hplaced := h.placed
        rw [hplace] at hplaced
        obtain ⟨r, hr, rfl⟩ := Option.map_eq_some_iff.mp hplaced
        exact ⟨r, hr, hplace, hsame⟩
    | saves v =>
        obtain ⟨_, _, _, he⟩ := save_frame a v
        rw [he] at hcode
        exact .inl hcode
    | stops => exact .inr (.inl rfl)

omit [DecidableEq V] in
theorem Supervised.new (value : Option V) : Supervised (Appliance.new value) := by
  refine ⟨?_, ?_, fun _ hr => (by cases hr), List.Pairwise.nil, fun _ hr => (by cases hr), le_rfl,
    fun hnot => absurd rfl hnot, rfl⟩
  · cases value <;> rfl
  · cases value with
    | none => exact List.Pairwise.nil
    | some v => exact List.pairwise_singleton _ _

/-- Supervision: in every interleaving of saved revisions, the supervisor, the watcher, the
    ends of the runs and a stop request, each step guarantees what `Reloads` says. -/
theorem supervised_reloads (value : Option V) (steps : List (SupervisorStep V)) :
    ∀ st ∈ trace SupervisorStep.exec (Appliance.new value) steps,
      Reloads st.before st.call st.after := by
  refine trace_forall (I := Supervised) (C := fun _ => True) (fun a step h _ => ?_)
    (Supervised.new value) fun _ _ => trivial
  exact ⟨step_reloads step h, step_supervised step h⟩

end Runs

/-- A revision that is saved during a run ends it, and the next run has it. -/
theorem supervised_reloads_saved :
    let a := runCalls SupervisorStep.exec (Appliance.new (some 1))
      [.begin true, .save 2, .poll, .runEnds 0, .joined]
    let st := perform SupervisorStep.exec a (.wake true)
    st.after.started = [⟨1, 0⟩, ⟨2, 1⟩] ∧ Reloads st.before st.call st.after := by
  intro a st
  refine ⟨by decide, supervised_reloads (some 1)
    ([.begin true, .save 2, .poll, .runEnds 0, .joined] ++ [.wake true]) st ?_⟩
  rw [trace_append]
  exact List.mem_append_right _ (List.mem_singleton_self _)

end PlcnextIot.Provisioning
