/-
  PlcnextIot.Core.Serving

  What the tasks of the lifecycle do with accepted submissions, over every
  order of their steps.

  `Placed` says where an accepted submission is: its future is done, or the
  coordinator holds it, or it is queued, and only one of these.  `Controlled`
  is what the tasks know of each other.  `Advances` relates the ends of a step:
  what is answered stays answered, and nothing begins after the shutdown has
  drained the queue.
-/

import PlcnextIot.Core.Submissions
import Mathlib.Data.List.ReduceOption

namespace PlcnextIot.Core

open PlcnextIot.Python PlcnextIot.Config PlcnextIot.Effect

namespace Coordinator

/-- The submissions in the queue. -/
def queued (c : Coordinator) : List Submission := c.queue.reduceOption

/-- What `_serve` holds. -/
def held (c : Coordinator) : List Submission := c.worker.item.toList

/-- The accepted submissions that are not answered yet. -/
def live (c : Coordinator) : List Submission := c.held ++ c.queued

/-- `_close` has drained the queue. -/
def Drained (c : Coordinator) : Prop := c.close ≠ .absent ∧ c.close ≠ .startup

/-! ## Draining -/

@[simp] theorem resultOf_results (c : Coordinator) (rs : List (ℕ × ApplyResult))
    (status : ApplyStatus) (code : Option PyStr) (issues : List Contracts.Issue)
    (applied : Option ℤ) :
    { c with results := rs }.resultOf status code issues applied =
      c.resultOf status code issues applied := rfl

/-- Without a duplicate every entry of the queue is answered, in its order. -/
theorem foldl_drop (code : String) (q : List (Option Submission)) (c : Coordinator)
    (h : (c.answered ++ q.reduceOption.map (·.id)).Nodup) :
    q.foldl (Coordinator.drop code) c =
      { c with results := c.results ++ q.reduceOption.map fun s => (s.id, c.refusal code) } := by
  induction q generalizing c with
  | nil => simp
  | cons entry q ih =>
    cases entry with
    | none =>
      rw [List.reduceOption_cons_of_none] at h ⊢
      exact ih c h
    | some item =>
      rw [List.reduceOption_cons_of_some, List.map_cons] at h
      have hfresh : item.id ∉ c.answered := fun hmem =>
        List.disjoint_of_nodup_append h hmem List.mem_cons_self
      have hnext : ({ c with results := c.results ++ [(item.id, c.refusal code)] }.answered ++
          q.reduceOption.map (·.id)).Nodup := by
        simpa [answered] using h
      rw [List.foldl_cons, Coordinator.drop, answer, if_neg hfresh, ih _ hnext]
      simp [refusal]

theorem drain_eq (c : Coordinator) (code : String)
    (h : (c.answered ++ c.queued.map (·.id)).Nodup) :
    c.drain code =
      { c with results := c.results ++ c.queued.map fun s => (s.id, c.refusal code)
               queue := [] } := by
  rw [drain, foldl_drop code c.queue c h]
  rfl

/-- `_drain` answers futures and empties the queue. -/
theorem drain_same (c : Coordinator) (code : String) :
    c.drain code = { c with results := (c.drain code).results, queue := [] } := by
  have hfold : ∀ (q : List (Option Submission)) (c : Coordinator),
      q.foldl (Coordinator.drop code) c =
        { c with results := (q.foldl (Coordinator.drop code) c).results } := by
    intro q
    induction q with
    | nil => intro c; rfl
    | cons entry q ih =>
      intro c
      obtain ⟨rs, hrs⟩ : ∃ rs, Coordinator.drop code c entry = { c with results := rs } := by
        cases entry with
        | none => exact ⟨c.results, rfl⟩
        | some item =>
          rw [Coordinator.drop, answer]
          split
          · exact ⟨c.results, rfl⟩
          · exact ⟨_, rfl⟩
      rw [List.foldl_cons, hrs]
      exact ih { c with results := rs }
  rw [drain, hfold]

/-! ## Where an accepted submission is -/

/-- Every accepted submission is answered, held or queued, and the order of
    acceptance is the order of service. -/
structure Placed (c : Coordinator) : Prop where
  ids : c.accepted.map (·.id) = List.range c.accepted.length
  places : (c.answered ++ c.live.map (·.id)).Perm (c.accepted.map (·.id))
  order : (c.begun ++ c.queued).Sublist c.accepted
  served : ∀ item ∈ c.begun, item.id ∈ c.answered ∨ item ∈ c.held
  taken : ∀ item ∈ c.held, item ∈ c.begun

theorem Placed.nodup {c : Coordinator} (h : c.Placed) :
    (c.answered ++ c.live.map (·.id)).Nodup := by
  rw [h.places.nodup_iff, h.ids]
  exact List.nodup_range

/-- A step that leaves the queue and the futures alone. -/
theorem Placed.of_same {c c' : Coordinator} (h : c.Placed) (haccepted : c'.accepted = c.accepted)
    (hresults : c'.results = c.results) (hqueued : c'.queued = c.queued)
    (hbegun : c'.begun = c.begun) (hheld : c'.held = c.held) : c'.Placed := by
  have hlive : c'.live = c.live := by rw [live, live, hheld, hqueued]
  have hanswered : c'.answered = c.answered := by rw [answered, answered, hresults]
  constructor
  · rw [haccepted]; exact h.ids
  · rw [hanswered, hlive, haccepted]; exact h.places
  · rw [hbegun, hqueued, haccepted]; exact h.order
  · rw [hbegun, hanswered, hheld]; exact h.served
  · rw [hheld, hbegun]; exact h.taken

theorem answered_steady (c : Coordinator) : c.steady.answered = c.answered := by
  unfold steady
  split
  · rfl
  · split
    · rfl
    · split <;> rfl

/-- `_steady` assigns the state and nothing else. -/
theorem steady_eq (c : Coordinator) : c.steady = { c with state := c.steady.state } := by
  unfold steady
  split
  · rfl
  · split
    · rfl
    · split <;> rfl

/-- The queue is drained while the coordinator may still hold an item. -/
theorem Placed.drain {c : Coordinator} (h : c.Placed) (code : String) : (c.drain code).Placed := by
  have hall := h.nodup
  have hnodup : (c.answered ++ c.queued.map (·.id)).Nodup := by
    refine hall.sublist (List.Sublist.append_left ?_ _)
    rw [live, List.map_append]
    exact List.sublist_append_right _ _
  rw [drain_eq c code hnodup]
  refine ⟨h.ids, ?_, ?_, ?_, h.taken⟩
  · have hperm : (c.answered ++ c.queued.map (·.id) ++ c.held.map (·.id)).Perm
        (c.answered ++ c.live.map (·.id)) := by
      rw [live, List.map_append, List.append_assoc]
      exact List.Perm.append_left _ List.perm_append_comm
    simpa [answered, live, held, queued, Function.comp_def] using hperm.trans h.places
  · have hsub : c.begun.Sublist (c.begun ++ c.queued) := List.sublist_append_left _ _
    simpa [queued] using hsub.trans h.order
  · intro item hitem
    rcases h.served item hitem with hdone | hheld
    · left
      simp only [answered, List.map_append, List.mem_append]
      exact Or.inl hdone
    · exact Or.inr hheld

/-! ## What the tasks know of each other -/

/-- The tasks of the lifecycle. -/
structure Controlled (c : Coordinator) : Prop where
  closing : c.closing = true ↔ c.close ≠ .absent
  drained : c.Drained → c.queued = []
  joined : c.Drained → c.starting = .absent ∨ c.starting = .ended
  marked : none ∈ c.queue → c.Drained
  served : c.worker.alive = false → c.queued = []
  alive : c.closing = false → c.state.accepts = true → c.worker.alive = true
  healthy : c.worker = .waiting → c.state ≠ .failed
  ended : c.worker = .ended → c.closing = true ∨ c.state = .failed
  unborn : c.starting ≠ .ended → c.worker = .absent
  born : c.starting = .running → c.state ≠ .failed
  fresh : c.starting ≠ .absent → c.closing = true ∨ c.state ≠ .new
  stopped : c.close = .shutdown ∨ c.close = .ended → c.worker.alive = false

/-- What holds between the steps. -/
structure Sound (c : Coordinator) : Prop where
  placed : c.Placed
  controlled : c.Controlled

theorem Controlled.started {c : Coordinator} (h : c.Controlled) (hworker : c.worker ≠ .absent) :
    c.starting = .ended := by
  by_contra hne
  exact hworker (h.unborn hne)

theorem initial_sound : Sound {} := by
  constructor
  · constructor <;> simp [answered, live, held, queued, WorkerTask.item]
  · constructor <;> simp [Drained, queued, WorkerTask.alive, LifecycleState.accepts]

/-! ## What a step changes -/

/-- What every step keeps of the past. -/
structure Advances (c c' : Coordinator) : Prop where
  accepted : c.accepted <+: c'.accepted
  results : c.results <+: c'.results
  begun : c.Drained → c'.Drained ∧ c'.begun = c.begun
  ended : c.worker = .ended → c'.worker = .ended

theorem Advances.refl (c : Coordinator) : Advances c c :=
  ⟨List.prefix_rfl, List.prefix_rfl, fun h => ⟨h, rfl⟩, id⟩

theorem Advances.trans {a b c : Coordinator} (h : Advances a b) (h' : Advances b c) :
    Advances a c := by
  refine ⟨h.accepted.trans h'.accepted, h.results.trans h'.results, ?_, h'.ended ∘ h.ended⟩
  intro hdrained
  obtain ⟨hb, hbegun⟩ := h.begun hdrained
  obtain ⟨hc, hbegun'⟩ := h'.begun hb
  exact ⟨hc, hbegun'.trans hbegun⟩

/-! ## Callers -/

/-- `submit` refuses, or puts a new item at the end of the queue. -/
theorem submit_cases (capacity : QueueCapacity) (c : Coordinator) (payload : Option Bytes)
    (kind : PyStr) :
    (∃ code, c.submit capacity payload kind = (c, .rejected (c.refusal code))) ∨
      ∃ item : Submission, item.id = c.accepted.length ∧ payload = some item.payload ∧
        ItemKind.ofName kind = some item.kind ∧ c.closing = false ∧ c.state.accepts = true ∧
        c.submit capacity payload kind =
          ({ c with queue := c.queue ++ [some item], accepted := c.accepted ++ [item] },
            .accepted item.id) := by
  unfold submit
  by_cases hclosing : c.closing = true
  · rw [if_pos hclosing]
    exact Or.inl ⟨_, rfl⟩
  rw [if_neg hclosing]
  by_cases hstate : c.state.accepts = false
  · rw [if_pos hstate]
    exact Or.inl ⟨_, rfl⟩
  rw [if_neg hstate]
  cases payload with
  | none => exact Or.inl ⟨_, rfl⟩
  | some payload =>
    dsimp only
    by_cases hlong : 2 * 1024 * 1024 < payload.length
    · rw [if_pos hlong]
      exact Or.inl ⟨_, rfl⟩
    rw [if_neg hlong]
    cases hkind : ItemKind.ofName kind with
    | none => exact Or.inl ⟨_, rfl⟩
    | some kind =>
      dsimp only
      by_cases hfull : capacity.value ≤ c.queue.length
      · rw [if_pos hfull]
        exact Or.inl ⟨_, rfl⟩
      · rw [if_neg hfull]
        exact Or.inr ⟨⟨c.accepted.length, payload, kind⟩, rfl, rfl, rfl, by simpa using hclosing,
          by simpa using hstate, rfl⟩

theorem enqueue_placed {c : Coordinator} (h : c.Placed) {item : Submission}
    (hid : item.id = c.accepted.length) :
    Placed { c with queue := c.queue ++ [some item], accepted := c.accepted ++ [item] } := by
  have hqueued : queued { c with queue := c.queue ++ [some item]
                                 accepted := c.accepted ++ [item] } = c.queued ++ [item] := by
    simp [queued, List.reduceOption_append]
  constructor
  · rw [List.map_append, h.ids, List.length_append, List.length_singleton, List.range_succ]
    simp [hid]
  · have hplaces := h.places.append_right [item.id]
    simpa [live, hqueued, held, answered] using hplaces
  · rw [hqueued, ← List.append_assoc]
    exact h.order.append_right [item]
  · exact h.served
  · exact h.taken

theorem submit_sound {capacity : QueueCapacity} {c : Coordinator} (h : c.Sound)
    (payload : Option Bytes) (kind : PyStr) :
    (c.submit capacity payload kind).1.Sound ∧ Advances c (c.submit capacity payload kind).1 := by
  rcases submit_cases capacity c payload kind with ⟨code, heq⟩ | ⟨item, hid, -, -, hclosing, hstate, heq⟩
  · rw [heq]
    exact ⟨h, Advances.refl c⟩
  rw [heq]
  have halive : c.worker.alive = true := h.controlled.alive hclosing hstate
  have hclose : c.close = .absent := by
    by_contra habsent
    exact absurd (h.controlled.closing.mpr habsent) (by simp [hclosing])
  have hopen : ¬ c.Drained := fun hdrained => hdrained.1 hclose
  refine ⟨⟨enqueue_placed h.placed hid, ?_⟩, ?_⟩
  · refine { h.controlled with drained := ?_, marked := ?_, served := ?_ }
    · intro hdrained
      exact absurd hdrained hopen
    · intro hmem
      have hold : none ∈ c.queue := by simpa using hmem
      exact h.controlled.marked hold
    · intro hdead
      exact absurd (hdead : c.worker.alive = false) (by simp [halive])
  · exact ⟨List.prefix_append _ _, List.prefix_rfl, fun hdrained => ⟨hdrained, rfl⟩, id⟩

/-! ## The coordinator -/

/-- `_serve` gets an item or the stop marker. -/
theorem take_cases {c c' : Coordinator} (h : c.take = some c') :
    c.worker = .waiting ∧
      ((∃ item rest, c.queue = some item :: rest ∧
          c' = { c with queue := rest, worker := .processing item, begun := c.begun ++ [item]
                        state := if c.closing then .stopping else .applying }) ∨
        ∃ rest, c.queue = none :: rest ∧ c' = { c with queue := rest, worker := .ended }) := by
  unfold take at h
  split at h
  · rename_i item rest hworker hqueue
    exact ⟨hworker, Or.inl ⟨item, rest, hqueue, (Option.some.inj h).symm⟩⟩
  · rename_i rest hworker hqueue
    exact ⟨hworker, Or.inr ⟨rest, hqueue, (Option.some.inj h).symm⟩⟩
  · cases h

theorem take_sound {c c' : Coordinator} (h : c.Sound) (hstep : c.take = some c') :
    c'.Sound ∧ Advances c c' := by
  obtain ⟨hworker, ⟨item, rest, hqueue, rfl⟩ | ⟨rest, hqueue, rfl⟩⟩ := take_cases hstep
  · -- An item leaves the head of the queue for the hands of the coordinator.
    have hqueued : c.queued = item :: rest.reduceOption := by
      rw [queued, hqueue, List.reduceOption_cons_of_some]
    have hopen : ¬ c.Drained := by
      intro hdrained
      rw [h.controlled.drained hdrained] at hqueued
      cases hqueued
    have hheld : c.held = [] := by simp [held, hworker, WorkerTask.item]
    have halive : c.worker.alive = true := by rw [hworker]; rfl
    refine ⟨⟨⟨h.placed.ids, ?_, ?_, ?_, ?_⟩, ?_⟩, ?_⟩
    · have hplaces := h.placed.places
      rw [live, hheld, hqueued] at hplaces
      simpa [live, held, WorkerTask.item, queued, answered] using hplaces
    · have horder := h.placed.order
      rw [hqueued] at horder
      simpa [queued] using horder
    · intro other hother
      rcases List.mem_append.mp hother with hold | hnew
      · rcases h.placed.served other hold with hdone | hheld'
        · exact Or.inl hdone
        · rw [hheld] at hheld'
          cases hheld'
      · right
        simpa [held, WorkerTask.item] using hnew
    · intro other hother
      have heq : other = item := by simpa [held, WorkerTask.item] using hother
      rw [heq]
      simp
    · have hstarted : c.starting = .ended := by
        by_contra hne
        rw [h.controlled.unborn hne] at hworker
        cases hworker
      refine ⟨h.controlled.closing, fun hd => absurd hd hopen, h.controlled.joined, ?_, ?_, ?_, ?_,
        ?_, ?_, ?_, ?_, fun hclose => absurd (h.controlled.stopped hclose) (by simp [halive])⟩
      · intro hmem
        exact h.controlled.marked (by rw [hqueue]; exact List.mem_cons_of_mem _ hmem)
      · intro hdead
        cases hdead
      · intro _ _
        rfl
      · intro hwaiting
        cases hwaiting
      · intro hended
        cases hended
      · intro hne
        exact absurd hstarted hne
      · intro hrunning
        exact absurd (hstarted.symm.trans hrunning) (by decide)
      · intro _
        right
        dsimp only
        split <;> decide
    · exact ⟨List.prefix_rfl, List.prefix_rfl, fun hd => absurd hd hopen,
        fun hended => absurd (hworker.symm.trans hended) (by decide)⟩
  · -- The stop marker ends the task.
    have hdrained : c.Drained := h.controlled.marked (by rw [hqueue]; exact List.mem_cons_self)
    have hqueued : rest.reduceOption = [] := by
      have hempty := h.controlled.drained hdrained
      rwa [queued, hqueue, List.reduceOption_cons_of_none] at hempty
    have hsame : queued { c with queue := rest, worker := .ended } = c.queued := by
      rw [h.controlled.drained hdrained]
      exact hqueued
    have hheld : c.held = [] := by simp [held, hworker, WorkerTask.item]
    have hstarted : c.starting = .ended := h.controlled.started (by simp [hworker])
    have hclosing : c.closing = true := h.controlled.closing.mpr hdrained.1
    refine ⟨⟨h.placed.of_same rfl rfl hsame rfl hheld.symm, ?_⟩, ?_⟩
    · refine ⟨h.controlled.closing, fun _ => hqueued, h.controlled.joined, fun _ => hdrained,
        fun _ => hqueued, ?_, ?_, fun _ => Or.inl hclosing, ?_, ?_, h.controlled.fresh,
        fun _ => rfl⟩
      · intro hopen
        exact absurd (hclosing.symm.trans hopen) (by decide)
      · intro hwaiting
        cases hwaiting
      · intro hne
        exact absurd hstarted hne
      · intro hrunning
        exact absurd (hstarted.symm.trans hrunning) (by decide)
    · exact ⟨List.prefix_rfl, List.prefix_rfl, fun hd => ⟨hd, rfl⟩, fun _ => rfl⟩

theorem apply_sound {c c' : Coordinator} (h : c.Sound) {s : ApplyStep}
    (hstep : c.apply s = some c') : c'.Sound ∧ Advances c c' := by
  unfold apply at hstep
  split at hstep
  · rename_i item hworker
    have halive : c.worker.alive = true := by rw [hworker]; rfl
    have hstarted : c.starting = .ended := h.controlled.started (by simp [hworker])
    have hmoves : Advances c c := Advances.refl c
    cases s with
    | awaits =>
      cases hstep
      exact ⟨h, hmoves⟩
    | fatal =>
      cases hstep
      refine ⟨⟨h.placed.of_same rfl rfl rfl rfl rfl, ?_⟩, ?_⟩
      · refine { h.controlled with alive := fun _ hstate => ?_, healthy := fun hw => ?_,
                                   ended := fun _ => Or.inr rfl, born := fun hr => ?_,
                                   fresh := fun _ => Or.inr (by simp) }
        · exact halive
        · exact absurd (hworker.symm.trans hw) (by simp)
        · exact absurd (hstarted.symm.trans hr) (by decide)
      · exact ⟨List.prefix_rfl, List.prefix_rfl, fun hd => ⟨hd, rfl⟩, id⟩
    | durable version =>
      cases hstep
      exact ⟨⟨h.placed.of_same rfl rfl rfl rfl rfl, { h.controlled with }⟩,
        List.prefix_rfl, List.prefix_rfl, fun hd => ⟨hd, rfl⟩, id⟩
    | publish committed =>
      cases hstep
      exact ⟨⟨h.placed.of_same rfl rfl rfl rfl rfl, { h.controlled with }⟩,
        List.prefix_rfl, List.prefix_rfl, fun hd => ⟨hd, rfl⟩, id⟩
  · cases hstep

theorem steady_failed_iff (c : Coordinator) : c.steady.state = .failed ↔ c.state = .failed := by
  unfold steady
  by_cases hfailed : c.state = .failed
  · rw [if_pos hfailed]
  · rw [if_neg hfailed]
    split
    · simp [hfailed]
    · split
      · simp [hfailed]
      · dsimp only
        split <;> simp [hfailed]

theorem steady_ne_new (c : Coordinator) (h : c.state = .failed → c.state ≠ .new) :
    c.steady.state ≠ .new := by
  unfold steady
  split
  · rename_i hfailed
    exact h hfailed
  · split
    · simp
    · split
      · simp
      · dsimp only
        split <;> simp

/-- The future of the processed item is done. -/
theorem reply_placed {c : Coordinator} (h : c.Placed) {item : Submission} {w : WorkerTask}
    (hheld : c.held = [item]) (hw : w.item = none) (σ : LifecycleState) (r : ApplyResult) :
    Placed { c with state := σ, results := c.results ++ [(item.id, r)], worker := w } := by
  have hdone : answered { c with state := σ, results := c.results ++ [(item.id, r)], worker := w } =
      c.answered ++ [item.id] := by
    simp [answered]
  have hempty : held { c with state := σ, results := c.results ++ [(item.id, r)], worker := w } = [] := by
    rw [held, hw]
    rfl
  refine ⟨h.ids, ?_, h.order, ?_, ?_⟩
  · have hplaces := h.places
    rw [live, hheld] at hplaces
    rw [live, hdone, hempty]
    simpa [queued] using hplaces
  · intro other hother
    left
    rw [hdone, List.mem_append, List.mem_singleton]
    rcases h.served other hother with hold | hnow
    · exact Or.inl hold
    · rw [hheld, List.mem_singleton] at hnow
      exact Or.inr (congrArg Submission.id hnow)
  · intro other hother
    rw [hempty] at hother
    cases hother

/-- `_serve` answers the item it holds; it goes on, or drains the queue and
    ends. -/
theorem finish_cases {c c' : Coordinator} (h : c.Placed) {status : ApplyStatus}
    {code : Option PyStr} {issues : List Contracts.Issue} {applied : Option ℤ}
    (hstep : c.finish status code issues applied = some c') :
    ∃ item r, c.worker = .processing item ∧
      ((c.state = .failed ∧ ∃ replied : Coordinator,
          replied = { c with state := .failed, results := c.results ++ [(item.id, r)]
                             worker := .ended } ∧ c' = replied.drain "NOT_RUNNING") ∨
        (c.state ≠ .failed ∧
          c' = { c with state := c.steady.state, results := c.results ++ [(item.id, r)]
                        worker := .waiting })) := by
  unfold finish at hstep
  split at hstep
  · rename_i item hworker
    have hheld : c.held = [item] := by simp [held, hworker, WorkerTask.item]
    have hfresh : item.id ∉ c.answered := by
      have hnodup := h.nodup
      rw [live, hheld] at hnodup
      exact fun hmem => List.disjoint_of_nodup_append hnodup hmem (by simp)
    dsimp only at hstep
    generalize hr : c.steady.resultOf status code issues applied = r at hstep
    have hreplied : c.steady.answer item.id r =
        { c with state := c.steady.state, results := c.results ++ [(item.id, r)] } := by
      rw [answer, answered_steady, if_neg hfresh, steady_eq]
    rw [hreplied] at hstep
    dsimp only at hstep
    refine ⟨item, r, hworker, ?_⟩
    by_cases hfailed : c.state = .failed
    · have hsteady : c.steady.state = .failed := (steady_failed_iff c).mpr hfailed
      rw [hsteady, if_pos rfl] at hstep
      refine Or.inl ⟨hfailed, _, rfl, ?_⟩
      have hplaced := reply_placed (w := .ended) h hheld rfl .failed r
      have hnodup : (answered { c with state := .failed, results := c.results ++ [(item.id, r)] } ++
          c.queued.map (·.id)).Nodup := by
        have hall := hplaced.nodup
        exact hall
      rw [drain_eq _ _ hnodup] at hstep
      rw [drain_eq _ _ hplaced.nodup]
      exact (Option.some.inj hstep).symm
    · have hsteady : c.steady.state ≠ .failed := fun hf => hfailed ((steady_failed_iff c).mp hf)
      rw [if_neg hsteady] at hstep
      exact Or.inr ⟨hfailed, (Option.some.inj hstep).symm⟩
  · cases hstep

theorem finish_sound {c c' : Coordinator} (h : c.Sound) {status : ApplyStatus}
    {code : Option PyStr} {issues : List Contracts.Issue} {applied : Option ℤ}
    (hstep : c.finish status code issues applied = some c') : c'.Sound ∧ Advances c c' := by
  obtain ⟨item, r, hworker, hnext⟩ := finish_cases h.placed hstep
  have hstarted : c.starting = .ended := h.controlled.started (by simp [hworker])
  have hheld : c.held = [item] := by simp [held, hworker, WorkerTask.item]
  have halive : c.worker.alive = true := by rw [hworker]; rfl
  have hrunning : ∀ {s : StartTask}, s ≠ .ended → c.starting ≠ s := by
    intro s hs heq
    exact hs (heq.symm.trans hstarted)
  rcases hnext with ⟨hfailed, replied, rfl, rfl⟩ | ⟨hhealthy, rfl⟩
  · -- The agent failed: the rest of the queue is refused and the task ends.
    have hplaced := reply_placed (w := .ended) h.placed hheld rfl .failed r
    rw [drain_eq _ _ hplaced.nodup]
    refine ⟨⟨?_, ?_⟩, ?_⟩
    · rw [← drain_eq _ _ hplaced.nodup]
      exact hplaced.drain _
    · refine ⟨h.controlled.closing, fun _ => rfl, h.controlled.joined, ?_, fun _ => rfl, ?_, ?_,
        fun _ => Or.inr rfl, ?_, ?_, fun _ => Or.inr (by simp), fun _ => rfl⟩
      · intro hmem
        cases hmem
      · intro _ hstate
        cases hstate
      · intro hwaiting
        cases hwaiting
      · intro hne
        exact absurd hstarted hne
      · intro hr
        exact absurd hr (hrunning (by decide))
    · refine ⟨List.prefix_rfl, ?_, fun hd => ⟨hd, rfl⟩, fun _ => rfl⟩
      rw [List.append_assoc]
      exact List.prefix_append _ _
  · refine ⟨⟨reply_placed h.placed hheld rfl _ r, ?_⟩, ?_⟩
    · have hsteady : c.steady.state ≠ .failed := fun hf => hhealthy ((steady_failed_iff c).mp hf)
      refine ⟨h.controlled.closing, h.controlled.drained, h.controlled.joined, h.controlled.marked,
        ?_, fun _ _ => rfl, fun _ => hsteady, ?_, ?_, ?_, ?_,
        fun hclose => absurd (h.controlled.stopped hclose) (by simp [halive])⟩
      · intro hdead
        cases hdead
      · intro hended
        cases hended
      · intro hne
        exact absurd hstarted hne
      · intro hr
        exact absurd hr (hrunning (by decide))
      · intro _
        exact Or.inr (steady_ne_new c (fun hf => absurd hf hhealthy))
    · exact ⟨List.prefix_rfl, List.prefix_append _ _, fun hd => ⟨hd, rfl⟩,
        fun hended => absurd (hworker.symm.trans hended) (by simp)⟩

/-! ## Startup -/

theorem start_sound {c c' : Coordinator} (h : c.Sound) (hstep : c.start = some c') :
    c'.Sound ∧ Advances c c' := by
  unfold start at hstep
  split at hstep
  · cases hstep
  rename_i hnew
  rw [not_or, not_not, Bool.not_eq_true] at hnew
  obtain ⟨hstate, hopen⟩ := hnew
  have hstarting : c.starting = .absent := by
    by_contra hne
    rcases h.controlled.fresh hne with hclosing | hstate'
    · exact absurd (hopen.symm.trans hclosing) (by decide)
    · exact hstate' hstate
  have habsent : c.worker = .absent := h.controlled.unborn (by simp [hstarting])
  have hclose : ¬ c.Drained := fun hd =>
    absurd (hopen.symm.trans (h.controlled.closing.mpr hd.1)) (by decide)
  cases hstep
  refine ⟨⟨h.placed.of_same rfl rfl rfl rfl rfl, ?_⟩,
    List.prefix_rfl, List.prefix_rfl, fun hd => ⟨hd, rfl⟩, id⟩
  refine { h.controlled with joined := fun hd => absurd hd hclose, alive := ?_, healthy := ?_,
                             ended := ?_, unborn := fun _ => habsent, born := fun _ => by simp,
                             fresh := fun _ => Or.inr (by simp) }
  · intro _ hstate'
    cases hstate'
  · intro _
    simp
  · intro hended
    exact absurd (habsent.symm.trans hended) (by decide)

theorem startLoads_sound {c c' : Coordinator} (h : c.Sound) {snapshot : Option ConfigSnapshot}
    (hstep : c.startLoads snapshot = some c') : c'.Sound ∧ Advances c c' := by
  unfold startLoads at hstep
  split at hstep
  · cases hstep
    exact ⟨⟨h.placed.of_same rfl rfl rfl rfl rfl, { h.controlled with }⟩,
      List.prefix_rfl, List.prefix_rfl, fun hd => ⟨hd, rfl⟩, id⟩
  · cases hstep

theorem startReturns_sound {c c' : Coordinator} (h : c.Sound) {active : Option ConfigSnapshot}
    (hstep : c.startReturns active = some c') : c'.Sound ∧ Advances c c' := by
  unfold startReturns at hstep
  split at hstep
  · rename_i hrunning
    have habsent : c.worker = .absent := h.controlled.unborn (by simp [hrunning])
    have hhealthy : c.state ≠ .failed := h.controlled.born hrunning
    -- While it starts, the coordinator holds no item and is not closed.
    have hheld : c.held = [] := by simp [held, habsent, WorkerTask.item]
    have hopen : ¬ c.Drained := by
      intro hd
      rcases h.controlled.joined hd with hj | hj
      · exact absurd (hrunning.symm.trans hj) (by decide)
      · exact absurd (hrunning.symm.trans hj) (by decide)
    rw [steady_eq] at hstep
    generalize hσ : ({ c with active := active } : Coordinator).steady.state = σ at hstep
    have hfailed : σ ≠ .failed := by
      rw [← hσ]
      exact fun hf => hhealthy
        ((steady_failed_iff ({ c with active := active } : Coordinator)).mp hf)
    have hnew : σ ≠ .new := by
      rw [← hσ]
      exact steady_ne_new _ (fun hf => absurd hf hhealthy)
    cases hstep
    refine ⟨⟨h.placed.of_same rfl rfl rfl rfl hheld.symm, ?_⟩, ?_⟩
    · refine ⟨h.controlled.closing, h.controlled.drained, fun hd => absurd hd hopen,
        h.controlled.marked, ?_, fun _ _ => rfl, fun _ => hfailed, ?_, ?_, ?_, fun _ => Or.inr hnew,
        ?_⟩
      · intro hdead
        cases hdead
      · intro hended
        cases hended
      · intro hne
        exact absurd rfl hne
      · intro hr
        cases hr
      · intro hclose
        refine absurd ⟨?_, ?_⟩ hopen
        · rcases hclose with hc | hc <;> exact fun ha => absurd (hc.symm.trans ha) (by decide)
        · rcases hclose with hc | hc <;> exact fun ha => absurd (hc.symm.trans ha) (by decide)
    · exact ⟨List.prefix_rfl, List.prefix_rfl, fun hd => ⟨hd, rfl⟩,
        fun hended => absurd (habsent.symm.trans hended) (by decide)⟩
  · cases hstep

theorem startFails_sound {c c' : Coordinator} (h : c.Sound) (hstep : c.startFails = some c') :
    c'.Sound ∧ Advances c c' := by
  unfold startFails at hstep
  split at hstep
  · rename_i hrunning
    have habsent : c.worker = .absent := h.controlled.unborn (by simp [hrunning])
    have hopen : ¬ c.Drained := by
      intro hd
      rcases h.controlled.joined hd with hj | hj
      · exact absurd (hrunning.symm.trans hj) (by decide)
      · exact absurd (hrunning.symm.trans hj) (by decide)
    cases hstep
    refine ⟨⟨h.placed.of_same rfl rfl rfl rfl rfl, ?_⟩,
      List.prefix_rfl, List.prefix_rfl, fun hd => ⟨hd, rfl⟩, id⟩
    refine { h.controlled with joined := fun hd => absurd hd hopen, alive := ?_, healthy := ?_,
                               ended := fun _ => Or.inr rfl, unborn := fun _ => habsent,
                               born := ?_, fresh := fun _ => Or.inr (by simp) }
    · intro _ hstate
      cases hstate
    · intro hwaiting
      exact absurd (habsent.symm.trans hwaiting) (by decide)
    · intro hr
      cases hr
  · cases hstep

theorem startRaises_sound {c c' : Coordinator} (h : c.Sound) (hstep : c.startRaises = some c') :
    c'.Sound ∧ Advances c c' := by
  unfold startRaises at hstep
  split at hstep
  · rename_i hfailing
    have hne : c.starting ≠ .absent := by simp [hfailing]
    cases hstep
    refine ⟨⟨h.placed.of_same rfl rfl rfl rfl rfl, ?_⟩,
      List.prefix_rfl, List.prefix_rfl, fun hd => ⟨hd, rfl⟩, id⟩
    refine { h.controlled with joined := fun _ => Or.inr rfl, unborn := ?_, born := ?_,
                               fresh := fun _ => h.controlled.fresh hne }
    · intro hended
      exact absurd rfl hended
    · intro hr
      cases hr
  · cases hstep

/-! ## Shutdown -/

theorem beginClose_sound {c : Coordinator} (h : c.Sound) :
    c.beginClose.Sound ∧ Advances c c.beginClose := by
  unfold beginClose
  split
  · rename_i habsent
    have hfailed : (if c.state = .failed then LifecycleState.failed else .stopping) = .failed ↔
        c.state = .failed := by
      split <;> simp [*]
    refine ⟨⟨h.placed.of_same rfl rfl rfl rfl rfl, ?_⟩, ?_⟩
    · refine ⟨by simp, ?_, ?_, ?_, h.controlled.served, ?_, ?_, fun _ => Or.inl rfl,
        h.controlled.unborn, ?_, fun _ => Or.inl rfl, ?_⟩
      · exact fun hd => absurd rfl hd.2
      · exact fun hd => absurd rfl hd.2
      · intro hmem
        exact absurd habsent (h.controlled.marked hmem).1
      · intro hopen
        cases hopen
      · intro hwaiting
        exact fun hf => h.controlled.healthy hwaiting (hfailed.mp hf)
      · intro hr
        exact fun hf => h.controlled.born hr (hfailed.mp hf)
      · intro hclose
        rcases hclose with hc | hc <;> cases hc
    · exact ⟨List.prefix_rfl, List.prefix_rfl, fun hd => absurd habsent hd.1, id⟩
  · exact ⟨h, Advances.refl c⟩

theorem closeDrains_sound {c c' : Coordinator} (h : c.Sound) (hstep : c.closeDrains = some c') :
    c'.Sound ∧ Advances c c' := by
  unfold closeDrains at hstep
  split at hstep
  · rename_i hready
    obtain ⟨hclose, hjoined⟩ := hready
    have hclosing : c.closing = true := h.controlled.closing.mpr (by simp [hclose])
    have hopen : ¬ c.Drained := fun hd => hd.2 hclose
    have hnodup : (c.answered ++ c.queued.map (·.id)).Nodup := by
      refine h.placed.nodup.sublist (List.Sublist.append_left ?_ _)
      rw [live, List.map_append]
      exact List.sublist_append_right _ _
    have hplaced := h.placed.drain "STOPPING"
    rw [drain_eq _ _ hnodup] at hstep hplaced
    dsimp only at hstep
    have hadvances : ∀ (q : List (Option Submission)) (t : CloseTask), t ≠ .absent → t ≠ .startup →
        Advances c { c with results := c.results ++ c.queued.map fun s => (s.id, c.refusal "STOPPING")
                            queue := q, close := t } := by
      intro q t ht ht'
      exact ⟨List.prefix_rfl, List.prefix_append _ _, fun hd => absurd hd hopen, id⟩
    split at hstep
    · -- The coordinator is there to be told.
      rename_i halive
      cases hstep
      refine ⟨⟨hplaced.of_same rfl rfl rfl rfl rfl, ?_⟩, hadvances _ _ (by decide) (by decide)⟩
      refine { h.controlled with closing := ?_, drained := fun _ => rfl, joined := fun _ => hjoined,
                                 marked := fun _ => ⟨by simp, by simp⟩, served := fun _ => rfl,
                                 stopped := ?_ }
      · simp [hclosing]
      · intro hclose
        rcases hclose with hc | hc <;> cases hc
    · rename_i hdead
      rw [Bool.not_eq_true] at hdead
      cases hstep
      refine ⟨⟨hplaced.of_same rfl rfl rfl rfl rfl, ?_⟩, hadvances _ _ (by decide) (by decide)⟩
      refine { h.controlled with closing := ?_, drained := fun _ => rfl, joined := fun _ => hjoined,
                                 marked := fun _ => ⟨by simp, by simp⟩, served := fun _ => rfl,
                                 stopped := fun _ => hdead }
      simp [hclosing]
  · cases hstep

/-- The later steps of `_close` find the queue drained and no coordinator. -/
theorem closeOn_sound {c : Coordinator} (h : c.Sound) (hdrained : c.Drained)
    (hdead : c.worker.alive = false) {t : CloseTask} (ht : t ≠ .absent ∧ t ≠ .startup)
    (σ : LifecycleState) :
    Sound { c with close := t, state := σ } ∧ Advances c { c with close := t, state := σ } := by
  have hclosing : c.closing = true := h.controlled.closing.mpr hdrained.1
  refine ⟨⟨h.placed.of_same rfl rfl rfl rfl rfl, ?_⟩,
    List.prefix_rfl, List.prefix_rfl, fun _ => ⟨ht, rfl⟩, id⟩
  refine { h.controlled with closing := ?_, drained := fun _ => h.controlled.drained hdrained,
                             joined := fun _ => h.controlled.joined hdrained,
                             marked := fun _ => ht, alive := ?_, healthy := ?_,
                             ended := fun _ => Or.inl hclosing, born := ?_,
                             fresh := fun _ => Or.inl hclosing, stopped := fun _ => hdead }
  · simp [hclosing, ht.1]
  · intro hopen
    exact absurd (hclosing.symm.trans hopen) (by decide)
  · intro hwaiting
    rw [show c.worker = .waiting from hwaiting] at hdead
    cases hdead
  · intro hrunning
    rcases h.controlled.joined hdrained with hj | hj
    · exact absurd (hj.symm.trans hrunning) (by decide)
    · exact absurd (hj.symm.trans hrunning) (by decide)

theorem closeJoins_sound {c c' : Coordinator} (h : c.Sound) (hstep : c.closeJoins = some c') :
    c'.Sound ∧ Advances c c' := by
  unfold closeJoins at hstep
  split at hstep
  · rename_i hready
    cases hstep
    have hdrained : c.Drained := ⟨by simp [hready.1], by simp [hready.1]⟩
    exact closeOn_sound h hdrained hready.2 ⟨by decide, by decide⟩ c.state
  · cases hstep

theorem closeEnds_sound {c c' : Coordinator} (h : c.Sound) {failed : Bool}
    (hstep : c.closeEnds failed = some c') : c'.Sound ∧ Advances c c' := by
  unfold closeEnds at hstep
  split at hstep
  · rename_i hclose
    cases hstep
    have hdrained : c.Drained := ⟨by simp [hclose], by simp [hclose]⟩
    have hdead : c.worker.alive = false := h.controlled.stopped (Or.inl hclose)
    exact closeOn_sound h hdrained hdead ⟨by decide, by decide⟩ _
  · cases hstep

/-! ## Every step -/

theorem whenReady_sound {c : Coordinator} (h : c.Sound) {next : Option Coordinator}
    (hnext : ∀ c', next = some c' → c'.Sound ∧ Advances c c') :
    (c.whenReady next).1.Sound ∧ Advances c (c.whenReady next).1 := by
  cases next with
  | none => exact ⟨h, Advances.refl c⟩
  | some c' => exact hnext c' rfl

theorem step_sound {capacity : QueueCapacity} {c : Coordinator} (h : c.Sound)
    (s : CoordinatorStep) : (c.step capacity s).1.Sound ∧ Advances c (c.step capacity s).1 := by
  cases s with
  | submit payload kind => exact submit_sound h payload kind
  | cancelCaller id =>
    exact ⟨⟨h.placed.of_same rfl rfl rfl rfl rfl, { h.controlled with }⟩,
      List.prefix_rfl, List.prefix_rfl, fun hd => ⟨hd, rfl⟩, fun he => he⟩
  | start => exact whenReady_sound h fun _ => start_sound h
  | startLoads snapshot => exact whenReady_sound h fun _ => startLoads_sound h
  | startReturns active => exact whenReady_sound h fun _ => startReturns_sound h
  | startFails => exact whenReady_sound h fun _ => startFails_sound h
  | startRaises => exact whenReady_sound h fun _ => startRaises_sound h
  | take => exact whenReady_sound h fun _ => take_sound h
  | apply s => exact whenReady_sound h fun _ => apply_sound h
  | finish status code issues applied => exact whenReady_sound h fun _ => finish_sound h
  | close => exact beginClose_sound h
  | closeDrains => exact whenReady_sound h fun _ => closeDrains_sound h
  | closeJoins => exact whenReady_sound h fun _ => closeJoins_sound h
  | closeEnds failed => exact whenReady_sound h fun _ => closeEnds_sound h

/-! ## Progress -/

/-- How many steps of the coordinator task an unanswered submission is away
    from its result. -/
def turns (c : Coordinator) (id : ℕ) : ℕ :=
  if id ∈ c.held.map (·.id) then 1
  else c.held.length + 2 * ((c.queued.map (·.id)).idxOf id + 1)

theorem turns_of_same {c c' : Coordinator} (hheld : c'.held = c.held)
    (hqueued : c'.queued = c.queued) (id : ℕ) : c'.turns id = c.turns id := by
  rw [turns, turns, hheld, hqueued]

/-- An accepted submission that is not answered is held or queued. -/
theorem Placed.mem_live {c : Coordinator} (h : c.Placed) {id : ℕ}
    (haccepted : id ∈ c.accepted.map (·.id)) (hopen : id ∉ c.answered) :
    id ∈ c.held.map (·.id) ∨ id ∈ c.queued.map (·.id) := by
  have hplace := h.places.mem_iff.mpr haccepted
  rw [live, List.map_append, List.mem_append, List.mem_append] at hplace
  rcases hplace with hdone | hlive
  · exact absurd hdone hopen
  · exact hlive

theorem submit_turns {capacity : QueueCapacity} {c : Coordinator} (h : c.Sound)
    (payload : Option Bytes) (kind : PyStr) {id : ℕ} (haccepted : id ∈ c.accepted.map (·.id))
    (hopen : id ∉ c.answered) : (c.submit capacity payload kind).1.turns id = c.turns id := by
  rcases submit_cases capacity c payload kind with ⟨code, heq⟩ | ⟨item, -, -, -, -, -, heq⟩
  · rw [heq]
  rw [heq, turns, turns]
  have hqueued : queued { c with queue := c.queue ++ [some item]
                                 accepted := c.accepted ++ [item] } = c.queued ++ [item] := by
    simp [queued, List.reduceOption_append]
  rw [hqueued]
  rcases h.placed.mem_live haccepted hopen with hheld | hqueue
  · rw [if_pos hheld]
    exact if_pos hheld
  · rw [List.map_append, List.idxOf_append_of_mem hqueue]
    rfl

theorem take_turns {c c' : Coordinator} (h : c.Sound) (hstep : c.take = some c') {id : ℕ}
    (haccepted : id ∈ c.accepted.map (·.id)) (hopen : id ∉ c.answered) :
    1 + c'.turns id = c.turns id := by
  obtain ⟨hworker, ⟨item, rest, hqueue, rfl⟩ | ⟨rest, hqueue, rfl⟩⟩ := take_cases hstep
  · have hheld : c.held = [] := by simp [held, hworker, WorkerTask.item]
    have hqueued : c.queued = item :: rest.reduceOption := by
      rw [queued, hqueue, List.reduceOption_cons_of_some]
    have hbefore : c.turns id = 2 * ((item.id :: rest.reduceOption.map (·.id)).idxOf id + 1) := by
      rw [turns, hheld, hqueued]
      simp
    rw [hbefore]
    by_cases hid : item.id = id
    · rw [hid, List.idxOf_cons_self]
      simp [turns, held, WorkerTask.item, hid]
    · rw [List.idxOf_cons_ne _ hid]
      have hother : ¬ id = item.id := fun he => hid he.symm
      simp only [turns, held, WorkerTask.item, Option.toList_some, List.map_cons, List.map_nil,
        List.mem_singleton, hother, if_false, List.length_singleton, queued]
      omega
  · -- The stop marker is found in an empty queue.
    exfalso
    have hdrained : c.Drained := h.controlled.marked (by rw [hqueue]; exact List.mem_cons_self)
    rcases h.placed.mem_live haccepted hopen with hheld | hqueued
    · rw [held, hworker] at hheld
      cases hheld
    · rw [h.controlled.drained hdrained] at hqueued
      cases hqueued

theorem finish_turns {c c' : Coordinator} (h : c.Sound) {status : ApplyStatus}
    {code : Option PyStr} {issues : List Contracts.Issue} {applied : Option ℤ}
    (hstep : c.finish status code issues applied = some c') {id : ℕ}
    (haccepted : id ∈ c.accepted.map (·.id)) (hopen : id ∉ c'.answered) :
    1 + c'.turns id = c.turns id := by
  have hplaced := (finish_sound h hstep).1.placed
  obtain ⟨item, r, hworker, ⟨hfailed, replied, hreplied, hc'⟩ | ⟨hhealthy, hc'⟩⟩ :=
    finish_cases h.placed hstep
  · -- Nothing is left after the drain.
    exfalso
    rw [drain_same] at hc'
    have hlist : c'.accepted = c.accepted := by rw [hc', hreplied]
    have hheld : c'.held = [] := by rw [hc', hreplied]; rfl
    have hqueued : c'.queued = [] := by rw [hc']; rfl
    rcases hplaced.mem_live (by rw [hlist]; exact haccepted) hopen with hmem | hmem
    · rw [hheld] at hmem
      cases hmem
    · rw [hqueued] at hmem
      cases hmem
  · have hheld : c.held = [item] := by simp [held, hworker, WorkerTask.item]
    have hheld' : c'.held = [] := by rw [hc']; rfl
    have hqueued : c'.queued = c.queued := by rw [hc']; rfl
    have hother : id ≠ item.id := by
      rintro rfl
      apply hopen
      rw [hc']
      simp [answered]
    rw [turns, turns, hheld, hheld', hqueued]
    simp [hother]

theorem closeDrains_turns {c c' : Coordinator} (h : c.Sound) (hstep : c.closeDrains = some c')
    {id : ℕ} (haccepted : id ∈ c.accepted.map (·.id)) (hopen : id ∉ c'.answered) :
    c'.turns id = c.turns id := by
  have hplaced := (closeDrains_sound h hstep).1.placed
  have hsame : c'.accepted = c.accepted ∧ c'.held = c.held ∧ c'.queued = [] := by
    unfold closeDrains at hstep
    rw [drain_same] at hstep
    split at hstep
    · dsimp only at hstep
      split at hstep <;> cases hstep <;> exact ⟨rfl, rfl, rfl⟩
    · cases hstep
  obtain ⟨hlist, hheld, hqueued⟩ := hsame
  -- What the drain left open is in the hands of the coordinator.
  have hmem : id ∈ c.held.map (·.id) := by
    rcases hplaced.mem_live (by rw [hlist]; exact haccepted) hopen with hmem | hmem
    · rwa [hheld] at hmem
    · rw [hqueued] at hmem
      cases hmem
  rw [turns, turns, hheld, if_pos hmem, if_pos hmem]

/-! ## Cancelled callers -/

/-- The same state for the same tasks: callers apart. -/
def forget (c : Coordinator) : Coordinator := { c with cancelled := [] }

theorem answer_forget (c : Coordinator) (id : ℕ) (r : ApplyResult) :
    c.forget.answer id r = (c.answer id r).forget := by
  simp only [answer]
  by_cases hdone : id ∈ c.answered
  · rw [if_pos hdone, if_pos (show id ∈ c.forget.answered from hdone)]
  · rw [if_neg hdone, if_neg (show id ∉ c.forget.answered from hdone)]
    rfl

theorem drop_forget (code : String) (c : Coordinator) (entry : Option Submission) :
    Coordinator.drop code c.forget entry = (Coordinator.drop code c entry).forget := by
  cases entry with
  | none => rfl
  | some item =>
    exact answer_forget c item.id (c.refusal code)

theorem drain_forget (c : Coordinator) (code : String) :
    c.forget.drain code = (c.drain code).forget := by
  have hfold : ∀ (q : List (Option Submission)) (c : Coordinator),
      q.foldl (Coordinator.drop code) c.forget = (q.foldl (Coordinator.drop code) c).forget := by
    intro q
    induction q with
    | nil => intro c; rfl
    | cons entry q ih =>
      intro c
      rw [List.foldl_cons, drop_forget, ih, List.foldl_cons]
  rw [drain, drain, show c.forget.queue = c.queue from rfl, hfold]
  rfl

theorem steady_forget (c : Coordinator) : c.forget.steady = c.steady.forget := by
  unfold steady
  rw [show c.forget.state = c.state from rfl, show c.forget.closing = c.closing from rfl,
    show c.forget.active = c.active from rfl]
  split_ifs
  · rfl
  · rfl
  · split <;> rfl

theorem submit_forget (capacity : QueueCapacity) (c : Coordinator) (payload : Option Bytes)
    (kind : PyStr) :
    c.forget.submit capacity payload kind =
      ((c.submit capacity payload kind).1.forget, (c.submit capacity payload kind).2) := by
  unfold submit
  rw [show c.forget.closing = c.closing from rfl, show c.forget.state = c.state from rfl]
  cases payload with
  | none => split_ifs <;> rfl
  | some payload =>
    dsimp only
    cases ItemKind.ofName kind with
    | none => split_ifs <;> rfl
    | some kind =>
      dsimp only
      rw [show c.forget.queue = c.queue from rfl]
      split_ifs <;> rfl

theorem take_forget (c : Coordinator) : c.forget.take = c.take.map forget := by
  rcases c with ⟨state, closing, durableVersion, active, queue, worker⟩
  cases worker <;> rcases queue with - | ⟨- | item, rest⟩ <;> rfl

theorem finish_forget (c : Coordinator) (status : ApplyStatus) (code : Option PyStr)
    (issues : List Contracts.Issue) (applied : Option ℤ) :
    c.forget.finish status code issues applied =
      (c.finish status code issues applied).map forget := by
  have hworker : c.forget.worker = c.worker := rfl
  unfold finish
  rw [hworker]
  cases c.worker with
  | processing item =>
    dsimp only
    rw [steady_forget]
    generalize c.steady = settled
    have hresult : settled.forget.resultOf status code issues applied =
        settled.resultOf status code issues applied := rfl
    rw [hresult, answer_forget]
    generalize settled.answer item.id (settled.resultOf status code issues applied) = replied
    rw [drain_forget]
    by_cases hfailed : replied.state = .failed
    · rw [if_pos hfailed, if_pos (show replied.forget.state = .failed from hfailed)]
      rfl
    · rw [if_neg hfailed, if_neg (show ¬ replied.forget.state = .failed from hfailed)]
      rfl
  | absent | waiting | ended => rfl

theorem closeDrains_forget (c : Coordinator) : c.forget.closeDrains = c.closeDrains.map forget := by
  unfold closeDrains
  rw [drain_forget]
  dsimp only
  have hclose : c.forget.close = c.close := rfl
  have hstarting : c.forget.starting = c.starting := rfl
  have hworker : c.forget.worker = c.worker := rfl
  rw [hclose, hstarting, hworker]
  split_ifs <;> rfl

theorem startReturns_forget (c : Coordinator) (active : Option ConfigSnapshot) :
    c.forget.startReturns active = (c.startReturns active).map forget := by
  have hsteady := steady_forget { c with active := active }
  simp only [startReturns]
  rw [show c.forget.starting = c.starting from rfl]
  split_ifs
  · refine congrArg some ?_
    exact congrArg (fun b : Coordinator => { b with worker := .waiting, starting := .ended }) hsteady
  · rfl

theorem whenReady_forget {c : Coordinator} {next next' : Option Coordinator}
    (h : next' = next.map forget) :
    c.forget.whenReady next' = ((c.whenReady next).1.forget, (c.whenReady next).2) := by
  rw [h]
  cases next <;> rfl

/-- A step of any task is blind to the callers that were cancelled. -/
theorem step_forget (capacity : QueueCapacity) (c : Coordinator) {s : CoordinatorStep}
    (hs : ∀ id, s ≠ .cancelCaller id) :
    c.forget.step capacity s = ((c.step capacity s).1.forget, (c.step capacity s).2) := by
  cases s with
  | submit payload kind => exact submit_forget capacity c payload kind
  | cancelCaller id => exact absurd rfl (hs id)
  | start =>
    refine whenReady_forget ?_
    unfold start
    rw [show c.forget.state = c.state from rfl, show c.forget.closing = c.closing from rfl]
    split_ifs <;> rfl
  | startLoads snapshot =>
    refine whenReady_forget ?_
    unfold startLoads
    rw [show c.forget.starting = c.starting from rfl]
    split_ifs <;> rfl
  | startReturns active => exact whenReady_forget (startReturns_forget c active)
  | startFails =>
    refine whenReady_forget ?_
    unfold startFails
    rw [show c.forget.starting = c.starting from rfl]
    split_ifs <;> rfl
  | startRaises =>
    refine whenReady_forget ?_
    unfold startRaises
    rw [show c.forget.starting = c.starting from rfl]
    split_ifs <;> rfl
  | take => exact whenReady_forget (take_forget c)
  | apply s =>
    refine whenReady_forget ?_
    rcases c with ⟨state, closing, durableVersion, active, queue, worker⟩
    cases worker <;> cases s <;> rfl
  | finish status code issues applied =>
    exact whenReady_forget (finish_forget c status code issues applied)
  | close =>
    simp only [step, beginClose]
    rw [show c.forget.close = c.close from rfl, show c.forget.state = c.state from rfl]
    split_ifs <;> rfl
  | closeDrains => exact whenReady_forget (closeDrains_forget c)
  | closeJoins =>
    refine whenReady_forget ?_
    unfold closeJoins
    rw [show c.forget.close = c.close from rfl, show c.forget.worker = c.worker from rfl]
    split_ifs <;> rfl
  | closeEnds failed =>
    refine whenReady_forget ?_
    unfold closeEnds
    rw [show c.forget.close = c.close from rfl, show c.forget.state = c.state from rfl]
    split_ifs <;> rfl

end Coordinator

/-! ## Runs -/

/-- A step of the coordinator task itself. -/
def CoordinatorStep.serves : CoordinatorStep → Bool
  | .take | .finish .. => true
  | _ => false

/-- A caller is cancelled. -/
def CoordinatorStep.cancels : CoordinatorStep → Bool
  | .cancelCaller _ => true
  | _ => false

abbrev ServingStep := Step CoordinatorStep Coordinator Empty CoordinatorAnswer

/-- The submission a step accepted. -/
def ServingStep.accepted (st : ServingStep) : Option Submission :=
  match st.call, st.result with
  | .submit (some payload) kind, .ok (.accepted id) =>
    (ItemKind.ofName kind).map fun kind => ⟨id, payload, kind⟩
  | _, _ => none

/-- The coordinator task went on. -/
def ServingStep.served (st : ServingStep) : Bool :=
  st.call.serves && decide (st.result = .ok .done)

variable (capacity : QueueCapacity)

/-- The state after a sequence of steps of a new lifecycle. -/
def served (calls : List CoordinatorStep) : Coordinator :=
  runCalls (CoordinatorStep.exec capacity) {} calls

/-- What a run does with the submissions it accepts. -/
structure SubmissionsServed (calls : List CoordinatorStep) : Prop where
  /-- The accepted submissions are those the callers were told of. -/
  accepted : (trace (CoordinatorStep.exec capacity) {} calls).filterMap ServingStep.accepted =
    (served capacity calls).accepted
  /-- Each of them has one result, or is held by the coordinator, or is queued. -/
  places : ((served capacity calls).answered ++ (served capacity calls).live.map (·.id)).Perm
    ((served capacity calls).accepted.map (·.id))
  distinct : ((served capacity calls).accepted.map (·.id)).Nodup
  /-- A result stays. -/
  kept : ∀ past rest, calls = past ++ rest →
    (served capacity past).results <+: (served capacity calls).results
  /-- One at a time, in the order accepted. -/
  order : ((served capacity calls).begun ++ (served capacity calls).queued).Sublist
    (served capacity calls).accepted
  single : ∀ item ∈ (served capacity calls).begun,
    item.id ∈ (served capacity calls).answered ∨ (served capacity calls).worker = .processing item
  /-- Nothing begins once the shutdown has drained the queue. -/
  drained : ∀ past rest, calls = past ++ rest → (served capacity past).Drained →
    (served capacity calls).begun = (served capacity past).begun
  /-- Without the cancellations of callers the run is the same. -/
  cancelled : served capacity (calls.filter fun s => !s.cancels) =
    { served capacity calls with cancelled := [] }
  /-- After the coordinator task nothing is open, and nothing is accepted. -/
  ended : ∀ past rest, calls = past ++ rest → (served capacity past).worker = .ended →
    (∀ item ∈ (served capacity calls).accepted, item.id ∈ (served capacity calls).answered) ∧
      ∀ payload kind, ∃ code, (served capacity calls).submit capacity payload kind =
        (served capacity calls, .rejected ((served capacity calls).refusal code))
  /-- While a submission is open the coordinator can go on, and each of its
      steps brings the result nearer. -/
  progress : ∀ past rest, calls = past ++ rest → ∀ item ∈ (served capacity past).accepted,
    item.id ∉ (served capacity calls).answered →
      ((served capacity calls).take.isSome ∨ ∀ status code issues applied,
        ((served capacity calls).finish status code issues applied).isSome) ∧
      ((trace (CoordinatorStep.exec capacity) (served capacity past) rest).filter
          ServingStep.served).length + (served capacity calls).turns item.id =
        (served capacity past).turns item.id

namespace Coordinator

variable {capacity}

theorem perform_step (c : Coordinator) (s : CoordinatorStep) :
    perform (CoordinatorStep.exec capacity) c s =
      ⟨c, s, .ok (c.step capacity s).2, (c.step capacity s).1⟩ := rfl

theorem exec_keeps (s : CoordinatorStep) : Keeps Sound (CoordinatorStep.exec capacity s) :=
  fun _ hc => (step_sound hc s).1

theorem perform_sound {c : Coordinator} (h : c.Sound) (s : CoordinatorStep) :
    Advances c (perform (CoordinatorStep.exec capacity) c s).after ∧
      (perform (CoordinatorStep.exec capacity) c s).after.Sound :=
  ⟨(step_sound h s).2, (step_sound h s).1⟩

theorem runs_sound {c : Coordinator} (h : c.Sound) (calls : List CoordinatorStep) :
    (runCalls (CoordinatorStep.exec capacity) c calls).Sound ∧
      Advances c (runCalls (CoordinatorStep.exec capacity) c calls) := by
  constructor
  · exact runCalls_invariant exec_keeps h calls
  · exact runCalls_moves Advances.refl (fun _ _ _ => Advances.trans)
      (fun c s hc => perform_sound hc s) h calls

/-- Past the end of the coordinator task every submission is refused. -/
theorem submit_ended {c : Coordinator} (h : c.Sound) (hended : c.worker = .ended)
    (payload : Option Bytes) (kind : PyStr) :
    ∃ code, c.submit capacity payload kind = (c, .rejected (c.refusal code)) := by
  rcases submit_cases capacity c payload kind with hrefused | ⟨item, -, -, -, hclosing, hstate, -⟩
  · exact hrefused
  · have halive := h.controlled.alive hclosing hstate
    rw [hended] at halive
    cases halive

/-- While a submission is open, `_serve` can take an entry or end its item. -/
theorem can_serve {c : Coordinator} (h : c.Sound) {id : ℕ}
    (haccepted : id ∈ c.accepted.map (·.id)) (hopen : id ∉ c.answered) :
    c.take.isSome ∨ ∀ status code issues applied,
      (c.finish status code issues applied).isSome := by
  rcases h.placed.mem_live haccepted hopen with hheld | hqueued
  · right
    intro status code issues applied
    unfold finish
    cases hworker : c.worker with
    | processing item =>
      dsimp only
      split <;> rfl
    | absent | waiting | ended =>
      rw [held, hworker] at hheld
      cases hheld
  · have halive : c.worker.alive = true := by
      by_contra hdead
      rw [Bool.not_eq_true] at hdead
      rw [h.controlled.served hdead] at hqueued
      cases hqueued
    cases hworker : c.worker with
    | processing item =>
      right
      intro status code issues applied
      simp only [finish, hworker]
      split <;> rfl
    | waiting =>
      left
      unfold take
      rw [hworker]
      rcases hqueue : c.queue with - | ⟨entry, rest⟩
      · rw [queued, hqueue] at hqueued
        cases hqueued
      · cases entry <;> rfl
    | absent | ended =>
      rw [hworker] at halive
      cases halive

theorem Advances.answered {c c' : Coordinator} (h : Advances c c') {id : ℕ}
    (hopen : id ∉ c'.answered) : id ∉ c.answered := fun hdone =>
  hopen ((h.results.map Prod.fst).subset hdone)

theorem whenReady_turns {c : Coordinator} {next : Option Coordinator} {id : ℕ}
    (hnext : ∀ c', next = some c' → id ∉ c'.answered → c'.turns id = c.turns id)
    (hopen : id ∉ (c.whenReady next).1.answered) : (c.whenReady next).1.turns id = c.turns id := by
  cases next with
  | none => rfl
  | some c' => exact hnext c' rfl hopen

/-- The other tasks bring an open submission no nearer to its result. -/
theorem other_turns {c : Coordinator} (h : c.Sound) {s : CoordinatorStep} (hs : s.serves = false)
    {id : ℕ} (haccepted : id ∈ c.accepted.map (·.id))
    (hopen : id ∉ (c.step capacity s).1.answered) :
    (c.step capacity s).1.turns id = c.turns id := by
  cases s with
  | submit payload kind =>
    exact submit_turns h payload kind haccepted ((step_sound h _).2.answered hopen)
  | cancelCaller id' => exact turns_of_same rfl rfl id
  | start =>
    refine whenReady_turns (fun c' hnext _ => ?_) hopen
    unfold start at hnext
    split at hnext <;> cases hnext
    exact turns_of_same rfl rfl id
  | startLoads snapshot =>
    refine whenReady_turns (fun c' hnext _ => ?_) hopen
    unfold startLoads at hnext
    split at hnext <;> cases hnext
    exact turns_of_same rfl rfl id
  | startReturns active =>
    refine whenReady_turns (fun c' hnext _ => ?_) hopen
    unfold startReturns at hnext
    split at hnext <;> cases hnext
    rename_i hrunning hopen'
    -- No worker runs yet, so nothing is held.
    have habsent : c.worker = .absent := h.controlled.unborn (by simp [hrunning])
    refine turns_of_same ?_ ?_ id
    · rw [held, held, habsent]
      rfl
    · rw [steady_eq]
      rfl
  | startFails =>
    refine whenReady_turns (fun c' hnext _ => ?_) hopen
    unfold startFails at hnext
    split at hnext <;> cases hnext
    exact turns_of_same rfl rfl id
  | startRaises =>
    refine whenReady_turns (fun c' hnext _ => ?_) hopen
    unfold startRaises at hnext
    split at hnext <;> cases hnext
    exact turns_of_same rfl rfl id
  | take => cases hs
  | apply s =>
    refine whenReady_turns (fun c' hnext _ => ?_) hopen
    unfold apply at hnext
    split at hnext
    · cases s <;> cases hnext <;> exact turns_of_same rfl rfl id
    · cases hnext
  | finish status code issues applied => cases hs
  | close =>
    refine turns_of_same ?_ ?_ id
    · simp only [step, beginClose]
      split <;> rfl
    · simp only [step, beginClose]
      split <;> rfl
  | closeDrains =>
    exact whenReady_turns (fun c' hnext hc' => closeDrains_turns h hnext haccepted hc') hopen
  | closeJoins =>
    refine whenReady_turns (fun c' hnext _ => ?_) hopen
    unfold closeJoins at hnext
    split at hnext <;> cases hnext
    exact turns_of_same rfl rfl id
  | closeEnds failed =>
    refine whenReady_turns (fun c' hnext _ => ?_) hopen
    unfold closeEnds at hnext
    split at hnext <;> cases hnext
    exact turns_of_same rfl rfl id

/-- Every step of `_serve` brings an open submission nearer to its result. -/
theorem serve_turns {c : Coordinator} (h : c.Sound) {s : CoordinatorStep} (hs : s.serves = true)
    (hdone : (c.step capacity s).2 = .done) {id : ℕ} (haccepted : id ∈ c.accepted.map (·.id))
    (hopen : id ∉ (c.step capacity s).1.answered) :
    1 + (c.step capacity s).1.turns id = c.turns id := by
  have hbefore : id ∉ c.answered := (step_sound h s).2.answered hopen
  cases s with
  | take =>
    cases hnext : c.take with
    | none =>
      simp only [step, hnext, whenReady] at hdone
      cases hdone
    | some c' =>
      simp only [step, hnext, whenReady]
      exact take_turns h hnext haccepted hbefore
  | finish status code issues applied =>
    cases hnext : c.finish status code issues applied with
    | none =>
      simp only [step, hnext, whenReady] at hdone
      cases hdone
    | some c' =>
      simp only [step, hnext, whenReady] at hopen ⊢
      exact finish_turns h hnext haccepted hopen
  | submit | cancelCaller | start | startLoads | startReturns | startFails | startRaises | apply
  | close | closeDrains | closeJoins | closeEnds => cases hs

/-- A step of `_serve` that could not be taken changes nothing. -/
theorem serve_idle {c : Coordinator} {s : CoordinatorStep} (hs : s.serves = true)
    (hidle : (c.step capacity s).2 ≠ .done) : (c.step capacity s).1 = c := by
  cases s with
  | take =>
    simp only [step, whenReady] at hidle ⊢
    split
    · rename_i hnext
      rw [hnext] at hidle
      exact absurd rfl hidle
    · rfl
  | finish status code issues applied =>
    simp only [step, whenReady] at hidle ⊢
    split
    · rename_i hnext
      rw [hnext] at hidle
      exact absurd rfl hidle
    · rfl
  | submit | cancelCaller | start | startLoads | startReturns | startFails | startRaises | apply
  | close | closeDrains | closeJoins | closeEnds => cases hs

/-- A whole run counts down the turns of an open submission. -/
theorem runs_turns {c : Coordinator} (h : c.Sound) (calls : List CoordinatorStep) {id : ℕ}
    (haccepted : id ∈ c.accepted.map (·.id))
    (hopen : id ∉ (runCalls (CoordinatorStep.exec capacity) c calls).answered) :
    ((trace (CoordinatorStep.exec capacity) c calls).filter ServingStep.served).length +
      (runCalls (CoordinatorStep.exec capacity) c calls).turns id = c.turns id := by
  induction calls generalizing c with
  | nil => simp [trace, runCalls]
  | cons s calls ih =>
    obtain ⟨hnext, hadvances⟩ := step_sound h s
    have haccepted' : id ∈ (c.step capacity s).1.accepted.map (·.id) :=
      (hadvances.accepted.map _).subset haccepted
    have hrest := ih hnext haccepted' hopen
    have hopen' : id ∉ (c.step capacity s).1.answered :=
      (runs_sound hnext calls).2.answered hopen
    rw [trace, runCalls, perform_step]
    dsimp only
    by_cases hserves : s.serves = true
    · by_cases hdone : (c.step capacity s).2 = .done
      · rw [List.filter_cons_of_pos (by simp [ServingStep.served, hserves, hdone]),
          List.length_cons, ← serve_turns h hserves hdone haccepted hopen']
        omega
      · rw [List.filter_cons_of_neg (by simp [ServingStep.served, hdone])]
        rw [hrest, serve_idle hserves hdone]
    · rw [List.filter_cons_of_neg (by simp [ServingStep.served, hserves]), hrest]
      exact other_turns h (by simpa using hserves) haccepted hopen'

/-! ## The accepted submissions -/

theorem whenReady_accepted {c : Coordinator} {next : Option Coordinator}
    (hnext : ∀ c', next = some c' → c'.accepted = c.accepted) :
    (c.whenReady next).1.accepted = c.accepted := by
  cases next with
  | none => rfl
  | some c' => exact hnext c' rfl

/-- Only `submit` accepts. -/
theorem other_accepted {c : Coordinator} (h : c.Sound) {s : CoordinatorStep}
    (hs : ∀ payload kind, s ≠ .submit payload kind) :
    (c.step capacity s).1.accepted = c.accepted := by
  cases s with
  | submit payload kind => exact absurd rfl (hs payload kind)
  | cancelCaller id => rfl
  | start =>
    refine whenReady_accepted fun c' hnext => ?_
    unfold start at hnext
    split at hnext <;> cases hnext
    rfl
  | startLoads snapshot =>
    refine whenReady_accepted fun c' hnext => ?_
    unfold startLoads at hnext
    split at hnext <;> cases hnext
    rfl
  | startReturns active =>
    refine whenReady_accepted fun c' hnext => ?_
    unfold startReturns at hnext
    rw [steady_eq] at hnext
    split at hnext <;> cases hnext
    rfl
  | startFails =>
    refine whenReady_accepted fun c' hnext => ?_
    unfold startFails at hnext
    split at hnext <;> cases hnext
    rfl
  | startRaises =>
    refine whenReady_accepted fun c' hnext => ?_
    unfold startRaises at hnext
    split at hnext <;> cases hnext
    rfl
  | take =>
    refine whenReady_accepted fun c' hnext => ?_
    obtain ⟨-, ⟨item, rest, -, rfl⟩ | ⟨rest, -, rfl⟩⟩ := take_cases hnext <;> rfl
  | apply s =>
    refine whenReady_accepted fun c' hnext => ?_
    unfold apply at hnext
    split at hnext
    · cases s <;> cases hnext <;> rfl
    · cases hnext
  | finish status code issues applied =>
    refine whenReady_accepted fun c' hnext => ?_
    obtain ⟨item, r, -, ⟨-, replied, hreplied, hc'⟩ | ⟨-, hc'⟩⟩ := finish_cases h.placed hnext
    · rw [hc', drain_same, hreplied]
    · rw [hc']
  | close =>
    simp only [step, beginClose]
    split <;> rfl
  | closeDrains =>
    refine whenReady_accepted fun c' hnext => ?_
    unfold closeDrains at hnext
    rw [drain_same] at hnext
    dsimp only at hnext
    split_ifs at hnext <;> cases hnext <;> rfl
  | closeJoins =>
    refine whenReady_accepted fun c' hnext => ?_
    unfold closeJoins at hnext
    split at hnext <;> cases hnext
    rfl
  | closeEnds failed =>
    refine whenReady_accepted fun c' hnext => ?_
    unfold closeEnds at hnext
    split at hnext <;> cases hnext
    rfl

/-- A step puts on record what it tells the caller. -/
theorem step_accepted {c : Coordinator} (h : c.Sound) (s : CoordinatorStep) :
    (c.step capacity s).1.accepted =
      c.accepted ++ (ServingStep.accepted (perform (CoordinatorStep.exec capacity) c s)).toList := by
  rw [perform_step]
  by_cases hs : ∃ payload kind, s = .submit payload kind
  · obtain ⟨payload, kind, rfl⟩ := hs
    simp only [step]
    rcases submit_cases capacity c payload kind with ⟨code, heq⟩ | ⟨item, hid, hpayload, hkind, -, -, heq⟩
    · rw [heq]
      cases payload <;> simp [ServingStep.accepted]
    · rw [heq, hpayload]
      simp [ServingStep.accepted, hkind]
  · rw [other_accepted h fun payload kind he => hs ⟨payload, kind, he⟩]
    have hnone : ServingStep.accepted
        ⟨c, s, .ok (c.step capacity s).2, (c.step capacity s).1⟩ = none := by
      cases s with
      | submit payload kind => exact absurd ⟨payload, kind, rfl⟩ hs
      | _ => rfl
    rw [hnone]
    simp

theorem runs_accepted (calls : List CoordinatorStep) :
    (trace (CoordinatorStep.exec capacity) {} calls).filterMap ServingStep.accepted =
      (served capacity calls).accepted := by
  have hhistory : (runCalls (CoordinatorStep.exec capacity) {} calls).Sound ∧
      (trace (CoordinatorStep.exec capacity) {} calls).filterMap ServingStep.accepted =
        (runCalls (CoordinatorStep.exec capacity) {} calls).accepted := by
    refine trace_history (I := fun past c => c.Sound ∧
      past.filterMap ServingStep.accepted = c.accepted) ⟨initial_sound, rfl⟩ ?_ calls
    rintro past c s ⟨hsound, hpast⟩
    refine ⟨(perform_sound hsound s).2, ?_⟩
    rw [List.filterMap_append, hpast]
    have hstep := @step_accepted capacity c hsound s
    refine Eq.trans ?_ hstep.symm
    congr 1
  exact hhistory.2

/-- A run without the cancelled callers. -/
theorem runs_forget (c : Coordinator) (calls : List CoordinatorStep) :
    runCalls (CoordinatorStep.exec capacity) c.forget
        (calls.filter fun s => !s.cancels) =
      (runCalls (CoordinatorStep.exec capacity) c calls).forget := by
  induction calls generalizing c with
  | nil => rfl
  | cons s calls ih =>
    by_cases hs : ∃ id, s = .cancelCaller id
    · obtain ⟨id, rfl⟩ := hs
      rw [List.filter_cons_of_neg (by simp [CoordinatorStep.cancels]), runCalls]
      exact ih (c.cancelCaller id)
    · have hkeep : (!s.cancels) = true := by
        cases s with
        | cancelCaller id => exact absurd ⟨id, rfl⟩ hs
        | _ => rfl
      have hstep := step_forget capacity c (fun id he => hs ⟨id, he⟩)
      rw [List.filter_cons, if_pos hkeep, runCalls, runCalls, perform_step, perform_step, hstep]
      exact ih _

end Coordinator

/-- Accepted submissions are served one at a time, in order, and each of them is
    answered once, whatever the callers, the store, the runtime and the shutdown
    do. -/
theorem submissions_served (calls : List CoordinatorStep) : SubmissionsServed capacity calls := by
  have hsound : (served capacity calls).Sound :=
    (Coordinator.runs_sound Coordinator.initial_sound calls).1
  -- The rest of a run, from the state in which its past ended.
  have hrest : ∀ past rest, calls = past ++ rest →
      (served capacity past).Sound ∧
        served capacity calls = runCalls (CoordinatorStep.exec capacity) (served capacity past) rest ∧
        Coordinator.Advances (served capacity past) (served capacity calls) := by
    rintro past rest rfl
    have hpast : (served capacity past).Sound :=
      (Coordinator.runs_sound Coordinator.initial_sound past).1
    have heq : served capacity (past ++ rest) =
        runCalls (CoordinatorStep.exec capacity) (served capacity past) rest := by
      unfold served
      exact runCalls_append _ past rest
    rw [heq]
    exact ⟨hpast, rfl, (Coordinator.runs_sound hpast rest).2⟩
  constructor
  · exact Coordinator.runs_accepted calls
  · exact hsound.placed.places
  · rw [hsound.placed.ids]
    exact List.nodup_range
  · intro past rest h
    exact (hrest past rest h).2.2.results
  · exact hsound.placed.order
  · intro item hitem
    rcases hsound.placed.served item hitem with hdone | hheld
    · exact Or.inl hdone
    · right
      unfold Coordinator.held at hheld
      cases hworker : (served capacity calls).worker with
      | processing other =>
        rw [hworker] at hheld
        simp only [WorkerTask.item, Option.toList_some, List.mem_singleton] at hheld
        rw [hheld]
      | absent | waiting | ended =>
        rw [hworker] at hheld
        cases hheld
  · intro past rest h hdrained
    exact ((hrest past rest h).2.2.begun hdrained).2
  · exact Coordinator.runs_forget {} calls
  · intro past rest h hended
    have hend : (served capacity calls).worker = .ended := (hrest past rest h).2.2.ended hended
    refine ⟨?_, fun payload kind => Coordinator.submit_ended hsound hend payload kind⟩
    intro item hitem
    by_contra hopen
    rcases hsound.placed.mem_live (List.mem_map_of_mem hitem) hopen with hheld | hqueued
    · rw [Coordinator.held, hend] at hheld
      cases hheld
    · rw [hsound.controlled.served (by rw [hend]; rfl)] at hqueued
      cases hqueued
  · intro past rest h item hitem hopen
    obtain ⟨hpast, heq, hadvances⟩ := hrest past rest h
    have haccepted : item.id ∈ (served capacity past).accepted.map (·.id) :=
      List.mem_map_of_mem hitem
    refine ⟨Coordinator.can_serve hsound ((hadvances.accepted.map _).subset haccepted) hopen, ?_⟩
    rw [heq] at hopen ⊢
    exact Coordinator.runs_turns hpast rest haccepted hopen

/-! ## A run that is closed -/

/-- A queue with room for one submission. -/
def narrowQueue : QueueCapacity := ⟨1, le_rfl, by decide⟩

/-- The queue is full when a third submission comes, the first caller gives up, and the agent
    closes before the second submission is taken. -/
def closingRun : List CoordinatorStep :=
  [.start, .startLoads none, .startReturns none, .submit (some [1]) (py "configSet"), .take,
    .submit (some [2]) (py "configPatch"), .submit (some [3]) (py "configSet"), .cancelCaller 0,
    .apply .awaits, .close, .closeDrains, .apply (.durable (some 1)),
    .finish .applied none [] none, .take, .closeJoins, .closeEnds false]

/-- Two accepted submissions, one served and one given back. -/
theorem submissions_served_closing :
    SubmissionsServed narrowQueue closingRun ∧
    (served narrowQueue closingRun).accepted.map (·.id) = [0, 1] ∧
    (served narrowQueue closingRun).begun.map (·.id) = [0] ∧
    (served narrowQueue closingRun).results.map (fun r => (r.1, r.2.status, r.2.code)) =
      [(1, .rejected, some (py "STOPPING")), (0, .applied, none)] ∧
    (served narrowQueue closingRun).state = .stopped := by
  refine ⟨submissions_served narrowQueue closingRun, ?_⟩
  decide +kernel

end PlcnextIot.Core
