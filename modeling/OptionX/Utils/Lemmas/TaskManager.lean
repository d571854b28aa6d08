import OptionX.Utils.Lemmas.Task

/-!
# The tasks a manager holds

The manager holds its tasks in the order of their acceptance: running tasks that have had their turn, running tasks
that wait for it, pending tasks. A step adds a task at the end, gives one task its turn, removes the completed ones,
or touches one.
-/

namespace OptionX.Utils

namespace TaskManager

def cycleTasks (s : TaskManager) : List Task := s.cycle.elim [] fun c => c.passed ++ c.todo

def held (s : TaskManager) : List Task := s.tasks ++ s.cycleTasks ++ s.pendingTasks

/-- What holds of the lists of every reachable manager. -/
structure Layout (s : TaskManager) : Prop where
  sorted : (s.held.map Task.id).Pairwise (· < ·)
  bound : ∀ t ∈ s.held, t.id < s.nextId
  valid : ∀ t ∈ s.held, t.Valid
  idle : ∀ t ∈ s.held, t.forceExecute = false ∧ (t.completed = false → t.shutdown = false)
  fresh : ∀ t ∈ s.tasks ++ s.pendingTasks, t.completed = false
  waiting : ∀ c, s.cycle = some c → ∀ t ∈ c.todo, t.completed = false
  alone : ∀ c, s.cycle = some c → s.tasks = []
  index : ∀ c, s.cycle = some c → c.index + 1 = s.cycles ∧ c.accepted ≤ s.nextId ∧
    (∀ t ∈ c.passed ++ c.todo, t.id < c.accepted) ∧ ∀ t ∈ s.pendingTasks, c.accepted ≤ t.id

variable {s : TaskManager}

/-! ## Touches and turns -/

@[simp] theorem touch_id (touch : Touch) (t : Task) : (touch.apply t).id = t.id := by
  cases touch <;> grind [Touch.apply, Task.rescheduleAt, Task.setPeriod, Task.resetTimer]

@[simp] theorem touch_type (touch : Touch) (t : Task) : (touch.apply t).type = t.type := by
  cases touch <;> grind [Touch.apply, Task.rescheduleAt, Task.setPeriod, Task.resetTimer]

theorem touch_valid (touch : Touch) {t : Task} (h : t.Valid) : (touch.apply t).Valid := by
  unfold Task.Valid at h ⊢
  cases touch <;> grind [Touch.apply, Task.rescheduleAt, Task.setPeriod, Task.resetTimer, Task.isValidPeriod]

theorem touch_idle (touch : Touch) {t : Task}
    (h : t.forceExecute = false ∧ (t.completed = false → t.shutdown = false)) :
    (touch.apply t).forceExecute = false ∧ ((touch.apply t).completed = false → (touch.apply t).shutdown = false) := by
  cases touch <;> grind [Touch.apply, Task.rescheduleAt, Task.setPeriod, Task.resetTimer]

theorem touch_completed (touch : Touch) (t : Task) :
    (touch.apply t).completed = t.completed ∨ (touch.apply t).completed = false ∧ ∃ time, touch = .rescheduleAt time := by
  cases touch <;> grind [Touch.apply, Task.rescheduleAt, Task.setPeriod, Task.resetTimer]

/-- A task that was shut down and completed stays so. -/
theorem touch_ended (touch : Touch) {t : Task} (hc : t.completed = true) (hs : t.shutdown = true) :
    (touch.apply t).completed = true ∧ (touch.apply t).shutdown = true := by
  cases touch <;> grind [Touch.apply, Task.rescheduleAt, Task.setPeriod, Task.resetTimer]

/-- A task with the flags that the manager hands it at its turn. -/
def armed (s : TaskManager) (t : Task) : Task :=
  let t := if s.forceExecute then { t with forceExecute := true } else t
  if s.shutdown then { t with shutdown := true } else t

theorem turn_eq (s : TaskManager) (nowMs : Int) (t : Task) : s.turn nowMs t = (s.armed t).process nowMs := rfl

@[simp] theorem armed_id (t : Task) : (s.armed t).id = t.id := by grind [armed]
@[simp] theorem armed_type (t : Task) : (s.armed t).type = t.type := by grind [armed]
@[simp] theorem armed_periodMs (t : Task) : (s.armed t).periodMs = t.periodMs := by grind [armed]
@[simp] theorem armed_completed (t : Task) : (s.armed t).completed = t.completed := by grind [armed]
@[simp] theorem armed_shutdown (t : Task) : (s.armed t).shutdown = (t.shutdown || s.shutdown) := by grind [armed]
@[simp] theorem armed_forceExecute (t : Task) : (s.armed t).forceExecute = (t.forceExecute || s.forceExecute) := by
  grind [armed]
@[simp] theorem armed_dueTime (t : Task) : (s.armed t).dueTime = t.dueTime := by grind [armed, Task.dueTime]

theorem armed_valid {t : Task} (h : t.Valid) : (s.armed t).Valid := by
  unfold Task.Valid at h ⊢
  rw [armed_type, armed_periodMs]
  exact h

@[simp] theorem turn_id (nowMs : Int) (t : Task) : (s.turn nowMs t).1.id = t.id := by simp [turn_eq]

@[simp] theorem turn_type (nowMs : Int) (t : Task) : (s.turn nowMs t).1.type = t.type := by simp [turn_eq]

theorem turn_idle (nowMs : Int) {t : Task} (hc : t.completed = false) (hv : t.Valid) :
    (s.turn nowMs t).1.forceExecute = false ∧
      ((s.turn nowMs t).1.completed = false → (s.turn nowMs t).1.shutdown = false) := by
  rw [turn_eq, Task.process_shutdown, Task.process_completed _ (by simpa using hc) (armed_valid hv)]
  refine ⟨Task.process_forceExecute (by simpa using hc), fun h => ?_⟩
  exact (Bool.or_eq_false_iff.mp h).2

theorem turn_valid (nowMs : Int) {t : Task} (h : t.Valid) : (s.turn nowMs t).1.Valid := by
  unfold Task.Valid at h ⊢
  rw [turn_eq, Task.process_type, Task.process_periodMs, armed_type, armed_periodMs]
  exact h

/-! ## Steps -/

def Silent : Notice → Prop
  | .rejected | .cleared | .drained => True
  | _ => False

/-- What a step does to the tasks held. -/
inductive Changed (s : TaskManager) : Event → TaskManager × List Notice → Prop
  | same (e : Event) (s' : TaskManager) (ns : List Notice) : s'.held = s.held → s'.nextId = s.nextId →
      (∀ n ∈ ns, Silent n) → Changed s e (s', ns)
  | adds (e : Event) (s' : TaskManager) (t : Task) : s'.held = s.held ++ [t] → s'.nextId = s.nextId + 1 →
      t.id = s.nextId → t.Valid → t.completed = false → t.forceExecute = false → t.shutdown = false →
      Changed s e (s', [.accepted t])
  | turns (s' : TaskManager) (c : Cycle) (t : Task) (todo pre post : List Task) : s.cycle = some c →
      c.todo = t :: todo → s.held = pre ++ t :: post → s'.held = pre ++ (s.turn c.nowMs t).1 :: post →
      s'.nextId = s.nextId → s'.cycle = some { c with passed := c.passed ++ [(s.turn c.nowMs t).1], todo } →
      Changed s .advance (s', [.passed ⟨c.index, c.nowMs, s.forceExecute, s.shutdown, t, (s.turn c.nowMs t).1,
        (s.turn c.nowMs t).2⟩])
  | removes (s' : TaskManager) : s'.held = s.held.filter (!·.completed) → s'.nextId = s.nextId →
      Changed s .advance (s', [])
  | touches (id : Nat) (touch : Touch) (s' : TaskManager) :
      s'.held = s.held.map (fun t => if t.id = id then touch.apply t else t) → s'.nextId = s.nextId →
      Changed s (.touch id touch) (s', [])

theorem Layout.changed (h : Layout s) (e : Event) : Changed s e (s.step e) := by
  cases e with
  | add type nowMs delayMs periodMs timestampMs =>
      simp only [step]
      split
      · exact .same _ _ _ rfl rfl (by simp [Silent])
      · next hadd =>
        refine .adds _ _ _ ?_ rfl rfl (fun hp => ?_) rfl rfl rfl
        · simp [held, cycleTasks]
        · simp_all [Task.create, Task.isValidPeriod]
  | «begin» nowMs =>
      simp only [step]
      split
      · next hc =>
        refine .same _ _ _ ?_ rfl (by simp)
        simp_all [held, cycleTasks]
      · exact .same _ _ _ rfl rfl (by simp)
  | advance =>
      cases hc : s.cycle with
      | none =>
          simp only [step, hc]
          exact .same _ _ _ rfl rfl (by simp)
      | some c =>
          simp only [step, hc, advance]
          split
          · next t todo htodo =>
            have ht : t.completed = false := h.waiting c hc t (by rw [htodo]; exact List.mem_cons_self)
            rw [ht]
            refine .turns _ c t todo (s.tasks ++ c.passed) (todo ++ s.pendingTasks) hc htodo ?_ ?_ rfl rfl
            · simp [held, cycleTasks, hc, htodo]
            · simp [held, cycleTasks]
          · next htodo =>
            split
            · refine .same _ _ _ ?_ rfl (by simp [Silent])
              simp [held, cycleTasks, hc]
            · refine .removes _ ?_ rfl
              have hpending : s.pendingTasks.filter (!·.completed) = s.pendingTasks :=
                List.filter_eq_self.mpr fun t ht => by simp [h.fresh t (List.mem_append_right _ ht)]
              simp [held, cycleTasks, hc, h.alone c hc, htodo, hpending]
  | touch id touch =>
      refine .touches id touch _ ?_ rfl
      cases hc : s.cycle <;> simp [mapTasks, held, cycleTasks, hc]
  | leaveLoop | run | shutdownReturns =>
      simp only [step]
      split <;> exact .same _ _ _ rfl rfl (by simp [Silent])
  | forceExecute => exact .same _ _ _ rfl rfl (by simp [Silent])
  | shutdown =>
      simp only [step]
      (repeat' split) <;> exact .same _ _ _ rfl rfl (by simp)

/-- The tasks in the lists of a manager that a touch has reached. -/
theorem touched_fresh {f : Task → Task} (hf : ∀ t, t.completed = false → (f t).completed = false) {l : List Task}
    (h : ∀ t ∈ l, t.completed = false) : ∀ t ∈ l.map f, t.completed = false := by
  intro t ht
  obtain ⟨u, hu, rfl⟩ := List.mem_map.mp ht
  exact hf u (h u hu)

theorem Layout.step_cycle (h : Layout s) (e : Event) :
    (∀ t ∈ (s.step e).1.tasks ++ (s.step e).1.pendingTasks, t.completed = false) ∧
      (∀ c, (s.step e).1.cycle = some c → ∀ t ∈ c.todo, t.completed = false) ∧
      (∀ c, (s.step e).1.cycle = some c → (s.step e).1.tasks = []) ∧
      ∀ c, (s.step e).1.cycle = some c → c.index + 1 = (s.step e).1.cycles ∧ c.accepted ≤ (s.step e).1.nextId ∧
        (∀ t ∈ c.passed ++ c.todo, t.id < c.accepted) ∧ ∀ t ∈ (s.step e).1.pendingTasks, c.accepted ≤ t.id := by
  have hsame : (∀ t ∈ s.tasks ++ s.pendingTasks, t.completed = false) ∧
      (∀ c, s.cycle = some c → ∀ t ∈ c.todo, t.completed = false) ∧ (∀ c, s.cycle = some c → s.tasks = []) ∧
      ∀ c, s.cycle = some c → c.index + 1 = s.cycles ∧ c.accepted ≤ s.nextId ∧
        (∀ t ∈ c.passed ++ c.todo, t.id < c.accepted) ∧ ∀ t ∈ s.pendingTasks, c.accepted ≤ t.id :=
    ⟨h.fresh, h.waiting, h.alone, h.index⟩
  cases e with
  | add type nowMs delayMs periodMs timestampMs =>
      simp only [step]
      split
      · exact hsame
      · refine ⟨fun t ht => ?_, h.waiting, h.alone, fun c hc => ?_⟩
        · rw [← List.append_assoc] at ht
          rcases List.mem_append.mp ht with ht | ht
          · exact h.fresh t ht
          · rw [List.mem_singleton.mp ht]
            rfl
        · obtain ⟨h1, h2, h3, h4⟩ := h.index c hc
          refine ⟨h1, h2.trans (Nat.le_succ _), h3, fun t ht => ?_⟩
          rcases List.mem_append.mp ht with ht | ht
          · exact h4 t ht
          · rw [List.mem_singleton.mp ht]
            exact h2
  | «begin» nowMs =>
      simp only [step]
      split
      · next hc =>
        have hnone : s.cycle = none := by simp_all
        refine ⟨fun t ht => (by cases ht), fun c hc => ?_, fun c _ => rfl, fun c hc => ?_⟩
        · cases hc
          exact h.fresh
        · cases hc
          refine ⟨rfl, le_rfl, fun t ht => ?_, fun t ht => (by cases ht)⟩
          refine h.bound t ?_
          simpa [held, cycleTasks, hnone] using ht
      · exact hsame
  | advance =>
      cases hc : s.cycle with
      | none =>
          simp only [step, hc]
          rw [← hc]
          exact hsame
      | some c =>
          obtain ⟨h1, h2, h3, h4⟩ := h.index c hc
          simp only [step, hc, advance]
          split
          · next t todo htodo =>
            refine ⟨h.fresh, fun c' hc' u hu => ?_, fun c' _ => h.alone c hc, fun c' hc' => ?_⟩
            · cases hc'
              exact h.waiting c hc u (by rw [htodo]; exact List.mem_cons_of_mem _ hu)
            · cases hc'
              refine ⟨h1, h2, fun u hu => ?_, h4⟩
              rcases (by simpa using hu : u ∈ c.passed ∨ u = (s.turn c.nowMs t).1 ∨ u ∈ todo) with hu | rfl | hu
              · exact h3 u (List.mem_append_left _ hu)
              · rw [turn_id]
                exact h3 t (by simp [htodo])
              · exact h3 u (by simp [htodo, hu])
          · next htodo =>
            split
            · refine ⟨h.fresh, fun c' hc' => ?_, fun c' _ => h.alone c hc, fun c' hc' => ?_⟩
              · cases hc'
                exact h.waiting c hc
              · cases hc'
                exact ⟨h1, h2, h3, h4⟩
            · refine ⟨fun t ht => ?_, fun _ hc' => (by cases hc'), fun _ hc' => (by cases hc'),
                fun _ hc' => (by cases hc')⟩
              rcases List.mem_append.mp ht with ht | ht
              · simpa using (List.mem_filter.mp ht).2
              · exact h.fresh t (List.mem_append_right _ ht)
  | touch id touch =>
      have hid : ∀ t : Task, (if t.id = id then touch.apply t else t).id = t.id := by
        intro t
        split <;> simp
      have hf : ∀ t : Task, t.completed = false → (if t.id = id then touch.apply t else t).completed = false := by
        intro t ht
        split
        · rcases touch_completed touch t with heq | ⟨heq, -⟩
          · exact heq.trans ht
          · exact heq
        · exact ht
      refine ⟨?_, fun c hc => ?_, fun c hc => ?_, fun c hc => ?_⟩
      · simp only [step, mapTasks]
        rw [← List.map_append]
        exact touched_fresh hf h.fresh
      all_goals
        obtain ⟨c', hc', rfl⟩ := Option.map_eq_some_iff.mp hc
      · exact touched_fresh hf (h.waiting c' hc')
      · simp only [step, mapTasks, h.alone c' hc', List.map_nil]
      · obtain ⟨h1, h2, h3, h4⟩ := h.index c' hc'
        refine ⟨h1, h2, fun t ht => ?_, fun t ht => ?_⟩
        · rw [← List.map_append] at ht
          obtain ⟨u, hu, rfl⟩ := List.mem_map.mp ht
          rw [hid]
          exact h3 u hu
        · obtain ⟨u, hu, rfl⟩ := List.mem_map.mp ht
          rw [hid]
          exact h4 u hu
  | leaveLoop | run | shutdownReturns =>
      simp only [step]
      split <;> exact hsame
  | forceExecute => exact hsame
  | shutdown =>
      simp only [step]
      (repeat' split) <;> exact hsame

theorem Layout.step (h : Layout s) (e : Event) : Layout (s.step e).1 := by
  have hch := h.changed e
  have hheld : ((s.step e).1.held.map Task.id).Pairwise (· < ·) ∧ (∀ t ∈ (s.step e).1.held, t.id < (s.step e).1.nextId) ∧
      (∀ t ∈ (s.step e).1.held, t.Valid) ∧ ∀ t ∈ (s.step e).1.held,
        t.forceExecute = false ∧ (t.completed = false → t.shutdown = false) := by
    generalize s.step e = r at hch ⊢
    cases hch with
    | same e s' ns hl hn _ => exact ⟨hl ▸ h.sorted, hn ▸ hl ▸ h.bound, hl ▸ h.valid, hl ▸ h.idle⟩
    | adds e s' t hl hn hid hv _ hforce hshut =>
        rw [hl, hn]
        refine ⟨?_, fun u hu => ?_, fun u hu => ?_, fun u hu => ?_⟩
        · rw [List.map_append, List.pairwise_append]
          refine ⟨h.sorted, List.pairwise_singleton _ _, fun a ha b hb => ?_⟩
          obtain ⟨u, hu, rfl⟩ := List.mem_map.mp ha
          rw [List.mem_singleton.mp hb, hid]
          exact h.bound u hu
        · rcases List.mem_append.mp hu with hu | hu
          · exact (h.bound u hu).trans (Nat.lt_succ_self _)
          · rw [List.mem_singleton.mp hu, hid]
            exact Nat.lt_succ_self _
        · rcases List.mem_append.mp hu with hu | hu
          · exact h.valid u hu
          · rw [List.mem_singleton.mp hu]
            exact hv
        · rcases List.mem_append.mp hu with hu | hu
          · exact h.idle u hu
          · rw [List.mem_singleton.mp hu]
            exact ⟨hforce, fun _ => hshut⟩
    | turns s' c t todo pre post hc htodo hl hl' hn _ =>
        have hids : s'.held.map Task.id = s.held.map Task.id := by rw [hl, hl']; simp
        have hmem : t ∈ s.held := by rw [hl]; exact List.mem_append_right _ List.mem_cons_self
        have hfresh : t.completed = false := h.waiting c hc t (by rw [htodo]; exact List.mem_cons_self)
        refine ⟨hids ▸ h.sorted, fun u hu => ?_, fun u hu => ?_, fun u hu => ?_⟩
        · obtain ⟨v, hv, heq⟩ := List.mem_map.mp (hids ▸ List.mem_map_of_mem (f := Task.id) hu)
          rw [hn, ← heq]
          exact h.bound v hv
        · rw [hl'] at hu
          rcases (by simpa using hu : u ∈ pre ∨ u = (s.turn c.nowMs t).1 ∨ u ∈ post) with hu | rfl | hu
          · exact h.valid u (by simp [hl, hu])
          · exact turn_valid _ (h.valid t hmem)
          · exact h.valid u (by simp [hl, hu])
        · rw [hl'] at hu
          rcases (by simpa using hu : u ∈ pre ∨ u = (s.turn c.nowMs t).1 ∨ u ∈ post) with hu | rfl | hu
          · exact h.idle u (by simp [hl, hu])
          · exact turn_idle _ hfresh (h.valid t hmem)
          · exact h.idle u (by simp [hl, hu])
    | removes s' hl hn =>
        rw [hl, hn]
        exact ⟨h.sorted.sublist (List.filter_sublist.map _), fun u hu => h.bound u (List.mem_of_mem_filter hu),
          fun u hu => h.valid u (List.mem_of_mem_filter hu), fun u hu => h.idle u (List.mem_of_mem_filter hu)⟩
    | touches id touch s' hl hn =>
        rw [hl, hn]
        refine ⟨?_, fun u hu => ?_, fun u hu => ?_, fun u hu => ?_⟩
        · have hids : (s.held.map fun t => if t.id = id then touch.apply t else t).map Task.id = s.held.map Task.id := by
            rw [List.map_map]
            refine List.map_congr_left fun t _ => ?_
            simp only [Function.comp]
            split <;> simp
          rw [hids]
          exact h.sorted
        · obtain ⟨v, hv, rfl⟩ := List.mem_map.mp hu
          have hid : (if v.id = id then touch.apply v else v).id = v.id := by split <;> simp
          rw [hid]
          exact h.bound v hv
        · obtain ⟨v, hv, rfl⟩ := List.mem_map.mp hu
          split
          · exact touch_valid touch (h.valid v hv)
          · exact h.valid v hv
        · obtain ⟨v, hv, rfl⟩ := List.mem_map.mp hu
          split
          · exact touch_idle touch (h.idle v hv)
          · exact h.idle v hv
  obtain ⟨hfresh, hwaiting, halone, hindex⟩ := h.step_cycle e
  exact ⟨hheld.1, hheld.2.1, hheld.2.2.1, hheld.2.2.2, hfresh, hwaiting, halone, hindex⟩

/-! ## Shutting down -/

/-- The last cycle, that of the worker out of its loop or that of `shutdown` itself. -/
def Final (s : TaskManager) : Prop := s.worker = .last ∨ s.stopping = .draining

structure Lifecycle (s : TaskManager) : Prop where
  flag : s.shutdown = true ↔ s.stopping ≠ .no
  joining : s.stopping = .joining → s.worker ≠ .absent
  leaving : s.worker = .last ∨ s.worker = .gone → s.stopping = .joining
  draining : s.stopping = .draining ∨ s.stopping = .drained → s.worker = .absent
  final : Final s → ∀ c, s.cycle = some c → s.pendingTasks = [] ∧
    ∀ t ∈ c.passed, t.completed = true ∧ t.shutdown = true
  ended : s.worker = .gone ∨ s.stopping = .drained → s.held = []

theorem Lifecycle.create : Lifecycle {} where
  flag := by simp
  joining h := (by cases h)
  leaving h := (by cases h <;> contradiction)
  draining h := (by cases h <;> contradiction)
  final h := (by cases h <;> contradiction)
  ended h := (by cases h <;> contradiction)

/-- A turn under the shutdown flag is the last one. -/
theorem turn_ended (hs : s.shutdown = true) (nowMs : Int) {t : Task} (hc : t.completed = false) (hv : t.Valid) :
    (s.turn nowMs t).1.completed = true ∧ (s.turn nowMs t).1.shutdown = true := by
  rw [turn_eq, Task.process_shutdown, Task.process_completed _ (by simpa using hc) (armed_valid hv)]
  simp [hs]

theorem Lifecycle.step (h : Lifecycle s) (hl : Layout s) (e : Event) : Lifecycle (s.step e).1 := by
  have hshutdown : Final s → s.shutdown = true := by
    intro hf
    rcases hf with hf | hf
    · exact h.flag.mpr (by simp [h.leaving (.inl hf)])
    · exact h.flag.mpr (by simp [hf])
  cases e with
  | add type nowMs delayMs periodMs timestampMs =>
      simp only [TaskManager.step]
      split
      · exact h
      · next hadd =>
        have hopen : s.shutdown = false := by simp_all
        refine ⟨h.flag, h.joining, h.leaving, h.draining, fun hf => ?_, fun he => ?_⟩
        · rw [hshutdown hf] at hopen
          cases hopen
        · have hstop : s.stopping ≠ .no := by
            rcases he with he | he
            · rw [h.leaving (.inr he)]
              decide
            · rw [he]
              decide
          rw [h.flag.mpr hstop] at hopen
          cases hopen
  | «begin» nowMs =>
      simp only [TaskManager.step]
      split
      · next hc =>
        refine ⟨h.flag, h.joining, h.leaving, h.draining, fun _ c hc' => ?_, fun he => ?_⟩
        · cases hc'
          exact ⟨rfl, fun t ht => (by cases ht)⟩
        · have hheld := h.ended he
          simp_all [held, cycleTasks]
      · exact h
  | advance =>
      cases hc : s.cycle with
      | none =>
          simp only [TaskManager.step, hc]
          exact h
      | some c =>
          simp only [TaskManager.step, hc, TaskManager.advance]
          split
          · next t todo htodo =>
            refine ⟨h.flag, h.joining, h.leaving, h.draining, fun hf c' hc' => ?_, fun he => ?_⟩
            · cases hc'
              obtain ⟨hpending, hpassed⟩ := h.final hf c hc
              refine ⟨hpending, fun u hu => ?_⟩
              rcases List.mem_append.mp hu with hu | hu
              · exact hpassed u hu
              · rw [List.mem_singleton.mp hu]
                have hmem : t ∈ c.todo := by rw [htodo]; exact List.mem_cons_self
                refine turn_ended (hshutdown hf) _ (hl.waiting c hc t hmem) (hl.valid t ?_)
                simp [held, cycleTasks, hc, hmem]
            · have hheld := h.ended he
              simp_all [held, cycleTasks]
          · next htodo =>
            split
            · refine ⟨h.flag, h.joining, h.leaving, h.draining, fun hf c' hc' => ?_, fun he => ?_⟩
              · cases hc'
                exact h.final hf c hc
              · have hheld := h.ended he
                simp_all [held, cycleTasks]
            · have hempty : Final s → c.passed.filter (!·.completed) ++ s.pendingTasks = [] := by
                intro hf
                obtain ⟨hpending, hpassed⟩ := h.final hf c hc
                rw [hpending, List.append_nil]
                exact List.filter_eq_nil_iff.mpr fun t ht => by simp [(hpassed t ht).1]
              have hended : s.worker = .gone ∨ s.stopping = .drained →
                  c.passed.filter (!·.completed) ++ s.pendingTasks = [] := by
                intro he
                have hheld := h.ended he
                simp_all [held, cycleTasks]
              obtain ⟨hflag, hjoining, hleaving, hdraining, -, -⟩ := h
              refine ⟨?_, ?_, ?_, ?_, fun _ c hc' => (by cases hc'), ?_⟩ <;>
                cases hw : s.worker <;> cases hs : s.stopping <;> simp_all [Final, held, cycleTasks]
  | touch id touch =>
      have hf : ∀ t : Task, t.completed = true ∧ t.shutdown = true →
          (if t.id = id then touch.apply t else t).completed = true ∧
            (if t.id = id then touch.apply t else t).shutdown = true := by
        intro t ⟨hc, hs⟩
        split
        · exact touch_ended touch hc hs
        · exact ⟨hc, hs⟩
      refine ⟨h.flag, h.joining, h.leaving, h.draining, fun hfinal c hc => ?_, fun he => ?_⟩
      · obtain ⟨c', hc', rfl⟩ := Option.map_eq_some_iff.mp hc
        obtain ⟨hpending, hpassed⟩ := h.final hfinal c' hc'
        refine ⟨?_, fun t ht => ?_⟩
        · simp only [TaskManager.step, mapTasks, hpending, List.map_nil]
        · obtain ⟨u, hu, rfl⟩ := List.mem_map.mp ht
          exact hf u (hpassed u hu)
      · have hheld := h.ended he
        cases hc : s.cycle <;> simp_all [TaskManager.step, mapTasks, held, cycleTasks]
  | leaveLoop =>
      simp only [TaskManager.step]
      split
      · next hc =>
        obtain ⟨hflag, hjoining, hleaving, hdraining, -, hended⟩ := h
        refine ⟨?_, ?_, ?_, ?_, fun _ c hc' => ?_, ?_⟩ <;> cases hs : s.stopping <;>
          simp_all [Final, held, cycleTasks]
      · exact h
  | forceExecute => exact ⟨h.flag, h.joining, h.leaving, h.draining, h.final, h.ended⟩
  | run =>
      simp only [TaskManager.step]
      split
      · next hc =>
        obtain ⟨hflag, hjoining, hleaving, hdraining, -, hended⟩ := h
        refine ⟨?_, ?_, ?_, ?_, fun _ c hc' => ?_, ?_⟩ <;> simp_all [Final, held, cycleTasks]
      · exact h
  | shutdown =>
      simp only [TaskManager.step]
      split
      · exact h
      · split
        · next hno hw =>
          obtain ⟨hflag, hjoining, hleaving, hdraining, hfinal, hended⟩ := h
          refine ⟨?_, ?_, ?_, ?_, fun _ c hc' => ?_, ?_⟩ <;> simp_all [Final, held, cycleTasks]
        · split
          · obtain ⟨hflag, hjoining, hleaving, hdraining, -, hended⟩ := h
            refine ⟨?_, ?_, ?_, ?_, fun _ c hc' => ?_, ?_⟩ <;> simp_all [Final, held, cycleTasks]
          · exact h
  | shutdownReturns =>
      simp only [TaskManager.step]
      split
      · obtain ⟨hflag, hjoining, hleaving, hdraining, -, hended⟩ := h
        refine ⟨?_, ?_, ?_, ?_, fun hf c hc' => ?_, ?_⟩ <;> simp_all [Final, held, cycleTasks]
      · exact h

end TaskManager

end OptionX.Utils
