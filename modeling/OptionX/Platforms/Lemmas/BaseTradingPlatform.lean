import OptionX.Lib.Calls
import OptionX.Platforms.Lemmas.TaskLine

/-!
# What a step of the platform's lifecycle keeps

While no call of `TaskManager::process` begins during another, the running tasks, those taken over and the pending
ones stand in one line, and the last call before the task manager opens again empties it.
-/

namespace OptionX.Platforms.BaseTradingPlatform

/-- A call that takes tasks over does so while no other is in progress. -/
def Alone (s : BaseTradingPlatform) : Event → Prop
  | .process => s.taken = [] ∧ s.cycle = none
  | .workerTake => (s.worker = .looping ∨ s.worker = .last) ∧ s.workerBusy = false → s.taken = [] ∧ s.cycle = none
  | .shutdownAdvance => s.shutdownStage = .draining → s.taken = [] ∧ s.cycle = none
  | .run _ | .runAdvance _ | .postTask _ | .shutdown | .workerLeave | .begin .. | .advance => True

instance (s : BaseTradingPlatform) (e : Event) : Decidable (Alone s e) := by
  cases e <;> unfold Alone <;> infer_instance

/-! ## The flags -/

/-- The call of `shutdown` has the task manager shut down. -/
def ShutdownStage.shutsDown : ShutdownStage → Bool
  | .joining | .draining | .processing | .processed => true
  | .idle | .entered | .drained | .returned => false

/-- The last cycle is over. -/
def ShutdownStage.over : ShutdownStage → Bool
  | .processed | .drained | .returned => true
  | .idle | .entered | .joining | .draining | .processing => false

/-- How the flags, the worker and the calls stand to the call of `shutdown`. -/
structure Stages (s : BaseTradingPlatform) : Prop where
  alone : s.taken = [] ∨ s.cycle = none ∧ ∃ t, s.taken = [t]
  stopping : s.stopping = false ↔ s.shutdownStage = .idle
  stopped : s.stopped = true ↔ s.shutdownStage = .returned
  flag : s.taskShutdown = s.shutdownStage.shutsDown
  runCall : s.stopping = true → s.runCall = none
  worker : s.worker = .last ∨ s.worker = .gone → s.shutdownStage = .joining
  absent : s.shutdownStage = .draining ∨ s.shutdownStage = .processing ∨ s.shutdownStage.over = true →
    s.worker = .absent
  taken : ∀ t ∈ s.taken, t.owner = .shutdown → s.shutdownStage = .processing
  cycle : ∀ c ∈ s.cycle, c.owner = .shutdown → s.shutdownStage = .processing

theorem Stages.empty : Stages {} where
  alone := .inl rfl
  stopping := by decide
  stopped := by decide
  flag := rfl
  runCall := fun h => by cases h
  worker := by decide
  absent := by decide
  taken := fun _ h => by cases h
  cycle := fun _ h => by cases h

theorem Stages.addTask {s s' : BaseTradingPlatform} (h : Stages s) {kind : TaskKind} {nowMs : Nat}
    (hs : s.addTask kind nowMs = some s') : Stages s' := by
  unfold BaseTradingPlatform.addTask at hs
  split at hs
  · cases hs
  · cases hs
    exact { h with }

/-- A run call goes on only before `shutdown`. -/
theorem Stages.runCall_idle {s : BaseTradingPlatform} (h : Stages s) (hr : s.runCall ≠ none) :
    s.stopping = false ∧ s.shutdownStage = .idle ∧ s.taskShutdown = false := by
  have hstop : s.stopping = false := by
    cases hs : s.stopping
    · rfl
    · exact absurd (h.runCall hs) hr
  have hidle := h.stopping.mp hstop
  exact ⟨hstop, hidle, by rw [h.flag, hidle]; rfl⟩

/-- A call takes the pending tasks over. -/
theorem Stages.take {s : BaseTradingPlatform} (h : Stages s) (ha : s.taken = [] ∧ s.cycle = none) {owner : Owner}
    (ho : owner ≠ .shutdown) : Stages (s.take owner) :=
  { h with
    alone := .inr ⟨ha.2, _, by simp [BaseTradingPlatform.take, ha.1]; rfl⟩
    taken := fun t ht hto => by
      simp only [BaseTradingPlatform.take, ha.1, List.nil_append, List.mem_singleton] at ht
      rw [ht] at hto
      exact absurd hto ho }

theorem Stages.runAdvance {s : BaseTradingPlatform} (h : Stages s) (nowMs : Nat) : Stages (s.runAdvance nowMs) := by
  unfold BaseTradingPlatform.runAdvance
  split
  · exact h
  · next w hr =>
    split
    · next s' hs' =>
      have hs := h.addTask hs'
      have hstop : s'.stopping = false := by
        have := (h.runCall_idle (by simp [hr])).1
        unfold BaseTradingPlatform.addTask at hs'
        split at hs'
        · cases hs'
        · cases hs'
          exact this
      exact { hs with runCall := fun hn => by simp [hstop] at hn }
    · exact { h with runCall := fun _ => rfl }
  · next w hr =>
    split
    · next s' hs' =>
      have hs := h.addTask hs'
      have hstop : s'.stopping = false := by
        have := (h.runCall_idle (by simp [hr])).1
        unfold BaseTradingPlatform.addTask at hs'
        split at hs'
        · cases hs'
        · cases hs'
          exact this
      exact { hs with runCall := fun hn => by simp [hstop] at hn }
    · exact { h with runCall := fun _ => rfl }
  · next w hr =>
    obtain ⟨hstop, hidle, -⟩ := h.runCall_idle (by simp [hr])
    exact { h with
      runCall := fun _ => rfl
      worker := fun hw => h.worker (by
        revert hw
        simp only
        split <;> simp)
      absent := fun hw => by simp [hidle, ShutdownStage.over] at hw }

theorem Stages.stopping_of_ne {s : BaseTradingPlatform} (h : Stages s) (hs : s.shutdownStage ≠ .idle) :
    s.stopping = true := by
  cases hstop : s.stopping
  · exact absurd (h.stopping.mp hstop) hs
  · rfl

theorem Stages.stopped_of_ne {s : BaseTradingPlatform} (h : Stages s) (hs : s.shutdownStage ≠ .returned) :
    s.stopped = false := by
  cases hstopped : s.stopped
  · rfl
  · exact absurd (h.stopped.mp hstopped) hs

/-- `shutdown` begins to shut the task manager down. -/
theorem Stages.close {s : BaseTradingPlatform} (h : Stages s) (hstage : s.shutdownStage = .entered) :
    Stages { s with taskShutdown := true, shutdownStage := if s.worker = .absent then .draining else .joining } := by
  have hstop := h.stopping_of_ne (by simp [hstage])
  have hstopped := h.stopped_of_ne (by simp [hstage])
  have htaken : ∀ t ∈ s.taken, t.owner ≠ .shutdown := fun t ht hto => by
    rw [h.taken t ht hto] at hstage
    cases hstage
  have hcycle : ∀ c ∈ s.cycle, c.owner ≠ .shutdown := fun c hc hco => by
    rw [h.cycle c hc hco] at hstage
    cases hstage
  have hworker : ¬ (s.worker = .last ∨ s.worker = .gone) := fun hw => by
    rw [h.worker hw] at hstage
    cases hstage
  exact { h with
    stopping := by simp only [hstop]; split <;> simp
    stopped := by simp only [hstopped]; split <;> simp
    flag := by simp only; split <;> rfl
    worker := fun hw => absurd hw hworker
    absent := fun hs => by
      simp only at hs ⊢
      split at hs
      · assumption
      · simp [ShutdownStage.over] at hs
    taken := fun t ht hto => absurd hto (htaken t ht)
    cycle := fun c hc hco => absurd hco (hcycle c hc) }

/-- The task manager is open again. -/
theorem Stages.reopen {s : BaseTradingPlatform} (h : Stages s)
    (hstage : s.shutdownStage = .joining ∧ s.worker = .gone ∨ s.shutdownStage = .processed) :
    Stages { s with worker := .absent, taskShutdown := false, shutdownStage := .drained } := by
  have hstop := h.stopping_of_ne (by rcases hstage with ⟨hs, -⟩ | hs <;> simp [hs])
  have hstopped := h.stopped_of_ne (by rcases hstage with ⟨hs, -⟩ | hs <;> simp [hs])
  exact { h with
    stopping := by simp [hstop]
    stopped := by simp [hstopped]
    flag := rfl
    worker := fun hw => by simp at hw
    absent := fun _ => rfl
    taken := fun t ht hto => by
      rw [h.taken t ht hto] at hstage
      simp at hstage
    cycle := fun c hc hco => by
      rw [h.cycle c hc hco] at hstage
      simp at hstage }

theorem Stages.shutdownAdvance {s : BaseTradingPlatform} (h : Stages s) (ha : Alone s .shutdownAdvance) :
    Stages s.shutdownAdvance := by
  unfold BaseTradingPlatform.shutdownAdvance
  split
  · next hstage => exact h.close hstage
  · next hstage =>
    split
    · next hgone => exact h.reopen (.inl ⟨hstage, hgone⟩)
    · exact h
  · next hstage =>
    obtain ⟨hnone, hidle⟩ := ha hstage
    have hstop := h.stopping_of_ne (by simp [hstage])
    have hstopped := h.stopped_of_ne (by simp [hstage])
    have habsent := h.absent (.inl hstage)
    exact { h with
      alone := .inr ⟨hidle, _, by simp [BaseTradingPlatform.take, hnone]; rfl⟩
      stopping := by simp [BaseTradingPlatform.take, hstop]
      stopped := by simp [BaseTradingPlatform.take, hstopped]
      flag := by simp [BaseTradingPlatform.take, h.flag, hstage, ShutdownStage.shutsDown]
      worker := fun hw => by simp [BaseTradingPlatform.take, habsent] at hw
      absent := fun _ => habsent
      taken := fun _ _ _ => rfl
      cycle := fun _ _ _ => rfl }
  · next hstage =>
    have habsent := h.absent (.inr (.inr (by rw [hstage]; rfl)))
    have hs := h.reopen (.inr hstage)
    rwa [← habsent] at hs
  · next hstage =>
    split
    · exact h
    · next hr =>
      have hstop := h.stopping_of_ne (by simp [hstage])
      have habsent := h.absent (.inr (.inr (by rw [hstage]; rfl)))
      exact { h with
        stopping := by simp [hstop]
        stopped := by simp
        flag := by simp [h.flag, hstage, ShutdownStage.shutsDown]
        worker := fun hw => by simp [habsent] at hw
        absent := fun _ => habsent
        taken := fun t ht hto => by
          rw [h.taken t ht hto] at hstage
          cases hstage
        cycle := fun c hc hco => by
          rw [h.cycle c hc hco] at hstage
          cases hstage }
  all_goals exact h

theorem Stages.step {s : BaseTradingPlatform} (h : Stages s) (e : Event) (ha : Alone s e) : Stages (s.step e).1 := by
  cases e with
  | run w =>
      simp only [BaseTradingPlatform.step, run]
      split
      · exact h
      · split
        · exact h
        · next hstop =>
          split
          · exact h
          · exact { h with runCall := fun (hs : s.stopping = true) => by simp [hs] at hstop }
  | runAdvance nowMs => exact h.runAdvance nowMs
  | postTask nowMs =>
      simp only [BaseTradingPlatform.step, postTask]
      split
      · exact h
      · split
        · exact h
        · split
          · next hs => exact h.addTask hs
          · exact h
  | shutdown =>
      simp only [BaseTradingPlatform.step, shutdown]
      split
      · exact h
      · next hr =>
        split
        · exact h
        · next hstopped =>
          split
          · exact h
          · next hstop =>
            obtain ⟨halone, hstopping, hstopped, hflag, hrun, hworker, habsent, htaken, hcycle⟩ := h
            constructor <;> grind [ShutdownStage.shutsDown, ShutdownStage.over]
  | shutdownAdvance => exact h.shutdownAdvance ha
  | process => exact h.take ha (by simp)
  | workerTake =>
      simp only [BaseTradingPlatform.step, workerTake]
      split
      · next hw => exact h.take (ha hw) (by simp)
      · exact h
  | workerLeave =>
      simp only [BaseTradingPlatform.step, workerLeave]
      split
      · next hw =>
        obtain ⟨hlooping, hflag, -⟩ := hw
        have habsent := h.absent
        have hjoining : s.shutdownStage = .joining := by
          rw [h.flag] at hflag
          cases hs : s.shutdownStage <;> simp [hs, hlooping, ShutdownStage.shutsDown, ShutdownStage.over] at *
        exact { h with
          worker := fun _ => hjoining
          absent := fun hs => by simp [hjoining, ShutdownStage.over] at hs }
      · exact h
  | begin call nowMs =>
      simp only [BaseTradingPlatform.step, BaseTradingPlatform.begin]
      split
      · next t hc ht =>
        have htmem := List.mem_of_getElem? ht
        have hlone : s.taken = [t] ∧ call = 0 := by
          rcases h.alone with hnone | ⟨-, u, hu⟩
          · rw [hnone] at htmem
            cases htmem
          · rw [hu] at htmem ht
            obtain rfl := List.mem_singleton.mp htmem
            refine ⟨hu, ?_⟩
            have := (List.getElem?_eq_some_iff.mp ht).1
            simpa using this
        obtain ⟨halone, hstopping, hstopped, hflag, hrun, hworker, habsent, htaken, hcycle⟩ := h
        constructor <;> grind
      · exact h
  | advance =>
      simp only [BaseTradingPlatform.step, advance]
      split
      · exact h
      · next c hc =>
        obtain ⟨halone, hstopping, hstopped, hflag, hrun, hworker, habsent, htaken, hcycle⟩ := h
        split
        · constructor <;> grind
        · constructor <;> grind [ShutdownStage.shutsDown, ShutdownStage.over]

/-! ## The line -/

/-- The running tasks, those taken over and the pending ones. -/
def line (s : BaseTradingPlatform) : List PlatformTask :=
  (match s.cycle with
    | none => s.tasks
    | some c => c.passed ++ c.todo) ++ s.taken.flatMap (·.tasks) ++ s.pendingTasks

def live (s : BaseTradingPlatform) : List PlatformTask := s.line.filter (!·.task.completed)

theorem live_take (s : BaseTradingPlatform) (owner : Owner) : (s.take owner).live = s.live := by
  simp [live, line, take]

theorem live_begin {s : BaseTradingPlatform} (h : Stages s) (call nowMs : Nat) : (s.begin call nowMs).live = s.live := by
  unfold BaseTradingPlatform.begin
  split
  · next t hc ht =>
    have htmem := List.mem_of_getElem? ht
    rcases h.alone with hnone | ⟨-, u, hu⟩
    · rw [hnone] at htmem
      cases htmem
    · rw [hu] at htmem ht
      obtain rfl := List.mem_singleton.mp htmem
      have hcall : call = 0 := by simpa using (List.getElem?_eq_some_iff.mp ht).1
      simp [live, line, hc, hu, hcall]
  · rfl

theorem live_addTask {s s' : BaseTradingPlatform} {kind : TaskKind} {nowMs : Nat}
    (h : s.addTask kind nowMs = some s') :
    s' = { s with pendingTasks := s.pendingTasks ++ [added kind s.nextId nowMs], nextId := s.nextId + 1 } ∧
      s'.live = s.live ++ [added kind s.nextId nowMs] := by
  unfold addTask at h
  split at h
  · cases h
  · cases h
    refine ⟨rfl, ?_⟩
    have hopen := (added_fresh kind s.nextId nowMs).completed
    cases kind <;> simp [live, line, added, Utils.Task.create]

/-- Everything that holds of a platform whose calls do not overlap. -/
structure Orderly (ns : List Notice) (s : BaseTradingPlatform) : Prop where
  stages : Stages s
  tasks : Tasks ns s.live s.nextId s.taskShutdown
  unscheduled : s.stopping = false →
    (s.runCall = none ∧ s.running = false ∨ ∃ w, s.runCall = some (.scheduleInitialize, w)) →
      .initialized ∉ ns ∧ ∀ t ∈ s.live, t.kind = .external
  atLoop : ∀ w, s.runCall = some (.scheduleLoop, w) → .initialized ∈ ns ∨ ∃ u ∈ s.live, u.kind = .initialization
  passedOnce : ∀ c ∈ s.cycle, ∀ u ∈ c.passed, u.kind ≠ .loop → u.task.completed = true
  emptied : s.shutdownStage.over = true ∨ s.worker = .gone → s.live = []
  lastTaken : ∀ t ∈ s.taken, t.owner = .shutdown ∨ t.owner = .worker ∧ s.worker = .last → s.pendingTasks = []
  lastCycle : ∀ c ∈ s.cycle, c.owner = .shutdown ∨ c.owner = .worker ∧ s.worker = .last →
    s.pendingTasks = [] ∧ ∀ u ∈ c.passed, u.task.completed = true

theorem Orderly.empty : Orderly [] {} where
  stages := .empty
  tasks := .empty
  unscheduled := fun _ _ => by simp [live, line]
  atLoop := fun _ h => by cases h
  passedOnce := fun _ h => by cases h
  emptied := fun _ => rfl
  lastTaken := fun _ h => by cases h
  lastCycle := fun _ h => by cases h

/-- A task is added before `shutdown`. -/
theorem Orderly.add {ns : List Notice} {s s' : BaseTradingPlatform} (h : Orderly ns s) {kind : TaskKind} {nowMs : Nat}
    (hs : s.addTask kind nowMs = some s') (hstop : s.stopping = false)
    (hinit : kind = .initialization → .initialized ∉ ns ∧ ∀ t ∈ s.live, t.kind ≠ .initialization)
    (hloop : kind = .loop → .initialized ∈ ns ∨ ∃ u ∈ s.live, u.kind = .initialization) {r : Option (RunStage × Bool)}
    (hstages : Stages { s' with runCall := r })
    (hunscheduled : r = none ∧ s.running = false ∨ (∃ w, r = some (.scheduleInitialize, w)) →
      kind = .external ∧ .initialized ∉ ns ∧ ∀ t ∈ s.live, t.kind = .external)
    (hatLoop : ∀ w, r = some (.scheduleLoop, w) → kind = .initialization) :
    Orderly (ns ++ if kind = .external then [.accepted s.nextId] else []) { s' with runCall := r } := by
  have hidle := h.stages.stopping.mp hstop
  have hlive : live { s' with runCall := r } = s.live ++ [added kind s.nextId nowMs] := (live_addTask hs).2
  obtain ⟨rfl, -⟩ := live_addTask hs
  have hworker : ¬ (s.worker = .last ∨ s.worker = .gone) := fun hw => by
    rw [h.stages.worker hw] at hidle
    cases hidle
  have hnone : ∀ o : Owner, (o = .shutdown → s.shutdownStage = .processing) →
      ¬ (o = .shutdown ∨ o = .worker ∧ s.worker = .last) := by
    rintro o ho (hs | ⟨-, hs⟩)
    · rw [ho hs] at hidle
      cases hidle
    · exact hworker (.inl hs)
  exact {
    stages := hstages
    tasks := by
      have := h.tasks.add kind nowMs hinit hloop
      rwa [← hlive] at this
    unscheduled := fun _ hn => by
      obtain ⟨rfl, hns, hl⟩ := hunscheduled hn
      refine ⟨by simpa using hns, fun t ht => ?_⟩
      rw [hlive] at ht
      rcases List.mem_append.mp ht with ht | ht
      · exact hl t ht
      · rw [List.mem_singleton.mp ht, added_kind]
    atLoop := fun w hw => by
      obtain rfl := hatLoop w hw
      refine .inr ⟨added .initialization s.nextId nowMs, ?_, rfl⟩
      rw [hlive]
      simp
    passedOnce := h.passedOnce
    emptied := fun he => by
      rcases he with he | he
      · change s.shutdownStage.over = true at he
        rw [hidle] at he
        cases he
      · exact absurd (.inr he) hworker
    lastTaken := fun t ht ho => absurd ho (hnone _ (h.stages.taken t ht))
    lastCycle := fun c hc ho => absurd ho (hnone _ (h.stages.cycle c hc)) }

variable {ns : List Notice} {s : BaseTradingPlatform}

/-- A call takes the pending tasks over. -/
theorem Orderly.take (h : Orderly ns s) {owner : Owner} (hs : Stages (s.take owner)) (hc : s.cycle = none) :
    Orderly ns (s.take owner) where
  stages := hs
  tasks := by
    rw [live_take]
    exact h.tasks
  unscheduled := by
    rw [live_take]
    exact h.unscheduled
  atLoop := by
    rw [live_take]
    exact h.atLoop
  passedOnce := h.passedOnce
  emptied := by
    rw [live_take]
    exact h.emptied
  lastTaken := fun _ _ _ => rfl
  lastCycle := fun c hc' => by
    rw [BaseTradingPlatform.take, hc] at hc'
    cases hc'

theorem Orderly.runAdvance (h : Orderly ns s) (nowMs : Nat) : Orderly ns (s.runAdvance nowMs) := by
  have hstages := h.stages.runAdvance nowMs
  unfold BaseTradingPlatform.runAdvance at hstages ⊢
  split at hstages
  · exact h
  · next w hr =>
    obtain ⟨hstop, -, hflag⟩ := h.stages.runCall_idle (by simp [hr])
    obtain ⟨hns, hlive⟩ := h.unscheduled hstop (.inr ⟨w, hr⟩)
    split at hstages
    · next s' hs =>
      have hno : ∀ t ∈ s.live, t.kind ≠ .initialization := fun t ht hk => by
        rw [hlive t ht] at hk
        cases hk
      simpa using h.add hs hstop (fun _ => ⟨hns, hno⟩) (fun hk => by cases hk) hstages (by simp) (by simp)
    · next hs => simp [addTask, hflag] at hs
  · next w hr =>
    obtain ⟨hstop, -, hflag⟩ := h.stages.runCall_idle (by simp [hr])
    split at hstages
    · next s' hs =>
      simpa using h.add hs hstop (fun hk => by cases hk) (fun _ => h.atLoop w hr) hstages (by simp) (by simp)
    · next hs => simp [addTask, hflag] at hs
  · next w hr =>
    have hworker : ∀ v : Utils.Worker, v ≠ .looping →
        (if w && s.worker = .absent then Utils.Worker.looping else s.worker) = v → s.worker = v := by
      intro v hv heq
      split at heq
      · exact absurd heq.symm hv
      · exact heq
    exact {
      stages := hstages
      tasks := h.tasks
      unscheduled := fun _ hn => by simp at hn
      atLoop := fun _ hn => by simp at hn
      passedOnce := h.passedOnce
      emptied := fun he => h.emptied (he.imp_right (hworker .gone (by simp)))
      lastTaken := fun t ht ho => h.lastTaken t ht (ho.imp_right (And.imp_right (hworker .last (by simp))))
      lastCycle := fun c hc ho => h.lastCycle c hc (ho.imp_right (And.imp_right (hworker .last (by simp)))) }

/-- The task manager is open again, with no task left. -/
theorem Orderly.reopen (h : Orderly ns s)
    (hstage : s.shutdownStage = .joining ∧ s.worker = .gone ∨ s.shutdownStage = .processed) :
    Orderly ns { s with worker := .absent, taskShutdown := false, shutdownStage := .drained } := by
  have hlive : s.live = [] := by
    rcases hstage with ⟨-, hw⟩ | hs
    · exact h.emptied (.inr hw)
    · exact h.emptied (.inl (by simp [hs, ShutdownStage.over]))
  have hno : s.shutdownStage ≠ .processing := by rcases hstage with ⟨hs, -⟩ | hs <;> simp [hs]
  have hstop := h.stages.stopping_of_ne (by rcases hstage with ⟨hs, -⟩ | hs <;> simp [hs])
  exact {
    stages := h.stages.reopen hstage
    tasks := by
      have ht := h.tasks
      rw [hlive] at ht
      change Tasks ns s.live s.nextId false
      rw [hlive]
      exact ht.unflagged
    unscheduled := fun hs => by simp [hstop] at hs
    atLoop := fun w hw => h.atLoop w hw
    passedOnce := h.passedOnce
    emptied := fun _ => hlive
    lastTaken := fun t ht ho => by
      rcases ho with ho | ⟨-, ho⟩
      · exact absurd (h.stages.taken t ht ho) hno
      · cases ho
    lastCycle := fun c hc ho => by
      rcases ho with ho | ⟨-, ho⟩
      · exact absurd (h.stages.cycle c hc ho) hno
      · cases ho }

theorem Orderly.shutdownAdvance (h : Orderly ns s) (ha : Alone s .shutdownAdvance) : Orderly ns s.shutdownAdvance := by
  have hstages := h.stages.shutdownAdvance ha
  unfold BaseTradingPlatform.shutdownAdvance at hstages ⊢
  split at hstages <;> rename_i hstage
  · have hstop := h.stages.stopping_of_ne (by simp [hstage])
    exact { h with
      stages := hstages
      tasks := h.tasks.flagged
      unscheduled := fun hs => by simp [hstop] at hs
      emptied := fun he => h.emptied (by
        rcases he with he | he
        · simp only at he
          split at he <;> simp [ShutdownStage.over] at he
        · exact .inr he) }
  · split
    · next hgone => exact h.reopen (.inl ⟨hstage, hgone⟩)
    · exact h
  · have hstop := h.stages.stopping_of_ne (by simp [hstage])
    obtain ⟨-, hidle⟩ := ha hstage
    have hl : ({ s.take .shutdown with shutdownStage := .processing } : BaseTradingPlatform).live = s.live :=
      live_take s .shutdown
    exact {
      stages := hstages
      tasks := by
        rw [hl]
        exact h.tasks
      unscheduled := fun hs => by simp [BaseTradingPlatform.take, hstop] at hs
      atLoop := by
        rw [hl]
        exact h.atLoop
      passedOnce := h.passedOnce
      emptied := fun he => by
        rcases he with he | he
        · cases he
        · rw [hl]
          exact h.emptied (.inr he)
      lastTaken := fun _ _ _ => rfl
      lastCycle := fun c hc => by
        rw [BaseTradingPlatform.take, hidle] at hc
        cases hc }
  · have habsent := h.stages.absent (.inr (.inr (by rw [hstage]; rfl)))
    have hs := h.reopen (.inr hstage)
    rwa [← habsent] at hs
  · split
    · exact h
    · next hr =>
      simp only [hr, ite_false] at hstages
      exact { h with
        stages := hstages
        unscheduled := fun hs => by
          have hstop := h.stages.stopping_of_ne (by simp [hstage])
          simp [hstop] at hs
        emptied := fun _ => h.emptied (.inl (by simp [hstage, ShutdownStage.over])) }
  all_goals exact h

/-- The worker leaves its loop with no call in progress. -/
theorem Orderly.workerLeave (h : Orderly ns s) : Orderly ns s.workerLeave := by
  have hstages := h.stages.step .workerLeave trivial
  simp only [step] at hstages
  unfold BaseTradingPlatform.workerLeave at hstages ⊢
  split
  · next hw =>
    rw [if_pos hw] at hstages
    obtain ⟨hlooping, -, hbusy⟩ := hw
    simp only [workerBusy, Bool.or_eq_false_iff, List.any_eq_false, decide_eq_true_eq] at hbusy
    exact { h with
      stages := hstages
      emptied := fun he => h.emptied (he.imp_right fun hg => by cases hg)
      lastTaken := fun t ht ho => by
        rcases ho with ho | ⟨ho, -⟩
        · exact h.lastTaken t ht (.inl ho)
        · exact absurd ho (hbusy.1 t ht)
      lastCycle := fun c hc ho => by
        rcases ho with ho | ⟨ho, -⟩
        · exact h.lastCycle c hc (.inl ho)
        · have hb := hbusy.2
          rw [Option.mem_def.mp hc] at hb
          simp [ho] at hb }
  · exact h

theorem Orderly.begin (h : Orderly ns s) (call nowMs : Nat) : Orderly ns (s.begin call nowMs) := by
  have hlive := live_begin h.stages call nowMs
  have hstages := h.stages.step (.begin call nowMs) trivial
  simp only [step] at hstages
  unfold BaseTradingPlatform.begin at hlive hstages ⊢
  split at hlive
  · next t hc ht =>
    have htmem := List.mem_of_getElem? ht
    simp only [hc, ht] at hstages
    exact {
      stages := hstages
      tasks := by
        rw [hlive]
        exact h.tasks
      unscheduled := by
        rw [hlive]
        exact h.unscheduled
      atLoop := by
        rw [hlive]
        exact h.atLoop
      passedOnce := fun c hc u hu => by
        cases hc
        cases hu
      emptied := by
        rw [hlive]
        exact h.emptied
      lastTaken := fun u hu => h.lastTaken u (List.mem_of_mem_eraseIdx hu)
      lastCycle := fun c hc ho => by
        cases hc
        exact ⟨h.lastTaken t htmem ho, fun u hu => by cases hu⟩ }
  · exact h

/-- During a cycle nothing else is taken over. -/
theorem Stages.taken_nil (h : Stages s) {c : Cycle} (hc : s.cycle = some c) : s.taken = [] := by
  rcases h.alone with hnone | ⟨hidle, -⟩
  · exact hnone
  · rw [hc] at hidle
    cases hidle

/-- The last call of the shutdown has the task manager shut down. -/
theorem Stages.flag_of_last (h : Stages s) {c : Cycle} (hc : s.cycle = some c)
    (ho : c.owner = .shutdown ∨ c.owner = .worker ∧ s.worker = .last) : s.taskShutdown = true := by
  rw [h.flag]
  rcases ho with ho | ⟨-, ho⟩
  · rw [h.cycle c hc ho]
    rfl
  · rw [h.worker (.inl ho)]
    rfl

/-- The end of a cycle. -/
theorem Orderly.endCycle (h : Orderly ns s) {c : Cycle} (hc : s.cycle = some c) (htodo : c.todo = []) :
    Orderly ns (s.step .advance).1 := by
  have hstages := h.stages.step .advance trivial
  have htaken := h.stages.taken_nil hc
  have hlive : (s.step .advance).1.live = s.live := by
    simp [step, advance, hc, htodo, live, line, htaken, List.filter_append]
  have hline : s.live = (c.passed ++ s.pendingTasks).filter (!·.task.completed) := by
    simp [live, line, hc, htodo, htaken]
  simp only [step, advance, hc, htodo] at hstages hlive ⊢
  exact {
    stages := hstages
    tasks := by
      rw [hlive]
      exact h.tasks
    unscheduled := by
      rw [hlive]
      exact h.unscheduled
    atLoop := by
      rw [hlive]
      exact h.atLoop
    passedOnce := fun _ hc => by cases hc
    emptied := fun he => by
      rw [hlive]
      by_cases hlast : c.owner = .shutdown ∨ c.owner = .worker ∧ s.worker = .last
      · obtain ⟨hpending, hpassed⟩ := h.lastCycle c hc hlast
        rw [hline, hpending, List.append_nil, List.filter_eq_nil_iff]
        exact fun u hu => by simpa using hpassed u hu
      · refine h.emptied ?_
        rw [not_or] at hlast
        simpa only [if_neg hlast.1, if_neg hlast.2] using he
    lastTaken := fun t ht => by
      rw [htaken] at ht
      cases ht
    lastCycle := fun _ hc => by cases hc }

/-- The state after the turn of a task. -/
def afterTurn (s : BaseTradingPlatform) (c : Cycle) (t : PlatformTask) (todo : List PlatformTask) :
    BaseTradingPlatform :=
  { s with cycle := some { c with passed := c.passed ++ [(turn t c.nowMs s.taskShutdown).1], todo } }

theorem step_turn {c : Cycle} {t : PlatformTask} {todo : List PlatformTask} (hc : s.cycle = some c)
    (htodo : c.todo = t :: todo) :
    s.step .advance = (s.afterTurn c t todo, (turn t c.nowMs s.taskShutdown).2) := by
  simp [step, advance, hc, htodo, afterTurn]

/-- A task that was over stays so; one in the line ends in its turn or, as the loop task, stays in its place. -/
theorem turn_cases {c : Cycle} {t : PlatformTask} {todo : List PlatformTask} (h : Orderly ns s)
    (hc : s.cycle = some c) (htodo : c.todo = t :: todo) :
    let r := turn t c.nowMs s.taskShutdown
    r.1.task.completed = true ∧ r.2 = [] ∧ (s.afterTurn c t todo).live = s.live ∨
      ∃ pre post, s.live = pre ++ t :: post ∧ (∀ u ∈ pre, u ∈ c.passed ∧ u.task.completed = false) ∧
        (r.1.task.completed = true ∧ r.2 = callback t s.taskShutdown ∧ (t.kind = .loop → s.taskShutdown = true) ∧
            (s.afterTurn c t todo).live = pre ++ post ∨
          t.kind = .loop ∧ s.taskShutdown = false ∧ Fresh r.1 ∧ (r.2 = [] ∨ r.2 = [.looped]) ∧
            (s.afterTurn c t todo).live = pre ++ r.1 :: post) := by
  have htaken := h.stages.taken_nil hc
  intro r
  have hbefore : s.live = c.passed.filter (!·.task.completed) ++
      ([t].filter (!·.task.completed) ++ (todo ++ s.pendingTasks).filter (!·.task.completed)) := by
    simp only [live, line, hc, htodo, htaken, List.flatMap_nil, List.append_nil, ← List.filter_append]
    simp
  have hafter : (s.afterTurn c t todo).live = c.passed.filter (!·.task.completed) ++
      ([r.1].filter (!·.task.completed) ++ (todo ++ s.pendingTasks).filter (!·.task.completed)) := by
    simp only [live, line, afterTurn, htaken, List.flatMap_nil, List.append_nil, ← List.filter_append]
    simp [r]
  cases hcompleted : t.task.completed with
  | true =>
      obtain ⟨hr, hsaid⟩ := @turn_of_completed t c.nowMs s.taskShutdown hcompleted
      refine .inl ⟨hr, hsaid, ?_⟩
      rw [hbefore, hafter]
      simp [hcompleted, r, hr]
  | false =>
      have hlive : s.live = c.passed.filter (!·.task.completed) ++
          t :: (todo ++ s.pendingTasks).filter (!·.task.completed) := by
        rw [hbefore]
        simp [hcompleted]
      have hfresh := h.tasks.fresh t (by
        rw [hlive]
        simp)
      refine .inr ⟨_, _, hlive, fun u hu => by simpa using List.mem_filter.mp hu, ?_⟩
      by_cases hk : t.kind = .loop
      · obtain ⟨hr, hsaid, hagain⟩ := @turn_loop t c.nowMs s.taskShutdown hfresh hk
        cases hflag : s.taskShutdown with
        | true =>
            rw [hflag] at hr hsaid
            have hempty : callback t true = [] := by simp [callback, hk]
            refine .inl ⟨by simpa [r, hflag] using hr, ?_, fun _ => rfl, ?_⟩
            · rcases hsaid with hsaid | hsaid
              · rw [hempty]
                simpa [r, hflag] using hsaid
              · simpa [r, hflag] using hsaid
            · rw [hafter]
              simp [r, hflag, hr]
        | false =>
            refine .inr ⟨hk, rfl, hagain hflag, ?_, ?_⟩
            · rcases hsaid with hsaid | hsaid
              · exact .inl hsaid
              · exact .inr (by rw [hsaid, hflag]; simp [callback, hk])
            · rw [hafter]
              have hopen := (hagain hflag).completed
              simp [r, hopen]
      · obtain ⟨hr, hsaid⟩ := @turn_once t c.nowMs s.taskShutdown hfresh hk
        refine .inl ⟨hr, hsaid, fun hloop => absurd hloop hk, ?_⟩
        rw [hafter]
        simp [r, hr]

/-- The turn of a task. -/
theorem Orderly.afterTurn {c : Cycle} {t : PlatformTask} {todo : List PlatformTask} (h : Orderly ns s)
    (hc : s.cycle = some c) (htodo : c.todo = t :: todo) :
    Orderly (ns ++ (s.step .advance).2) (s.step .advance).1 := by
  have hstages := h.stages.step .advance trivial
  have hcases := turn_cases h hc htodo
  rw [step_turn hc htodo] at hstages ⊢
  simp only at hcases hstages ⊢
  have hinit : Notice.initialized ∈ (turn t c.nowMs s.taskShutdown).2 → t ∈ s.live ∧ t.kind = .initialization := by
    intro hmem
    rcases hcases with ⟨-, hsaid, -⟩ | ⟨pre, post, hbefore, -, ⟨-, hsaid, -, -⟩ | ⟨-, -, -, hsaid, -⟩⟩
    · simp [hsaid] at hmem
    · refine ⟨by simp [hbefore], ?_⟩
      rw [hsaid, callback] at hmem
      cases hk : t.kind <;> cases hf : s.taskShutdown <;> simp [hk, hf] at hmem ⊢
    · rcases hsaid with hsaid | hsaid <;> simp [hsaid] at hmem
  exact {
    stages := hstages
    tasks := by
      rcases hcases with ⟨-, hsaid, hlive⟩ | ⟨pre, post, hbefore, -, ⟨-, hsaid, hloop, hlive⟩ | ⟨hk, hflag, hf, hsaid, hlive⟩⟩
      · rw [hsaid, List.append_nil, hlive]
        exact h.tasks
      · have ht := h.tasks
        rw [hbefore] at ht
        rw [hsaid, hlive]
        exact ht.finish hloop
      · have ht := h.tasks
        rw [hbefore] at ht
        rw [hlive]
        exact ht.again hk turn_id hk hf hsaid
    unscheduled := fun hstop hn => by
      obtain ⟨hns, hl⟩ := h.unscheduled hstop hn
      refine ⟨fun hmem => ?_, fun u hu => ?_⟩
      · rcases List.mem_append.mp hmem with hmem | hmem
        · exact hns hmem
        · obtain ⟨ht, hk⟩ := hinit hmem
          rw [hl t ht] at hk
          cases hk
      · rcases hcases with ⟨-, -, hlive⟩ | ⟨pre, post, hbefore, -, ⟨-, -, -, hlive⟩ | ⟨hk, -⟩⟩
        · rw [hlive] at hu
          exact hl u hu
        · rw [hlive] at hu
          refine hl u ?_
          rw [hbefore]
          exact (List.sublist_cons_self t post).append_left pre |>.subset hu
        · have := hl t (by simp [hbefore])
          rw [hk] at this
          cases this
    atLoop := fun w hw => by
      have hflag := (h.stages.runCall_idle (by
        rw [show s.runCall = _ from hw]
        simp)).2.2
      rcases h.atLoop w hw with hi | ⟨u, hu, hk⟩
      · exact .inl (List.mem_append_left _ hi)
      · rcases hcases with ⟨-, -, hlive⟩ | ⟨pre, post, hbefore, -, ⟨-, hsaid, -, hlive⟩ | ⟨hloop, -, -, -, hlive⟩⟩
        · rw [hlive]
          exact .inr ⟨u, hu, hk⟩
        · rw [hbefore, List.mem_append, List.mem_cons] at hu
          rw [hlive, hsaid]
          rcases hu with hu | rfl | hu
          · exact .inr ⟨u, List.mem_append_left _ hu, hk⟩
          · exact .inl (by simp [callback, hk, hflag])
          · exact .inr ⟨u, List.mem_append_right _ hu, hk⟩
        · rw [hbefore, List.mem_append, List.mem_cons] at hu
          rw [hlive]
          rcases hu with hu | rfl | hu
          · exact .inr ⟨u, List.mem_append_left _ hu, hk⟩
          · rw [hk] at hloop
            cases hloop
          · exact .inr ⟨u, List.mem_append_right _ (List.mem_cons_of_mem _ hu), hk⟩
    passedOnce := fun c' hc' u hu hk => by
      cases hc'
      rcases List.mem_append.mp hu with hu | hu
      · exact h.passedOnce c hc u hu hk
      · rw [List.mem_singleton.mp hu] at hk ⊢
        rcases hcases with ⟨hr, -⟩ | ⟨pre, post, -, -, ⟨hr, -⟩ | ⟨hloop, -⟩⟩
        · exact hr
        · exact hr
        · exact absurd hloop hk
    emptied := fun he => by
      have hnil := h.emptied he
      rcases hcases with ⟨-, -, hlive⟩ | ⟨pre, post, hbefore, -⟩
      · rw [hlive]
        exact hnil
      · simp [hnil] at hbefore
    lastTaken := fun u hu => by
      have htaken := h.stages.taken_nil hc
      change u ∈ s.taken at hu
      rw [htaken] at hu
      cases hu
    lastCycle := fun c' hc' ho => by
      cases hc'
      obtain ⟨hpending, hpassed⟩ := h.lastCycle c hc ho
      refine ⟨hpending, fun u hu => ?_⟩
      rcases List.mem_append.mp hu with hu | hu
      · exact hpassed u hu
      · rw [List.mem_singleton.mp hu]
        have hflag := h.stages.flag_of_last hc ho
        rcases hcases with ⟨hr, -⟩ | ⟨pre, post, -, -, ⟨hr, -⟩ | ⟨-, hflag', -⟩⟩
        · exact hr
        · exact hr
        · rw [hflag] at hflag'
          cases hflag' }

theorem Orderly.refused (h : Orderly ns s) : Orderly (ns ++ [.refused]) s :=
  { h with
    tasks := h.tasks.refused
    unscheduled := fun hs hn => by simpa using h.unscheduled hs hn
    atLoop := fun w hw => by simpa using h.atLoop w hw }

/-- Every step keeps the line in order. -/
theorem Orderly.step (h : Orderly ns s) (e : Event) (ha : Alone s e) :
    Orderly (ns ++ (s.step e).2) (s.step e).1 := by
  have hstages := h.stages.step e ha
  cases e with
  | run w =>
      simp only [BaseTradingPlatform.step, run, List.append_nil] at hstages ⊢
      split
      · exact h
      · next hr =>
        split
        · exact h
        · next hstop =>
          split
          · exact h
          · next hrunning =>
            rw [if_neg hr, if_neg hstop, if_neg hrunning] at hstages
            exact { h with
              stages := hstages
              unscheduled := fun hs _ => h.unscheduled hs (.inl ⟨not_not.mp hr, by simpa using hrunning⟩)
              atLoop := fun w hw => by simp at hw }
  | runAdvance nowMs => simpa [BaseTradingPlatform.step] using h.runAdvance nowMs
  | postTask nowMs =>
      simp only [BaseTradingPlatform.step, postTask] at hstages ⊢
      by_cases hr : s.runCall = none
      · by_cases hstop : s.stopping || s.stopped
        · simpa [hr, hstop] using h.refused
        · have hstop' : s.stopping = false := by
            cases hs : s.stopping <;> simp [hs] at hstop ⊢
          cases hs : s.addTask .external nowMs with
          | none => simpa [hr, hstop, hs] using h.refused
          | some s' =>
              have hr' : s'.runCall = none := by rw [(live_addTask hs).1, hr]
              have hrunning : s'.running = s.running := by rw [(live_addTask hs).1]
              simp only [hr, hstop, hs, ne_eq, not_true, ite_false, Bool.false_eq_true] at hstages ⊢
              exact h.add hs hstop' (fun hk => by cases hk) (fun hk => by cases hk) hstages
                (fun hn => ⟨rfl, h.unscheduled hstop' (by simpa [hr, hr'] using hn)⟩) (fun w hw => by
                  rw [hr'] at hw
                  cases hw)
      · simpa [hr] using h
  | shutdown =>
      simp only [BaseTradingPlatform.step, shutdown, List.append_nil] at hstages ⊢
      split
      · exact h
      · next hr =>
        split
        · exact h
        · next hstopped =>
          split
          · exact h
          · next hstop =>
            rw [if_neg hr, if_neg hstopped, if_neg hstop] at hstages
            have hidle := h.stages.stopping.mp (by simpa using hstop)
            exact { h with
              stages := hstages
              unscheduled := fun hs => by cases hs
              emptied := fun he => h.emptied (he.imp_left fun he => by cases he) }
  | shutdownAdvance => simpa [BaseTradingPlatform.step] using h.shutdownAdvance ha
  | process =>
      simp only [BaseTradingPlatform.step, List.append_nil] at hstages ⊢
      exact h.take hstages ha.2
  | workerTake =>
      simp only [BaseTradingPlatform.step, workerTake, List.append_nil] at hstages ⊢
      split
      · next hw =>
        rw [if_pos hw] at hstages
        exact h.take hstages (ha hw).2
      · exact h
  | workerLeave => simpa [BaseTradingPlatform.step] using h.workerLeave
  | begin call nowMs => simpa [BaseTradingPlatform.step] using h.begin call nowMs
  | advance =>
      cases hc : s.cycle with
      | none => simpa [BaseTradingPlatform.step, advance, hc] using h
      | some c =>
          cases htodo : c.todo with
          | nil =>
              have hsaid : (s.step .advance).2 = [] := by simp [BaseTradingPlatform.step, advance, hc, htodo]
              rw [hsaid, List.append_nil]
              exact h.endCycle hc htodo
          | cons t todo => exact h.afterTurn hc htodo

/-! ## What a step says -/

/-- What the callbacks do is done in the turn of a task of the line, in its order. -/
theorem Orderly.turn_said (h : Orderly ns s) {n : Notice} (hn : n ∈ (s.step .advance).2) :
    ∃ t ∈ s.live, n ∈ callback t s.taskShutdown ∧
      ∀ u ∈ s.live, u.kind ≠ .loop → u.task.id < t.task.id → False := by
  cases hc : s.cycle with
  | none => simp [BaseTradingPlatform.step, advance, hc] at hn
  | some c =>
      cases htodo : c.todo with
      | nil => simp [BaseTradingPlatform.step, advance, hc, htodo] at hn
      | cons t todo =>
          rw [step_turn hc htodo] at hn
          rcases turn_cases h hc htodo with ⟨-, hsaid, -⟩ | ⟨pre, post, hbefore, hpre, hsaid⟩
          · simp [hsaid] at hn
          · refine ⟨t, by simp [hbefore], ?_, fun u hu hk hlt => ?_⟩
            · rcases hsaid with ⟨-, hsaid, -, -⟩ | ⟨hk, hflag, -, hsaid, -⟩
              · rwa [hsaid] at hn
              · rcases hsaid with hsaid | hsaid
                · simp [hsaid] at hn
                · rw [hsaid] at hn
                  simpa [callback, hk, hflag] using hn
            · -- the line is in the order of the numbers, and of the tasks before this one only the loop task is left
              have hs := h.tasks.sorted
              rw [hbefore, List.mem_append] at hu
              rw [hbefore, List.pairwise_append, List.pairwise_cons] at hs
              rcases hu with hu | hu
              · have hcompleted := h.passedOnce c hc u (hpre u hu).1 hk
                rw [(hpre u hu).2] at hcompleted
                cases hcompleted
              · rcases List.mem_cons.mp hu with rfl | hu
                · exact lt_irrefl _ hlt
                · exact lt_asymm hlt (hs.2.1.1 u hu)

/-- Only a turn and `postTask` say anything. -/
theorem step_said {e : Event} {n : Notice} (hn : n ∈ (s.step e).2) :
    e = .advance ∨ (∃ nowMs, e = .postTask nowMs) ∧
      (n = .refused ∧ (s.step e).1 = s ∨ n = .accepted s.nextId ∧ s.stopping = false) := by
  cases e with
  | advance => exact .inl rfl
  | postTask nowMs =>
      refine .inr ⟨⟨nowMs, rfl⟩, ?_⟩
      simp only [step, postTask] at hn ⊢
      split at hn
      · cases hn
      · next hr =>
        split at hn
        · next hstop =>
          rw [if_neg hr, if_pos hstop]
          exact .inl ⟨List.mem_singleton.mp hn, rfl⟩
        · next hstop =>
          rw [if_neg hr, if_neg hstop]
          split at hn
          · exact .inr ⟨List.mem_singleton.mp hn, by
              cases hs : s.stopping <;> simp [hs] at hstop ⊢⟩
          · exact .inl ⟨List.mem_singleton.mp hn, rfl⟩
  | run | runAdvance | shutdown | shutdownAdvance | process | workerTake | workerLeave | begin => cases hn

theorem mem_callback {t : PlatformTask} {flag : Bool} {n : Notice} (hn : n ∈ callback t flag) :
    flag = false ∧ (n = .initialized ∨ n = .looped ∧ t.kind = .loop ∨ n = .worked t.task.id) ∨
      flag = true ∧ n = .cancelled t.task.id := by
  unfold callback at hn
  cases hk : t.kind <;> cases hf : flag <;> simp [hk, hf] at hn <;> simp [hn]

/-- The components are initialised before they are processed. -/
theorem Orderly.initialized_before (h : Orderly ns s) {e : Event} (hn : .looped ∈ (s.step e).2) :
    .initialized ∈ ns := by
  rcases step_said hn with rfl | ⟨-, ⟨hn, -⟩ | ⟨hn, -⟩⟩
  · obtain ⟨t, ht, hsaid, hfirst⟩ := h.turn_said hn
    rcases mem_callback hsaid with ⟨hflag, hn | ⟨-, hk⟩ | hn⟩ | ⟨-, hn⟩
    · cases hn
    · rcases h.tasks.beforeLoop t ht hk with hi | hf | ⟨u, hu, hku, hlt⟩
      · exact hi
      · rw [hflag] at hf
        cases hf
      · exact (hfirst u hu (by simp [hku]) hlt).elim
    · cases hn
    · cases hn
  · cases hn
  · cases hn

/-- What a callback does before the shutdown it does before the task manager shuts down. -/
theorem Orderly.open_of_turn (h : Orderly ns s) {t : PlatformTask} (ht : t ∈ s.live) (hflag : s.taskShutdown = false) :
    s.shutdownStage = .idle ∨ s.shutdownStage = .entered := by
  have hclosed : s.shutdownStage.over = false := by
    cases hs : s.shutdownStage.over
    · rfl
    · rw [h.emptied (.inl hs)] at ht
      cases ht
  rw [h.stages.flag] at hflag
  cases hs : s.shutdownStage <;> simp [hs, ShutdownStage.shutsDown, ShutdownStage.over] at hflag hclosed ⊢

/-- After `shutdown` calls of `run` and `postTask` change nothing. -/
theorem Stages.closed (h : Stages s) (hs : s.shutdownStage = .returned) {e : Event}
    (he : (∃ w, e = .run w) ∨ (∃ nowMs, e = .runAdvance nowMs) ∨ ∃ nowMs, e = .postTask nowMs) :
    (s.step e).1 = s := by
  have hstopped := h.stopped.mpr hs
  have hrun := h.runCall (h.stopping_of_ne (by simp [hs]))
  rcases he with ⟨w, rfl⟩ | ⟨nowMs, rfl⟩ | ⟨nowMs, rfl⟩
  · simp [BaseTradingPlatform.step, run, hrun, hstopped]
  · simp [BaseTradingPlatform.step, BaseTradingPlatform.runAdvance, hrun]
  · simp [BaseTradingPlatform.step, postTask, hrun, hstopped]

theorem postTask_length (s : BaseTradingPlatform) (nowMs : Nat) : (s.step (.postTask nowMs)).2.length ≤ 1 := by
  simp only [step, postTask]
  split
  · exact Nat.zero_le 1
  · split
    · exact le_refl 1
    · split <;> exact le_refl 1

end OptionX.Platforms.BaseTradingPlatform
