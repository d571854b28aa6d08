import OptionX.IntradeBar.ActiveTradesSync
import OptionX.Utils.Lemmas.Task
import OptionX.Lib.Run

/-!
# The steps of the synchronisation

One request at most is current, it is the last one sent, and it belongs to the present account context. The flag of
the refresh task is up only while there is such a task. What a cycle of the task manager does is said of its turns
first.
-/

namespace OptionX.IntradeBar

namespace ActiveTradesSyncManager

variable {nowMs : Int} {reason : String} {held todo : List RefreshTask} {s : ActiveTradesSyncManager}

/-! ## The state between the steps -/

/-- A task that waits for its time. -/
def Waiting (t : RefreshTask) : Prop :=
  t.task.type = .delayedSingle ∧ t.task.completed = false ∧ t.task.shutdown = false

/-- The state of the manager, where `held` are the running tasks of its task manager. -/
structure Sound (held : List RefreshTask) (s : ActiveTradesSyncManager) : Prop where
  opened : s.tasksShutdown = false
  waiting : ∀ t ∈ held ++ s.pendingTasks, Waiting t
  scheduled : s.refreshScheduled = true → held ++ s.pendingTasks ≠ []
  progress : s.syncInProgress = true ↔ s.activeSyncGeneration ≠ 0
  current : s.activeSyncGeneration ≠ 0 → s.activeSyncGeneration = s.syncGeneration ∧
    ∃ r, s.requests.getLast? = some r ∧ r.generation = s.activeSyncGeneration ∧
      r.accountContext.generation = s.accountContextGeneration
  sent : s.requests.Pairwise (·.generation < ·.generation)
  bounded : ∀ r ∈ s.requests, 0 < r.generation ∧ r.generation ≤ s.syncGeneration

theorem Sound.initial : Sound [] {} :=
  ⟨rfl, fun _ h => (by cases h), fun h => (by cases h), by decide, fun h => absurd rfl h, .nil,
    fun _ h => (by cases h)⟩

/-- Requests are told apart by their generations. -/
theorem Sound.same (h : Sound held s) {r r' : SnapshotRequest} (hr : r ∈ s.requests) (hr' : r' ∈ s.requests)
    (hg : r.generation = r'.generation) : r = r' := by
  have hnodup : (s.requests.map (·.generation)).Nodup := List.pairwise_map.mpr (h.sent.imp fun hlt => hlt.ne)
  exact List.inj_on_of_nodup_map hnodup hr hr' hg

/-- The other fields change nothing. -/
theorem Sound.congr (h : Sound held s) {s' : ActiveTradesSyncManager} (hopened : s'.tasksShutdown = s.tasksShutdown)
    (hpending : s'.pendingTasks = s.pendingTasks) (hscheduled : s'.refreshScheduled = s.refreshScheduled)
    (hprogress : s'.syncInProgress = s.syncInProgress) (hactive : s'.activeSyncGeneration = s.activeSyncGeneration)
    (hgeneration : s'.syncGeneration = s.syncGeneration)
    (hcontext : s'.accountContextGeneration = s.accountContextGeneration) (hrequests : s'.requests = s.requests) :
    Sound held s' := by
  obtain ⟨h1, h2, h3, h4, h5, h6, h7⟩ := h
  exact ⟨by rw [hopened]; exact h1, by rw [hpending]; exact h2, by rw [hscheduled, hpending]; exact h3,
    by rw [hprogress, hactive]; exact h4, by rw [hactive, hgeneration, hrequests, hcontext]; exact h5,
    by rw [hrequests]; exact h6, by rw [hrequests, hgeneration]; exact h7⟩

/-! ## Sending and scheduling -/

theorem Sound.scheduleSync (h : Sound held s) (nowMs : Int) (reason : String) :
    Sound held (s.scheduleSync nowMs reason) := by
  unfold ActiveTradesSyncManager.scheduleSync
  split
  · exact h
  split
  · exact h
  simp only [addDelayedTask, h.opened, Bool.false_eq_true, if_false]
  refine ⟨rfl, fun t ht => ?_, fun _ => by simp, h.progress, h.current, h.sent, h.bounded⟩
  simp only [← List.append_assoc, List.mem_append, List.mem_singleton] at ht
  rcases ht with (ht | ht) | rfl
  · exact h.waiting t (List.mem_append_left _ ht)
  · exact h.waiting t (List.mem_append_right _ ht)
  · exact ⟨rfl, rfl, rfl⟩

/-- A refresh that is asked for on a connected account is waiting afterwards. -/
theorem scheduleSync_waits (h : Sound held s) (hc : s.accountInfo.connect = true) :
    held ++ (s.scheduleSync nowMs reason).pendingTasks ≠ [] := by
  unfold scheduleSync
  split
  · next hflag => exact h.scheduled hflag
  rw [if_neg (by simp [hc])]
  simp [addDelayedTask, h.opened]

theorem scheduleSync_disconnected (hc : s.accountInfo.connect = false) : s.scheduleSync nowMs reason = s := by
  unfold scheduleSync
  split <;> simp [hc]

/-- What `schedule_sync` leaves as it is. -/
theorem scheduleSync_frame :
    (s.scheduleSync nowMs reason).accountInfo = s.accountInfo ∧
      (s.scheduleSync nowMs reason).syncInProgress = s.syncInProgress ∧
      (s.scheduleSync nowMs reason).syncGeneration = s.syncGeneration ∧
      (s.scheduleSync nowMs reason).activeSyncGeneration = s.activeSyncGeneration ∧
      (s.scheduleSync nowMs reason).accountContextGeneration = s.accountContextGeneration ∧
      (s.scheduleSync nowMs reason).requests = s.requests ∧ (s.scheduleSync nowMs reason).tasks = s.tasks := by
  unfold scheduleSync addDelayedTask
  split
  · simp
  split
  · simp
  · dsimp only
    split <;> simp

theorem Sound.requestSync (h : Sound held s) (nowMs : Int) (reason : String) :
    Sound held (s.requestSync nowMs reason).1 := by
  unfold ActiveTradesSyncManager.requestSync
  split
  · exact h.scheduleSync nowMs reason
  split
  · exact h
  refine ⟨h.opened, h.waiting, fun hf => (by cases hf), ⟨fun _ => Nat.succ_ne_zero _, fun _ => rfl⟩,
    fun _ => ⟨rfl, _, List.getLast?_concat .., rfl, rfl⟩, ?_, ?_⟩
  · refine List.pairwise_append.mpr ⟨h.sent, List.pairwise_singleton _ _, fun r hr r' hr' => ?_⟩
    rw [List.mem_singleton.mp hr']
    exact Nat.lt_succ_of_le (h.bounded r hr).2
  · intro r hr
    rcases List.mem_append.mp hr with hr | hr
    · exact ⟨(h.bounded r hr).1, Nat.le_succ_of_le (h.bounded r hr).2⟩
    · rw [List.mem_singleton.mp hr]
      exact ⟨Nat.succ_pos _, Nat.le_refl _⟩

/-- A request that is asked for on a connected account is current afterwards. -/
theorem requestSync_current (h : Sound held s) (hc : s.accountInfo.connect = true) :
    (s.requestSync nowMs reason).1.activeSyncGeneration ≠ 0 := by
  unfold requestSync
  split
  · next hp =>
    rw [scheduleSync_frame.2.2.2.1]
    exact h.progress.mp hp
  · simp [hc]

theorem requestSync_disconnected (hc : s.accountInfo.connect = false) : s.requestSync nowMs reason = (s, []) := by
  unfold requestSync
  split <;> simp [hc, scheduleSync_disconnected]

/-- A current request stays current. -/
theorem requestSync_stays (h : Sound held s) (hactive : s.activeSyncGeneration ≠ 0) :
    (s.requestSync nowMs reason).1.activeSyncGeneration ≠ 0 := by
  rw [requestSync, if_pos (h.progress.mpr hactive), scheduleSync_frame.2.2.2.1]
  exact hactive

@[simp] theorem requestSync_accountInfo : (s.requestSync nowMs reason).1.accountInfo = s.accountInfo := by
  unfold requestSync
  split
  · exact scheduleSync_frame.1
  split <;> rfl

@[simp] theorem requestSync_context :
    (s.requestSync nowMs reason).1.accountContextGeneration = s.accountContextGeneration := by
  unfold requestSync
  split
  · exact scheduleSync_frame.2.2.2.2.1
  split <;> rfl

@[simp] theorem requestSync_tasks : (s.requestSync nowMs reason).1.tasks = s.tasks := by
  unfold requestSync
  split
  · exact scheduleSync_frame.2.2.2.2.2.2
  split <;> rfl

/-! ## What a step says of its requests -/

def Notice.request? : Notice → Option SnapshotRequest
  | .requested request => some request
  | .availability _ _ | .snapshot _ _ _ => none

def Notice.isSnapshot : Notice → Bool
  | .snapshot _ _ _ => true
  | .availability _ _ | .requested _ => false

theorem requestSync_noSnapshot : ∀ n ∈ (s.requestSync nowMs reason).2, n.isSnapshot = false := by
  unfold requestSync
  split
  · simp
  split <;> simp [Notice.isSnapshot]

/-- The requests of the answer are those that are added, in the context that the step ends in, and a request that is
current afterwards and was not before is one of them. -/
structure Sends (s s' : ActiveTradesSyncManager) (ns : List Notice) : Prop where
  requests : s'.requests = s.requests ++ ns.filterMap Notice.request?
  context : ∀ r ∈ ns.filterMap Notice.request?, r.accountContext.generation = s'.accountContextGeneration
  active : s'.activeSyncGeneration = s.activeSyncGeneration ∨ s'.activeSyncGeneration = 0 ∨
    s.syncGeneration < s'.activeSyncGeneration
  generation : s.syncGeneration ≤ s'.syncGeneration

theorem Sends.refl : Sends s s [] := ⟨by simp, by simp, .inl rfl, Nat.le_refl _⟩

theorem Sends.trans {s' s'' : ActiveTradesSyncManager} {ns ns' : List Notice} (h : Sends s s' ns)
    (h' : Sends s' s'' ns') (hcontext : s''.accountContextGeneration = s'.accountContextGeneration) :
    Sends s s'' (ns ++ ns') := by
  refine ⟨?_, fun r hr => ?_, ?_, h.generation.trans h'.generation⟩
  · rw [h'.requests, h.requests, List.filterMap_append, List.append_assoc]
  · rw [List.filterMap_append, List.mem_append] at hr
    rcases hr with hr | hr
    · rw [hcontext]
      exact h.context r hr
    · exact h'.context r hr
  · have := h.generation
    rcases h'.active with hactive | hactive | hactive
    · rw [hactive]
      exact h.active
    · exact .inr (.inl hactive)
    · exact .inr (.inr (by omega))

theorem scheduleSync_sends : Sends s (s.scheduleSync nowMs reason) [] := by
  obtain ⟨-, -, hgeneration, hactive, -, hrequests, -⟩ := @scheduleSync_frame nowMs reason s
  exact ⟨by simp [hrequests], by simp, .inl hactive, hgeneration.ge⟩

theorem requestSync_sends : Sends s (s.requestSync nowMs reason).1 (s.requestSync nowMs reason).2 := by
  unfold requestSync
  split
  · exact scheduleSync_sends
  split
  · exact .refl
  · refine ⟨rfl, fun r hr => ?_, .inr (.inr (Nat.lt_succ_self _)), Nat.le_succ _⟩
    obtain rfl := List.mem_singleton.mp hr
    rfl

/-! ## A cycle of the task manager -/

theorem Waiting.turn {t : RefreshTask} (h : Waiting t) (nowMs : Int) :
    (t.turn nowMs false).2 = t.task.runs nowMs ∧ (t.turn nowMs false).1.completed = t.task.runs nowMs ∧
      (t.turn nowMs false).1.shutdown = false ∧ (t.turn nowMs false).1.type = .delayedSingle := by
  have hv : t.task.Valid := fun hp => by rw [h.1] at hp; cases hp
  refine ⟨Utils.Task.process_ran nowMs h.2.1 hv, ?_, Utils.Task.process_shutdown.trans h.2.2,
    Utils.Task.process_type.trans h.1⟩
  rw [RefreshTask.turn, if_neg (by simp), Utils.Task.process_completed nowMs h.2.1 hv, h.1, h.2.2]
  simp [Utils.TaskType.isPeriodic]

/-- A turn in a cycle that is not a shutdown: a due task asks for its request and is gone, another one stays. -/
theorem runTasks_cons {t : RefreshTask} (hopen : s.tasksShutdown = false) (hw : Waiting t) :
    runTasks nowMs (t :: todo) s =
      if t.task.runs nowMs then
        let called := { s with refreshScheduled := false }.requestSync nowMs t.reason
        let rest := runTasks nowMs todo called.1
        (rest.1, rest.2.1, called.2 ++ rest.2.2)
      else
        let rest := runTasks nowMs todo s
        (rest.1, { t with task := (t.turn nowMs false).1 } :: rest.2.1, rest.2.2) := by
  obtain ⟨hran, hcompleted, hshutdown, -⟩ := hw.turn nowMs
  rw [runTasks]
  simp only [hopen, hran, hcompleted, hshutdown, onRefresh]
  split <;> simp_all

/-- The state with the flag of the refresh task down. -/
def flagDown (s : ActiveTradesSyncManager) : ActiveTradesSyncManager := { s with refreshScheduled := false }

theorem Waiting.stop {t : RefreshTask} (h : Waiting t) (nowMs : Int) :
    (t.turn nowMs true).2 = true ∧ (t.turn nowMs true).1.completed = true ∧ (t.turn nowMs true).1.shutdown = true := by
  have hv : ({ t.task with shutdown := true } : Utils.Task).Valid := fun hp => by
    rw [show t.task.type = _ from h.1] at hp
    cases hp
  exact ⟨(Utils.Task.process_ran (t := { t.task with shutdown := true }) nowMs h.2.1 hv).trans (by simp [Utils.Task.runs]),
    (Utils.Task.process_completed (t := { t.task with shutdown := true }) nowMs h.2.1 hv).trans (by simp),
    Utils.Task.process_shutdown (t := { t.task with shutdown := true })⟩

/-- A shutdown: all tasks are gone, and the flag goes down with the first one. -/
theorem runTasks_shutdown (hshut : s.tasksShutdown = true) (hw : ∀ t ∈ todo, Waiting t) :
    (runTasks nowMs todo s).2 = ([], []) ∧ flagDown (runTasks nowMs todo s).1 = flagDown s := by
  induction todo generalizing s with
  | nil => exact ⟨rfl, rfl⟩
  | cons t todo ih =>
      obtain ⟨hran, hcompleted, hshutdown⟩ := (hw t List.mem_cons_self).stop nowMs
      have hcalled : s.onRefresh nowMs true t.reason = (flagDown s, []) := rfl
      obtain ⟨hnone, hs⟩ := ih (s := flagDown s) hshut fun u hu => hw u (List.mem_cons_of_mem _ hu)
      rw [runTasks]
      simp only [hran, hcompleted, hshutdown, hshut, hcalled, hnone, if_true, List.append_nil, true_and]
      exact hs

section Cycle

variable {kept : List RefreshTask} {t t' : RefreshTask}

theorem Sound.drop (h : Sound (kept ++ t :: todo) s) : Sound (kept ++ todo) { s with refreshScheduled := false } :=
  { h with
    waiting := fun u hu => h.waiting u (by
      simp only [List.mem_append, List.mem_cons] at hu ⊢
      tauto)
    scheduled := fun hf => by cases hf }

theorem Sound.keep (h : Sound (kept ++ t :: todo) s) (ht : Waiting t') : Sound (kept ++ t' :: todo) s :=
  { h with
    waiting := fun u hu => by
      simp only [List.mem_append, List.mem_cons] at hu
      rcases hu with (hu | rfl | hu) | hu
      · exact h.waiting u (by simp [hu])
      · exact ht
      · exact h.waiting u (by simp [hu])
      · exact h.waiting u (by simp [hu])
    scheduled := fun _ => by simp }

theorem runTasks_sound (h : Sound (kept ++ todo) s) :
    Sound (kept ++ (runTasks nowMs todo s).2.1) (runTasks nowMs todo s).1 := by
  induction todo generalizing s kept with
  | nil => exact h
  | cons t todo ih =>
      have hw := h.waiting t (by simp)
      obtain ⟨-, hcompleted, hshutdown, htype⟩ := hw.turn nowMs
      rw [runTasks_cons h.opened hw]
      split
      · exact ih (h.drop.requestSync nowMs t.reason)
      · next hruns =>
        have ht : Waiting { t with task := (t.turn nowMs false).1 } :=
          ⟨htype, hcompleted.trans (by simpa using hruns), hshutdown⟩
        have hkept := h.keep ht
        rw [List.append_cons] at hkept
        simpa using ih hkept

theorem onRefresh_sends {isShutdown : Bool} :
    Sends s (s.onRefresh nowMs isShutdown reason).1 (s.onRefresh nowMs isShutdown reason).2 := by
  unfold onRefresh
  dsimp only
  split
  · exact ⟨by simp, by simp, .inl rfl, Nat.le_refl _⟩
  · have h := @requestSync_sends nowMs reason { s with refreshScheduled := false }
    exact ⟨h.requests, h.context, h.active, h.generation⟩

theorem onRefresh_frame {isShutdown : Bool} :
    (s.onRefresh nowMs isShutdown reason).1.accountContextGeneration = s.accountContextGeneration ∧
      (s.onRefresh nowMs isShutdown reason).1.accountInfo = s.accountInfo := by
  unfold onRefresh
  dsimp only
  split <;> simp

theorem runTasks_frame :
    (runTasks nowMs todo s).1.accountContextGeneration = s.accountContextGeneration ∧
      (runTasks nowMs todo s).1.accountInfo = s.accountInfo := by
  induction todo generalizing s with
  | nil => exact ⟨rfl, rfl⟩
  | cons t todo ih =>
      rw [runTasks]
      dsimp only
      rw [ih.1, ih.2]
      split
      · exact onRefresh_frame
      · exact ⟨rfl, rfl⟩

theorem runTasks_sends : Sends s (runTasks nowMs todo s).1 (runTasks nowMs todo s).2.2 := by
  induction todo generalizing s with
  | nil => exact .refl
  | cons t todo ih =>
      rw [runTasks]
      refine Sends.trans ?_ ih runTasks_frame.1
      split
      · exact onRefresh_sends
      · exact .refl

/-- A current request stays current in a cycle, and a due task on a connected account makes one current. -/
theorem runTasks_current (h : Sound (kept ++ todo) s)
    (hactive : s.activeSyncGeneration ≠ 0 ∨ s.accountInfo.connect = true ∧ ∃ t ∈ todo, t.task.runs nowMs = true) :
    (runTasks nowMs todo s).1.activeSyncGeneration ≠ 0 := by
  induction todo generalizing s kept with
  | nil =>
      rcases hactive with hactive | ⟨-, t, ht, -⟩
      · exact hactive
      · cases ht
  | cons t todo ih =>
      have hw := h.waiting t (by simp)
      obtain ⟨-, hcompleted, hshutdown, htype⟩ := hw.turn nowMs
      rw [runTasks_cons h.opened hw]
      split
      · refine ih (h.drop.requestSync nowMs t.reason) (.inl ?_)
        rcases hactive with hactive | ⟨hc, -⟩
        · exact requestSync_stays h.drop hactive
        · exact requestSync_current h.drop hc
      · next hruns =>
        have ht : Waiting { t with task := (t.turn nowMs false).1 } :=
          ⟨htype, hcompleted.trans (by simpa using hruns), hshutdown⟩
        have hkept := h.keep ht
        rw [List.append_cons] at hkept
        refine ih hkept (hactive.imp_right fun ⟨hc, u, hu, hdue⟩ => ⟨hc, u, ?_, hdue⟩)
        rcases List.mem_cons.mp hu with rfl | hu
        · exact absurd hdue hruns
        · exact hu

/-- A cycle in which nothing is due leaves everything as it is. -/
theorem runTasks_idle (h : Sound (kept ++ todo) s) (hidle : ∀ t ∈ todo, t.task.runs nowMs = false) :
    (runTasks nowMs todo s).1 = s ∧ (runTasks nowMs todo s).2.1.length = todo.length ∧
      (runTasks nowMs todo s).2.2 = [] := by
  induction todo generalizing kept with
  | nil => exact ⟨rfl, rfl, rfl⟩
  | cons t todo ih =>
      have hw := h.waiting t (by simp)
      have hruns := hidle t List.mem_cons_self
      obtain ⟨-, hcompleted, hshutdown, htype⟩ := hw.turn nowMs
      have ht : Waiting { t with task := (t.turn nowMs false).1 } :=
        ⟨htype, hcompleted.trans hruns, hshutdown⟩
      have hkept := h.keep ht
      rw [List.append_cons] at hkept
      obtain ⟨hs, hlen, hns⟩ := ih hkept fun u hu => hidle u (List.mem_cons_of_mem _ hu)
      rw [runTasks_cons h.opened hw, if_neg (by simp [hruns])]
      exact ⟨hs, by simp [hlen], hns⟩

/-- A cycle on a disconnected account asks for nothing. -/
theorem runTasks_disconnected (h : Sound (kept ++ todo) s) (hc : s.accountInfo.connect = false) :
    (runTasks nowMs todo s).1.activeSyncGeneration = s.activeSyncGeneration ∧ (runTasks nowMs todo s).2.2 = [] := by
  induction todo generalizing s kept with
  | nil => exact ⟨rfl, rfl⟩
  | cons t todo ih =>
      have hw := h.waiting t (by simp)
      obtain ⟨-, hcompleted, hshutdown, htype⟩ := hw.turn nowMs
      rw [runTasks_cons h.opened hw]
      split
      · have hnone : { s with refreshScheduled := false }.requestSync nowMs t.reason =
            ({ s with refreshScheduled := false }, []) := requestSync_disconnected hc
        obtain ⟨hactive, hns⟩ := ih h.drop hc
        simp only [hnone]
        exact ⟨hactive, hns⟩
      · next hruns =>
        have ht : Waiting { t with task := (t.turn nowMs false).1 } :=
          ⟨htype, hcompleted.trans (by simpa using hruns), hshutdown⟩
        have hkept := h.keep ht
        rw [List.append_cons] at hkept
        exact ih hkept hc

theorem runTasks_noSnapshot : ∀ n ∈ (runTasks nowMs todo s).2.2, n.isSnapshot = false := by
  induction todo generalizing s with
  | nil => simp [runTasks]
  | cons t todo ih =>
      rw [runTasks]
      intro n hn
      rcases List.mem_append.mp hn with hn | hn
      · split at hn
        · unfold onRefresh at hn
          dsimp only at hn
          split at hn
          · cases hn
          · exact requestSync_noSnapshot n hn
        · cases hn
      · exact ih n hn

end Cycle

/-! ## The steps -/

theorem Sound.process (h : Sound s.tasks s) (nowMs : Int) :
    Sound (s.processTasks nowMs).1.tasks (s.processTasks nowMs).1 := by
  have h0 : Sound ([] ++ (s.tasks ++ s.pendingTasks)) { s with pendingTasks := [], tasks := [] } :=
    { h with
      waiting := by simpa using h.waiting
      scheduled := by simpa using h.scheduled }
  exact (runTasks_sound h0).congr rfl rfl rfl rfl rfl rfl rfl rfl

/-- An invalidation drops the refresh task and the current request. -/
theorem invalidateAccountContext_eq (h : Sound s.tasks s) :
    s.invalidateAccountContext nowMs reason =
      ({ s with
        accountContextGeneration := s.accountContextGeneration + 1
        pendingTasks := []
        tasks := []
        refreshScheduled := false
        syncInProgress := false
        activeSyncGeneration := 0
        syncGeneration := s.syncGeneration + 1 }, [.availability false reason]) := by
  have hopen := h.opened
  obtain ⟨hnone, hs⟩ := @runTasks_shutdown nowMs (s.tasks ++ s.pendingTasks)
    { s with
      accountContextGeneration := s.accountContextGeneration + 1
      tasksShutdown := true
      pendingTasks := []
      tasks := [] } rfl h.waiting
  unfold invalidateAccountContext shutdownTasks processTasks resetSyncState
  simp only [hnone, List.nil_append, Prod.mk.injEq, and_true]
  simp only [flagDown, mk.injEq] at hs ⊢
  simp [hs, hopen]

theorem shutdown_eq (h : Sound s.tasks s) :
    resetSyncState { (s.shutdownTasks nowMs).1 with refreshScheduled := false } =
        { s with
          pendingTasks := []
          tasks := []
          refreshScheduled := false
          syncInProgress := false
          activeSyncGeneration := 0
          syncGeneration := s.syncGeneration + 1 } ∧ (s.shutdownTasks nowMs).2 = [] := by
  have hopen := h.opened
  obtain ⟨hnone, hs⟩ := @runTasks_shutdown nowMs (s.tasks ++ s.pendingTasks)
    { s with tasksShutdown := true, pendingTasks := [], tasks := [] } rfl h.waiting
  unfold shutdownTasks processTasks resetSyncState
  simp only [hnone, and_true]
  simp only [flagDown, mk.injEq] at hs ⊢
  simp [hs, hopen]

theorem Sound.reset (h : Sound held s) {s' : ActiveTradesSyncManager} (hopened : s'.tasksShutdown = s.tasksShutdown)
    (hpending : s'.pendingTasks = []) (hscheduled : s'.refreshScheduled = false) (hprogress : s'.syncInProgress = false)
    (hactive : s'.activeSyncGeneration = 0) (hgeneration : s'.syncGeneration = s.syncGeneration + 1)
    (hrequests : s'.requests = s.requests) : Sound [] s' := by
  refine ⟨hopened.trans h.opened, ?_, ?_, ?_, fun hne => absurd hactive hne, hrequests ▸ h.sent, fun r hr => ?_⟩
  · simp [hpending]
  · simp [hscheduled]
  · simp [hprogress, hactive]
  · have := h.bounded r (hrequests ▸ hr)
    exact ⟨this.1, hgeneration ▸ Nat.le_succ_of_le this.2⟩

theorem Sound.invalidate (h : Sound s.tasks s) (nowMs : Int) (reason : String) :
    Sound (s.invalidateAccountContext nowMs reason).1.tasks (s.invalidateAccountContext nowMs reason).1 := by
  rw [invalidateAccountContext_eq h]
  exact h.reset rfl rfl rfl rfl rfl rfl rfl

theorem Sound.endRequest (h : Sound held s) : Sound held s.endRequest :=
  { h with
    progress := by simp [ActiveTradesSyncManager.endRequest]
    current := fun hne => absurd rfl hne }

theorem Sound.onReply (h : Sound s.tasks s) {request : SnapshotRequest} (closeTimesMs : Option (List Int)) :
    Sound (s.onReply nowMs request closeTimesMs).1.tasks (s.onReply nowMs request closeTimesMs).1 := by
  unfold ActiveTradesSyncManager.onReply
  split
  · exact h
  split
  · exact h.endRequest
  split
  · exact h.endRequest
  cases closeTimesMs with
  | none =>
      have hsync := h.endRequest.scheduleSync nowMs "snapshot-failed"
      dsimp only
      rw [scheduleSync_frame.2.2.2.2.2.2]
      exact hsync
  | some closeTimesMs => exact h.endRequest

theorem Sound.request (h : Sound s.tasks s) (nowMs : Int) (reason : String) :
    Sound (s.requestSync nowMs reason).1.tasks (s.requestSync nowMs reason).1 := by
  rw [requestSync_tasks]
  exact h.requestSync nowMs reason

theorem Sound.configure (h : Sound s.tasks s) (authData : AuthData) :
    Sound (s.configure authData).tasks (s.configure authData) :=
  h.congr rfl rfl rfl rfl rfl rfl rfl rfl

theorem Sound.step (h : Sound s.tasks s) (e : Event) : Sound (s.step e).1.tasks (s.step e).1 := by
  obtain ⟨nowMs, action⟩ := e
  cases action with
  | account accountInfo => exact h.congr rfl rfl rfl rfl rfl rfl rfl rfl
  | authData authData =>
      simp only [ActiveTradesSyncManager.step, onAuthData]
      split
      · exact (h.configure authData).invalidate _ _
      · exact h.configure authData
  | restartAuth => exact h.request _ _
  | disconnectRequest => exact h.invalidate _ _
  | accountInfoUpdate status =>
      cases status with
      | connected => exact h.request _ _
      | accountTypeChanged | currencyChanged => exact (h.invalidate _ _).request _ _
      | disconnected | failedToConnect => exact h.invalidate _ _
      | unknown | balanceUpdated | openTradesChanged | connecting => exact h
  | refreshRequest reason =>
      simp only [ActiveTradesSyncManager.step]
      rw [scheduleSync_frame.2.2.2.2.2.2]
      exact h.scheduleSync _ _
  | process => exact h.process nowMs
  | reply request closeTimesMs =>
      simp only [ActiveTradesSyncManager.step]
      split
      · exact h
      · exact h.onReply closeTimesMs
  | shutdown =>
      simp only [ActiveTradesSyncManager.step, (shutdown_eq h).1]
      exact h.reset rfl rfl rfl rfl rfl rfl rfl

end ActiveTradesSyncManager

end OptionX.IntradeBar
