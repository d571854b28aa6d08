import OptionX.Utils.TaskManager

/-!
# A task's turn

What `process` does to one task: it runs the callback exactly when the task is due, forced or shut down, and leaves
a periodic task due at the first time of its grid after the clock.
-/

namespace OptionX.Utils.Task

variable {nowMs periodMs timeMs : Int} {t : Task}

/-! ## The grid -/

theorem catchUp_of_lt (h : nowMs < timeMs) : catchUp nowMs periodMs timeMs = timeMs := by
  unfold catchUp
  rw [if_neg]
  omega

theorem catchUp_spec (nowMs timeMs : Int) (hp : 0 < periodMs) :
    ∃ k : Nat, catchUp nowMs periodMs timeMs = timeMs + k * periodMs ∧ nowMs < catchUp nowMs periodMs timeMs ∧
      (0 < k → catchUp nowMs periodMs timeMs - periodMs ≤ nowMs) := by
  fun_induction catchUp nowMs periodMs timeMs with
  | case1 timeMs h ih =>
      obtain ⟨k, hk, hlt, hle⟩ := ih
      refine ⟨k + 1, ?_, hlt, fun _ => ?_⟩
      · rw [hk]
        push_cast
        ring
      · rcases Nat.eq_zero_or_pos k with rfl | hpos
        · rw [hk]
          push_cast
          omega
        · exact hle hpos
  | case2 timeMs h => exact ⟨0, by push_cast; ring, by omega, fun h => absurd h (lt_irrefl 0)⟩

/-- The least time of the grid after the clock. -/
theorem catchUp_isLeast (hp : 0 < periodMs) :
    IsLeast {x | (∃ k : Nat, x = timeMs + k * periodMs) ∧ nowMs < x} (catchUp nowMs periodMs timeMs) := by
  obtain ⟨k, hk, hlt, hle⟩ := catchUp_spec nowMs timeMs hp
  refine ⟨⟨⟨k, hk⟩, hlt⟩, ?_⟩
  rintro x ⟨⟨j, rfl⟩, hx⟩
  rcases Nat.eq_zero_or_pos k with rfl | hpos
  · rw [hk]
    have : (0 : Int) ≤ j * periodMs := by positivity
    push_cast
    omega
  · have hprev := hle hpos
    rw [hk] at hprev ⊢
    by_contra hj
    have hjk : j < k := by
      by_contra hkj
      have : (k : Int) * periodMs ≤ j * periodMs := by
        have : (k : Int) ≤ j := by exact_mod_cast not_lt.mp hkj
        nlinarith
      omega
    have : (j : Int) * periodMs ≤ (k - 1) * periodMs := by
      have : (j : Int) ≤ k - 1 := by omega
      nlinarith
    linarith

/-! ## A turn -/

/-- A periodic task has a period to advance by. -/
def Valid (t : Task) : Prop := t.type.isPeriodic = true → 0 < t.periodMs

theorem process_of_completed (h : t.completed = true) : t.process nowMs = (t, false) := by
  rw [process, if_pos h]

@[simp] theorem process_id : (t.process nowMs).1.id = t.id := by
  unfold process
  cases t.completed <;> cases t.type <;> grind

@[simp] theorem process_type : (t.process nowMs).1.type = t.type := by
  unfold process
  cases t.completed <;> cases ht : t.type <;> grind

@[simp] theorem process_periodMs : (t.process nowMs).1.periodMs = t.periodMs := by
  unfold process
  cases t.completed <;> cases ht : t.type <;> grind

theorem process_shutdown : (t.process nowMs).1.shutdown = t.shutdown := by
  unfold process
  cases t.completed <;> cases ht : t.type <;> grind

theorem process_forceExecute (h : t.completed = false) : (t.process nowMs).1.forceExecute = false := by
  simp [process, h]

theorem process_ran (nowMs : Int) (h : t.completed = false) (hv : t.Valid) : (t.process nowMs).2 = t.runs nowMs := by
  unfold process
  cases ht : t.type <;> simp [h, ht, runs, isDue, dueTime, isValidPeriod] <;> grind [Valid, TaskType.isPeriodic]

/-- A turn completes a one-shot task that it runs, and every task that is shut down. -/
theorem process_completed (nowMs : Int) (h : t.completed = false) (hv : t.Valid) :
    (t.process nowMs).1.completed = (!t.type.isPeriodic && t.runs nowMs || t.shutdown) := by
  unfold process
  cases ht : t.type <;> grind [Valid, TaskType.isPeriodic, runs, isDue, dueTime, isValidPeriod]

/-- A periodic task that has run is due at the next time of its grid; one that has not is due when it was. -/
theorem process_dueTime (nowMs : Int) (h : t.completed = false) (hv : t.Valid) (hp : t.type.isPeriodic = true) :
    (t.process nowMs).1.dueTime = if t.runs nowMs then catchUp nowMs t.periodMs t.dueTime else t.dueTime := by
  unfold process
  cases ht : t.type <;> grind [Valid, TaskType.isPeriodic, runs, isDue, dueTime, isValidPeriod]

end OptionX.Utils.Task
