import OptionX.Platforms.BaseTradingPlatform
import OptionX.Utils.Lemmas.Task

/-!
# The tasks of a platform that have yet to run

The uncompleted tasks of a platform, in the order in which they were accepted, and what has been said of them. A turn
ends a task that runs once, and any task during a shutdown; the loop task otherwise stays in its place.
-/

namespace OptionX.Platforms.BaseTradingPlatform

open Utils (Task TaskType)

/-! ## A turn -/

/-- A task as the platform adds it, but for the time of the loop task. -/
structure Fresh (t : PlatformTask) : Prop where
  type : t.task.type = if t.kind = .loop then .periodic else .single
  period : t.kind = .loop → t.task.periodMs = 1
  due : t.kind ≠ .loop → t.task.rescheduleTime = 0
  completed : t.task.completed = false
  shutdown : t.task.shutdown = false

variable {t : PlatformTask} {nowMs : Nat} {flag : Bool}

@[simp] theorem turn_kind : (turn t nowMs flag).1.kind = t.kind := rfl

@[simp] theorem turn_id : (turn t nowMs flag).1.task.id = t.task.id := by
  cases flag <;> simp [turn]

theorem turn_of_completed (h : t.task.completed = true) :
    (turn t nowMs flag).1.task.completed = true ∧ (turn t nowMs flag).2 = [] := by
  cases flag <;> simp [turn, Task.process_of_completed, h]

/-- The task that a turn processes. -/
def turned (t : PlatformTask) (flag : Bool) : Task := if flag then { t.task with shutdown := true } else t.task

theorem turn_eq : turn t nowMs flag =
    (⟨t.kind, ((turned t flag).process nowMs).1⟩,
      if ((turned t flag).process nowMs).2 then callback t (turned t flag).shutdown else []) := rfl

theorem Fresh.turned (h : Fresh t) (flag : Bool) :
    (turned t flag).completed = false ∧ (turned t flag).shutdown = flag ∧ (turned t flag).Valid := by
  have hv : ∀ u : Task, u.type = t.task.type → u.periodMs = t.task.periodMs → u.Valid := by
    intro u htype hperiod hp
    rw [htype, h.type] at hp
    rw [hperiod]
    by_cases hk : t.kind = .loop
    · rw [h.period hk]
      decide
    · simp [hk, TaskType.isPeriodic] at hp
  cases flag
  · exact ⟨h.completed, h.shutdown, hv _ rfl rfl⟩
  · exact ⟨h.completed, rfl, hv _ rfl rfl⟩

/-- A task that runs once is due at its first turn. -/
theorem turn_once (h : Fresh t) (hk : t.kind ≠ .loop) :
    (turn t nowMs flag).1.task.completed = true ∧ (turn t nowMs flag).2 = callback t flag := by
  obtain ⟨hc, hs, hv⟩ := h.turned flag
  have htype : (turned t flag).type = .single := by
    have := h.type
    rw [if_neg hk] at this
    cases flag <;> exact this
  have hruns : (turned t flag).runs nowMs = true := by
    have hdue : (turned t flag).rescheduleTime = 0 := by cases flag <;> exact h.due hk
    simp [Task.runs, Task.isDue, Task.dueTime, htype, hdue]
  rw [turn_eq, Task.process_ran _ hc hv, hruns, hs]
  refine ⟨?_, rfl⟩
  rw [Task.process_completed _ hc hv, hruns, htype]
  rfl

/-- The loop task goes on unless the task manager shuts down. -/
theorem turn_loop (h : Fresh t) (hk : t.kind = .loop) :
    (turn t nowMs flag).1.task.completed = flag ∧
      ((turn t nowMs flag).2 = [] ∨ (turn t nowMs flag).2 = callback t flag) ∧
      (flag = false → Fresh (turn t nowMs flag).1) := by
  obtain ⟨hc, hs, hv⟩ := h.turned flag
  have htype : (turned t flag).type = .periodic := by
    have := h.type
    rw [if_pos hk] at this
    cases flag <;> exact this
  have hcompleted : (turn t nowMs flag).1.task.completed = flag := by
    rw [turn_eq, Task.process_completed _ hc hv, htype, hs]
    rfl
  refine ⟨hcompleted, ?_, fun hflag => ?_⟩
  · rw [turn_eq, hs]
    simp only
    split
    · exact .inr rfl
    · exact .inl rfl
  · have hperiod : (turned t flag).periodMs = 1 := by cases flag <;> exact h.period hk
    rw [turn_eq] at hcompleted ⊢
    exact {
      type := by simp [hk, htype]
      period := fun _ => by simpa using hperiod
      due := fun hn => absurd hk hn
      completed := by simpa [hflag] using hcompleted
      shutdown := by rw [Task.process_shutdown, hs, hflag] }

/-! ## The line -/

/-- How often posted work has been run or cancelled. -/
def resolved (ns : List Notice) (id : Nat) : Nat := ns.count (.worked id) + ns.count (.cancelled id)

theorem resolved_append (ns ns' : List Notice) (id : Nat) :
    resolved (ns ++ ns') id = resolved ns id + resolved ns' id := by
  simp only [resolved, List.count_append]
  omega

/-- The uncompleted tasks and what has been said. -/
structure Tasks (ns : List Notice) (live : List PlatformTask) (nextId : Nat) (flag : Bool) : Prop where
  sorted : live.Pairwise fun t u => t.task.id < u.task.id
  bound : ∀ t ∈ live, t.task.id < nextId
  fresh : ∀ t ∈ live, Fresh t
  posted : ∀ id, .accepted id ∈ ns → id < nextId
  waits : ∀ t ∈ live, t.kind = .external → .accepted t.task.id ∈ ns ∧ resolved ns t.task.id = 0
  done : ∀ id, .accepted id ∈ ns → (∀ t ∈ live, t.kind = .external → t.task.id ≠ id) → resolved ns id = 1
  unknown : ∀ id, .accepted id ∉ ns → resolved ns id = 0
  initOnce : ns.count .initialized + live.countP (·.kind = .initialization) ≤ 1
  beforeLoop : ∀ t ∈ live, t.kind = .loop →
    .initialized ∈ ns ∨ flag = true ∨ ∃ u ∈ live, u.kind = .initialization ∧ u.task.id < t.task.id

variable {ns : List Notice} {live pre post : List PlatformTask} {nextId : Nat}

theorem Tasks.empty : Tasks [] [] 0 false where
  sorted := .nil
  bound := fun _ h => by cases h
  fresh := fun _ h => by cases h
  posted := fun _ h => by cases h
  waits := fun _ h => by cases h
  done := fun _ h => by cases h
  unknown := fun _ _ => rfl
  initOnce := Nat.zero_le 1
  beforeLoop := fun _ h => by cases h

/-- The task that `addTask` makes. -/
def added (kind : TaskKind) (id nowMs : Nat) : PlatformTask :=
  ⟨kind, match kind with
    | .initialization | .external => Task.create id .single nowMs 0 0 0
    | .loop => Task.create id .periodic nowMs 0 1 0⟩

@[simp] theorem added_kind (kind : TaskKind) (id nowMs : Nat) : (added kind id nowMs).kind = kind := rfl

@[simp] theorem added_id (kind : TaskKind) (id nowMs : Nat) : (added kind id nowMs).task.id = id := by
  cases kind <;> rfl

theorem added_fresh (kind : TaskKind) (id nowMs : Nat) : Fresh (added kind id nowMs) := by
  cases kind <;> exact ⟨rfl, fun h => by cases h <;> rfl, fun _ => rfl, rfl, rfl⟩

theorem resolved_accepted (i id : Nat) : resolved [.accepted i] id = 0 := by simp [resolved]

/-- A task is added at the end of the line. -/
theorem Tasks.add (h : Tasks ns live nextId flag) (kind : TaskKind) (nowMs : Nat)
    (hinit : kind = .initialization → .initialized ∉ ns ∧ ∀ t ∈ live, t.kind ≠ .initialization)
    (hloop : kind = .loop → .initialized ∈ ns ∨ ∃ u ∈ live, u.kind = .initialization) :
    Tasks (ns ++ if kind = .external then [.accepted nextId] else []) (live ++ [added kind nextId nowMs]) (nextId + 1)
      flag := by
  have hmem : ∀ t ∈ live ++ [added kind nextId nowMs], t ∈ live ∨ t = added kind nextId nowMs := by
    intro t ht
    simpa using ht
  have hresolved : ∀ id, resolved (ns ++ if kind = .external then [.accepted nextId] else []) id = resolved ns id := by
    intro id
    rw [resolved_append]
    split
    · rw [resolved_accepted, Nat.add_zero]
    · rfl
  have haccepted : ∀ id, .accepted id ∈ (ns ++ if kind = .external then [.accepted nextId] else []) →
      .accepted id ∈ ns ∨ kind = .external ∧ id = nextId := by
    intro id hid
    by_cases hk : kind = .external <;> simpa [hk] using hid
  exact {
    sorted := List.pairwise_append.mpr ⟨h.sorted, List.pairwise_singleton _ _, fun t ht u hu => by
      rw [List.mem_singleton.mp hu, added_id]
      exact h.bound t ht⟩
    bound := fun t ht => by
      rcases hmem t ht with ht | rfl
      · have := h.bound t ht
        omega
      · simp
    fresh := fun t ht => by
      rcases hmem t ht with ht | rfl
      · exact h.fresh t ht
      · exact added_fresh kind nextId nowMs
    posted := fun id hid => by
      rcases haccepted id hid with hid | ⟨-, rfl⟩
      · have := h.posted id hid
        omega
      · omega
    waits := fun t ht hk => by
      rw [hresolved]
      rcases hmem t ht with ht | rfl
      · exact ⟨List.mem_append_left _ (h.waits t ht hk).1, (h.waits t ht hk).2⟩
      · obtain rfl : kind = .external := hk
        rw [added_id]
        exact ⟨by simp, h.unknown _ fun hid => lt_irrefl _ (h.posted _ hid)⟩
    done := fun id hid hno => by
      rw [hresolved]
      rcases haccepted id hid with hid | ⟨rfl, rfl⟩
      · exact h.done id hid fun t ht => hno t (List.mem_append_left _ ht)
      · exact absurd (added_id .external id nowMs) (hno _ (by simp) rfl)
    unknown := fun id hid => by
      rw [hresolved]
      exact h.unknown id fun hid' => hid (List.mem_append_left _ hid')
    initOnce := by
      have hcount : List.count Notice.initialized
          (ns ++ if kind = .external then [Notice.accepted nextId] else []) = ns.count .initialized := by
        split <;> simp
      rw [hcount, List.countP_append, List.countP_singleton, added_kind]
      by_cases hk : kind = .initialization
      · obtain ⟨hns, hlive⟩ := hinit hk
        rw [List.count_eq_zero.mpr hns, List.countP_eq_zero.mpr fun t ht => by simpa using hlive t ht]
        simp [hk]
      · simpa [hk] using h.initOnce
    beforeLoop := fun t ht hk => by
      rcases hmem t ht with ht | rfl
      · rcases h.beforeLoop t ht hk with hi | hf | ⟨u, hu, hku, hlt⟩
        · exact .inl (List.mem_append_left _ hi)
        · exact .inr (.inl hf)
        · exact .inr (.inr ⟨u, List.mem_append_left _ hu, hku, hlt⟩)
      · rcases hloop hk with hi | ⟨u, hu, hku⟩
        · exact .inl (List.mem_append_left _ hi)
        · exact .inr (.inr ⟨u, List.mem_append_left _ hu, hku, by simpa using h.bound u hu⟩) }

/-- The other tasks of the line have other numbers. -/
theorem Tasks.other (h : Tasks ns (pre ++ t :: post) nextId flag) {u : PlatformTask} (hu : u ∈ pre ++ post) :
    u.task.id ≠ t.task.id := by
  have hs := List.pairwise_append.mp h.sorted
  rcases List.mem_append.mp hu with hu | hu
  · exact (hs.2.2 u hu t List.mem_cons_self).ne
  · exact ((List.pairwise_cons.mp hs.2.1).1 u hu).ne'

/-- A task ends in its turn. -/
theorem Tasks.finish (h : Tasks ns (pre ++ t :: post) nextId flag) (hk : t.kind = .loop → flag = true) :
    Tasks (ns ++ callback t flag) (pre ++ post) nextId flag := by
  have hmem : ∀ u ∈ pre ++ post, u ∈ pre ++ t :: post := by
    intro u hu
    simp only [List.mem_append, List.mem_cons] at hu ⊢
    tauto
  have ht : t ∈ pre ++ t :: post := by simp
  have haccepted : ∀ id, .accepted id ∈ ns ++ callback t flag ↔ .accepted id ∈ ns := by
    intro id
    have : Notice.accepted id ∉ callback t flag := by
      unfold callback
      cases t.kind <;> cases flag <;> simp
    simp [this]
  have hresolved : ∀ id, resolved (ns ++ callback t flag) id =
      resolved ns id + if t.kind = .external ∧ t.task.id = id then 1 else 0 := by
    intro id
    rw [resolved_append]
    unfold callback
    cases t.kind <;> cases flag <;> simp [resolved, List.count_singleton]
  have hsame : ∀ id, t.task.id ≠ id → resolved (ns ++ callback t flag) id = resolved ns id := fun id hne => by
    rw [hresolved, if_neg fun hc => hne hc.2, Nat.add_zero]
  exact {
    sorted := h.sorted.sublist (List.Sublist.append_left (List.sublist_cons_self _ _) _)
    bound := fun u hu => h.bound u (hmem u hu)
    fresh := fun u hu => h.fresh u (hmem u hu)
    posted := fun id hid => h.posted id ((haccepted id).mp hid)
    waits := fun u hu hku => by
      rw [hsame _ (h.other hu).symm, haccepted]
      exact h.waits u (hmem u hu) hku
    done := fun id hid hno => by
      rw [haccepted] at hid
      by_cases hc : t.kind = .external ∧ t.task.id = id
      · obtain ⟨hkt, rfl⟩ := hc
        rw [hresolved, if_pos ⟨hkt, rfl⟩, (h.waits t ht hkt).2]
      · rw [hresolved, if_neg hc, Nat.add_zero]
        refine h.done id hid fun u hu hku => ?_
        simp only [List.mem_append, List.mem_cons] at hu
        rcases hu with hu | rfl | hu
        · exact hno u (List.mem_append_left _ hu) hku
        · exact fun heq => hc ⟨hku, heq⟩
        · exact hno u (List.mem_append_right _ hu) hku
    unknown := fun id hid => by
      rw [haccepted] at hid
      rw [hresolved, if_neg, Nat.add_zero]
      · exact h.unknown id hid
      · rintro ⟨hkt, rfl⟩
        exact hid (h.waits t ht hkt).1
    initOnce := by
      have hi := h.initOnce
      simp only [List.countP_append, List.countP_cons, List.count_append] at hi ⊢
      unfold callback
      cases hkt : t.kind <;> cases flag <;> simp [hkt] at hi ⊢ <;> omega
    beforeLoop := fun u hu hku => by
      rcases h.beforeLoop u (hmem u hu) hku with hi | hf | ⟨v, hv, hkv, hlt⟩
      · exact .inl (List.mem_append_left _ hi)
      · exact .inr (.inl hf)
      · simp only [List.mem_append, List.mem_cons] at hv
        rcases hv with hv | rfl | hv
        · exact .inr (.inr ⟨v, List.mem_append_left _ hv, hkv, hlt⟩)
        · -- the initialisation has had its turn: it was run, or the task manager shuts down
          cases hflag : flag
          · exact .inl (by simp [callback, hkv])
          · exact .inr (.inl rfl)
        · exact .inr (.inr ⟨v, List.mem_append_right _ hv, hkv, hlt⟩) }

/-- The loop task stays. -/
theorem Tasks.again (h : Tasks ns (pre ++ t :: post) nextId flag) {t' : PlatformTask} (hk : t.kind = .loop)
    (hid : t'.task.id = t.task.id) (hk' : t'.kind = .loop) (hfresh : Fresh t') {said : List Notice}
    (hsaid : said = [] ∨ said = [.looped]) : Tasks (ns ++ said) (pre ++ t' :: post) nextId flag := by
  have hmem : ∀ u ∈ pre ++ t' :: post, u ≠ t' → u ∈ pre ++ t :: post := by
    intro u hu hne
    simp only [List.mem_append, List.mem_cons] at hu ⊢
    tauto
  have hback : ∀ u ∈ pre ++ t :: post, u ≠ t → u ∈ pre ++ t' :: post := by
    intro u hu hne
    simp only [List.mem_append, List.mem_cons] at hu ⊢
    tauto
  have ht : t ∈ pre ++ t :: post := by simp
  have haccepted : ∀ id, .accepted id ∈ ns ++ said ↔ .accepted id ∈ ns := by
    intro id
    rcases hsaid with rfl | rfl <;> simp
  have hresolved : ∀ id, resolved (ns ++ said) id = resolved ns id := by
    intro id
    rw [resolved_append]
    rcases hsaid with rfl | rfl <;> simp [resolved]
  exact {
    sorted := by
      have hs := List.pairwise_append.mp h.sorted
      refine List.pairwise_append.mpr ⟨hs.1, ?_, fun u hu v hv => ?_⟩
      · rw [List.pairwise_cons, hid]
        exact List.pairwise_cons.mp hs.2.1
      · rcases List.mem_cons.mp hv with rfl | hv
        · rw [hid]
          exact hs.2.2 u hu t List.mem_cons_self
        · exact hs.2.2 u hu v (List.mem_cons_of_mem _ hv)
    bound := fun u hu => by
      by_cases hut : u = t'
      · rw [hut, hid]
        exact h.bound t ht
      · exact h.bound u (hmem u hu hut)
    fresh := fun u hu => by
      by_cases hut : u = t'
      · rw [hut]
        exact hfresh
      · exact h.fresh u (hmem u hu hut)
    posted := fun id hid => h.posted id ((haccepted id).mp hid)
    waits := fun u hu hku => by
      have hut : u ≠ t' := by
        rintro rfl
        rw [hk'] at hku
        cases hku
      rw [haccepted, hresolved]
      exact h.waits u (hmem u hu hut) hku
    done := fun id hid hno => by
      rw [haccepted] at hid
      rw [hresolved]
      refine h.done id hid fun u hu hku => hno u (hback u hu ?_) hku
      rintro rfl
      rw [hk] at hku
      cases hku
    unknown := fun id hid => by
      rw [haccepted] at hid
      rw [hresolved]
      exact h.unknown id hid
    initOnce := by
      have hi := h.initOnce
      simp only [List.countP_append, List.countP_cons, hk, hk', List.count_append] at hi ⊢
      rcases hsaid with rfl | rfl <;> simpa using hi
    beforeLoop := fun u hu hku => by
      have hold : .initialized ∈ ns ∨ flag = true ∨
          ∃ v ∈ pre ++ t :: post, v.kind = .initialization ∧ v.task.id < u.task.id := by
        by_cases hut : u = t'
        · rw [hut, hid]
          exact h.beforeLoop t ht hk
        · exact h.beforeLoop u (hmem u hu hut) hku
      rcases hold with hi | hf | ⟨v, hv, hkv, hlt⟩
      · exact .inl (List.mem_append_left _ hi)
      · exact .inr (.inl hf)
      · refine .inr (.inr ⟨v, hback v hv ?_, hkv, hlt⟩)
        rintro rfl
        rw [hk] at hkv
        cases hkv }

theorem Tasks.resolved_le (h : Tasks ns live nextId flag) {id : Nat} (hid : .accepted id ∈ ns) :
    resolved ns id ≤ 1 := by
  by_cases hlive : ∃ t ∈ live, t.kind = .external ∧ t.task.id = id
  · obtain ⟨t, ht, hk, rfl⟩ := hlive
    rw [(h.waits t ht hk).2]
    exact Nat.zero_le 1
  · rw [h.done id hid fun t ht hk heq => hlive ⟨t, ht, hk, heq⟩]

/-- Work is refused. -/
theorem Tasks.refused (h : Tasks ns live nextId flag) : Tasks (ns ++ [.refused]) live nextId flag := by
  have haccepted : ∀ id, .accepted id ∈ ns ++ [.refused] ↔ .accepted id ∈ ns := by simp
  have hresolved : ∀ id, resolved (ns ++ [.refused]) id = resolved ns id := by simp [resolved]
  exact { h with
    posted := fun id hid => h.posted id ((haccepted id).mp hid)
    waits := fun t ht hk => by
      rw [haccepted, hresolved]
      exact h.waits t ht hk
    done := fun id hid hno => by
      rw [haccepted] at hid
      rw [hresolved]
      exact h.done id hid hno
    unknown := fun id hid => by
      rw [haccepted] at hid
      rw [hresolved]
      exact h.unknown id hid
    initOnce := by simpa using h.initOnce
    beforeLoop := fun t ht hk => by simpa using h.beforeLoop t ht hk }

/-- The task manager begins to shut down. -/
theorem Tasks.flagged (h : Tasks ns live nextId flag) : Tasks ns live nextId true :=
  { h with beforeLoop := fun _ _ _ => .inr (.inl rfl) }

/-- Nothing is left when it is open again. -/
theorem Tasks.unflagged (h : Tasks ns [] nextId flag) : Tasks ns [] nextId false :=
  { h with beforeLoop := fun _ ht => by cases ht }

end OptionX.Platforms.BaseTradingPlatform
