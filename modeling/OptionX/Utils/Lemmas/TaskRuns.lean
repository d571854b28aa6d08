import OptionX.Utils.Lemmas.TaskManager

/-!
# The turns of a run

Each cycle gives each of its tasks one turn. A one-shot task that nobody reschedules runs in one turn of all; it is
held, and not completed, before that turn and never after it.
-/

namespace OptionX.Utils

namespace Notice

def pass? : Notice → Option Pass
  | .passed p => some p
  | _ => none

end Notice

def passes (ns : List Notice) : List Pass := ns.filterMap Notice.pass?

/-- How often a task has run. -/
def runCount (ns : List Notice) (id : Nat) : Nat := (passes ns).countP fun p => p.before.id = id ∧ p.ran = true

/-- A turn runs the task when the cycle sees it due, forced or shut down. -/
structure Pass.Sound (p : Pass) : Prop where
  ran : p.ran = (p.before.isDue p.nowMs || p.forced || p.shutDown)
  isShutdown : p.shutDown = true → p.after.shutdown = true
  oneShot : p.before.type.isPeriodic = false → p.after.completed = p.ran
  due : p.before.type.isPeriodic = true → p.before.isDue p.nowMs = true →
    IsLeast {x | (∃ k : Nat, x = p.before.dueTime + k * p.before.periodMs) ∧ p.nowMs < x} p.after.dueTime
  notDue : p.before.type.isPeriodic = true → p.before.isDue p.nowMs = false → p.after.dueTime = p.before.dueTime

namespace TaskManager

variable {s : TaskManager} {ns : List Notice}

theorem turn_sound (index : Nat) (nowMs : Int) {t : Task} (hc : t.completed = false) (hv : t.Valid)
    (hidle : t.forceExecute = false ∧ t.shutdown = false) :
    Pass.Sound ⟨index, nowMs, s.forceExecute, s.shutdown, t, (s.turn nowMs t).1, (s.turn nowMs t).2⟩ := by
  have hcompleted : (s.armed t).completed = false := by simpa using hc
  have hvalid := armed_valid (s := s) hv
  have hruns : (s.armed t).runs nowMs = (t.isDue nowMs || s.forceExecute || s.shutdown) := by
    simp [Task.runs, Task.isDue, hidle]
  have hdue : t.isDue nowMs = true → t.dueTime ≤ nowMs := by simp [Task.isDue]
  refine ⟨?_, fun hs => ?_, fun hp => ?_, fun hp hd => ?_, fun hp hd => ?_⟩
  · exact (Task.process_ran nowMs hcompleted hvalid).trans hruns
  · exact Task.process_shutdown.trans (by simp [show s.shutdown = true from hs])
  · have hcomp := Task.process_completed nowMs hcompleted hvalid
    rw [armed_type, show t.type.isPeriodic = false from hp, ← Task.process_ran nowMs hcompleted hvalid] at hcomp
    have hshut : (s.armed t).shutdown = true → ((s.armed t).process nowMs).2 = true := by
      intro hs
      rw [Task.process_ran nowMs hcompleted hvalid, Task.runs, hs, Bool.or_true]
    refine hcomp.trans ?_
    cases hs : (s.armed t).shutdown with
    | true => simp [turn_eq, hshut hs]
    | false => simp [turn_eq]
  · have hnext := Task.process_dueTime nowMs hcompleted hvalid (by simpa using hp)
    rw [hruns, show t.isDue nowMs = true from hd] at hnext
    simp only [Bool.true_or, if_true, armed_periodMs, armed_dueTime] at hnext
    exact hnext.symm ▸ Task.catchUp_isLeast (hv hp)
  · have hnext := Task.process_dueTime nowMs hcompleted hvalid (by simpa using hp)
    have hlt : nowMs < t.dueTime := by simpa [Task.isDue] using hd
    rw [Task.catchUp_of_lt (by simpa using hlt), ite_self] at hnext
    exact hnext.trans (by simp)

/-! ## Every task runs as often as it should -/

/-- What is known of the turns taken so far, when `R` holds of the tasks that were rescheduled. -/
structure Counted (R : Nat → Prop) (ns : List Notice) (s : TaskManager) : Prop where
  accepted : ∀ t0, .accepted t0 ∈ ns → t0.id < s.nextId
  typed : ∀ t0, .accepted t0 ∈ ns → ∀ t ∈ s.held, t.id = t0.id → t.type = t0.type
  bound : ∀ p ∈ passes ns, p.before.id < s.nextId
  sound : ∀ p ∈ passes ns, p.Sound
  waits : ∀ t ∈ s.held, t.type.isPeriodic = false → ¬ R t.id → t.completed = false → runCount ns t.id = 0
  ran : ∀ t0, .accepted t0 ∈ ns → t0.type.isPeriodic = false → ¬ R t0.id →
    (∀ t ∈ s.held, t.id = t0.id → t.completed = true) → runCount ns t0.id = 1
  gone : ∀ id < s.nextId, (∀ t ∈ s.held, t.id = id → t.completed = true) →
    ∃ p ∈ passes ns, p.before.id = id ∧ p.after.completed = true

theorem passes_append (ns ns' : List Notice) : passes (ns ++ ns') = passes ns ++ passes ns' :=
  List.filterMap_append

theorem runCount_append (ns ns' : List Notice) (id : Nat) : runCount (ns ++ ns') id = runCount ns id + runCount ns' id := by
  rw [runCount, passes_append, List.countP_append]
  rfl

theorem passes_silent {ns : List Notice} (h : ∀ n ∈ ns, Silent n) : passes ns = [] := by
  refine List.filterMap_eq_nil_iff.mpr fun n hn => ?_
  have hs := h n hn
  cases n <;> first | rfl | cases hs

theorem accepted_silent {ns ns' : List Notice} (h : ∀ n ∈ ns', Silent n) {t : Task} (ht : .accepted t ∈ ns ++ ns') :
    .accepted t ∈ ns :=
  (List.mem_append.mp ht).resolve_right fun hn => h _ hn

/-- A task that is rescheduled in a step. -/
def Event.reschedules (e : Event) (id : Nat) : Prop := ∃ time, e = .touch id (.rescheduleAt time)

theorem Counted.step {R : Nat → Prop} (h : Counted R ns s) (hl : Layout s) (e : Event) :
    Counted (fun id => R id ∨ e.reschedules id) (ns ++ (s.step e).2) (s.step e).1 := by
  have hch := hl.changed e
  generalize s.step e = r at hch ⊢
  cases hch with
  | same e s' ns' hheld hn hsilent =>
      have hpasses : passes (ns ++ ns') = passes ns := by
        rw [passes_append, passes_silent hsilent, List.append_nil]
      have hcount : ∀ id, runCount (ns ++ ns') id = runCount ns id := fun id => by rw [runCount, hpasses]; rfl
      refine ⟨fun t0 ht0 => hn ▸ h.accepted t0 (accepted_silent hsilent ht0),
        fun t0 ht0 => hheld ▸ h.typed t0 (accepted_silent hsilent ht0), hpasses ▸ hn ▸ h.bound, hpasses ▸ h.sound,
        fun t ht hp hr hc => ?_, fun t0 ht0 hp hr hall => ?_, fun id hid hall => ?_⟩
      · rw [hcount]
        exact h.waits t (hheld ▸ ht) hp (fun hR => hr (.inl hR)) hc
      · rw [hcount]
        exact h.ran t0 (accepted_silent hsilent ht0) hp (fun hR => hr (.inl hR)) (hheld ▸ hall)
      · rw [hpasses]
        exact h.gone id (hn ▸ hid) (hheld ▸ hall)
  | adds e s' t hheld hn hid _ hc _ _ =>
      have hpasses : passes (ns ++ [.accepted t]) = passes ns := by rw [passes_append]; exact List.append_nil _
      have hcount : ∀ id, runCount (ns ++ [.accepted t]) id = runCount ns id := fun id => by rw [runCount, hpasses]; rfl
      have hold : ∀ t0, .accepted t0 ∈ ns ++ [.accepted t] → .accepted t0 ∈ ns ∨ t0 = t := fun t0 ht0 => by
        simpa using ht0
      have hmem : ∀ u, u ∈ s'.held ↔ u ∈ s.held ∨ u = t := fun u => by rw [hheld]; simp
      refine ⟨fun t0 ht0 => ?_, fun t0 ht0 u hu heq => ?_, fun p hp => ?_, hpasses ▸ h.sound, fun u hu hp hr hu' => ?_,
        fun t0 ht0 hp hr hall => ?_, fun id hid' hall => ?_⟩
      · rw [hn]
        rcases hold t0 ht0 with ht0 | rfl
        · exact (h.accepted t0 ht0).trans (Nat.lt_succ_self _)
        · omega
      · rcases hold t0 ht0 with hin | rfl <;> rcases (hmem u).mp hu with hin' | rfl
        · exact h.typed t0 hin u hin' heq
        · have hlt := h.accepted t0 hin
          omega
        · have hlt := hl.bound u hin'
          omega
        · rfl
      · rw [hn]
        exact (h.bound p (hpasses ▸ hp)).trans (Nat.lt_succ_self _)
      · rw [hcount]
        rcases (hmem u).mp hu with hu | rfl
        · exact h.waits u hu hp (fun hR => hr (.inl hR)) hu'
        · refine List.countP_eq_zero.mpr fun p hp => ?_
          have hlt := h.bound p hp
          simp only [decide_eq_true_eq, not_and]
          omega
      · rw [hcount]
        rcases hold t0 ht0 with ht0 | rfl
        · exact h.ran t0 ht0 hp (fun hR => hr (.inl hR)) fun u hu => hall u ((hmem u).mpr (.inl hu))
        · rw [hall t0 ((hmem t0).mpr (.inr rfl)) rfl] at hc
          cases hc
      · rw [hpasses]
        by_cases hlt : id < s.nextId
        · exact h.gone id hlt fun u hu => hall u ((hmem u).mpr (.inl hu))
        · have hlt' : id < s.nextId + 1 := hn ▸ hid'
          rw [hall t ((hmem t).mpr (.inr rfl)) (by omega)] at hc
          cases hc
  | turns s' c t todo pre post hc htodo hheld hheld' hn _ =>
      have hfresh : t.completed = false := hl.waiting c hc t (by rw [htodo]; exact List.mem_cons_self)
      have hmemt : t ∈ s.held := by rw [hheld]; exact List.mem_append_right _ List.mem_cons_self
      have hsound := turn_sound (s := s) c.index c.nowMs hfresh (hl.valid t hmemt)
        ⟨(hl.idle t hmemt).1, (hl.idle t hmemt).2 hfresh⟩
      -- the other tasks keep their places and have other numbers
      have hother : ∀ u ∈ pre ++ post, u ∈ s.held ∧ u.id ≠ t.id := by
        have hnodup := hl.sorted.imp (fun h : _ < _ => h.ne)
        rw [hheld, List.map_append, List.map_cons] at hnodup
        have hn := List.nodup_cons.mp (List.perm_middle.nodup_iff.mp hnodup)
        intro u hu
        refine ⟨?_, fun heq => hn.1 ?_⟩
        · rw [hheld]
          rcases List.mem_append.mp hu with hu | hu
          · exact List.mem_append_left _ hu
          · exact List.mem_append_right _ (List.mem_cons_of_mem _ hu)
        · rw [← List.map_append, ← heq]
          exact List.mem_map_of_mem hu
      have hmem : ∀ u, u ∈ s'.held ↔ u ∈ pre ++ post ∨ u = (s.turn c.nowMs t).1 := fun u => by
        rw [hheld']
        simp only [List.mem_append, List.mem_cons]
        tauto
      have hold : ∀ u ∈ s.held, u = t ∨ u ∈ pre ++ post := fun u hu => by
        rw [hheld] at hu
        simp only [List.mem_append, List.mem_cons] at hu ⊢
        tauto
      have haccepted : ∀ t0, .accepted t0 ∈ ns ++ [Notice.passed ⟨c.index, c.nowMs, s.forceExecute, s.shutdown, t,
          (s.turn c.nowMs t).1, (s.turn c.nowMs t).2⟩] → .accepted t0 ∈ ns := fun t0 ht0 => by simpa using ht0
      have hcount : ∀ id, runCount (ns ++ [Notice.passed ⟨c.index, c.nowMs, s.forceExecute, s.shutdown, t,
          (s.turn c.nowMs t).1, (s.turn c.nowMs t).2⟩]) id =
            runCount ns id + if t.id = id ∧ (s.turn c.nowMs t).2 = true then 1 else 0 := fun id => by
        rw [runCount_append]
        simp [runCount, passes, Notice.pass?, List.countP_singleton]
      refine ⟨fun t0 ht0 => hn ▸ h.accepted t0 (haccepted t0 ht0), fun t0 ht0 u hu heq => ?_, fun p hp => ?_,
        fun p hp => ?_, fun u hu hp hr hu' => ?_, fun t0 ht0 hp hr hall => ?_, fun id hid hall => ?_⟩
      · rcases (hmem u).mp hu with hu | rfl
        · exact h.typed t0 (haccepted t0 ht0) u (hother u hu).1 heq
        · rw [turn_type]
          exact h.typed t0 (haccepted t0 ht0) t hmemt ((turn_id _ _).symm.trans heq)
      · rw [hn]
        rw [passes_append] at hp
        rcases List.mem_append.mp hp with hp | hp
        · exact h.bound p hp
        · rw [List.mem_singleton.mp hp]
          exact hl.bound t hmemt
      · rw [passes_append] at hp
        rcases List.mem_append.mp hp with hp | hp
        · exact h.sound p hp
        · rw [List.mem_singleton.mp hp]
          exact hsound
      · rw [hcount]
        rcases (hmem u).mp hu with hu | rfl
        · rw [h.waits u (hother u hu).1 hp (fun hR => hr (.inl hR)) hu', if_neg fun hn => (hother u hu).2 hn.1.symm]
        · rw [turn_id, turn_type] at *
          have hran := (hsound.oneShot hp).symm.trans hu'
          rw [h.waits t hmemt hp (fun hR => hr (.inl hR)) hfresh, if_neg fun hn => ?_]
          rw [show (s.turn c.nowMs t).2 = false from hran] at hn
          cases hn.2
      · rw [hcount]
        by_cases heq : t.id = t0.id
        · have hall' := hall _ ((hmem _).mpr (.inr rfl)) ((turn_id _ _).trans heq)
          have htype := h.typed t0 (haccepted t0 ht0) t hmemt heq
          have hran := (hsound.oneShot (by rw [show (_ : Task) = t from rfl, htype]; exact hp)).symm.trans hall'
          rw [← heq] at hr ⊢
          rw [h.waits t hmemt (htype ▸ hp) (fun hR => hr (.inl hR)) hfresh, if_pos ⟨rfl, hran⟩]
        · rw [if_neg fun hn => heq hn.1]
          refine h.ran t0 (haccepted t0 ht0) hp (fun hR => hr (.inl hR)) fun u hu hid => ?_
          rcases hold u hu with rfl | hu
          · exact absurd hid heq
          · exact hall u ((hmem u).mpr (.inl hu)) hid
      · rw [passes_append]
        by_cases heq : t.id = id
        · exact ⟨_, List.mem_append_right _ (List.mem_singleton_self _), heq,
            hall _ ((hmem _).mpr (.inr rfl)) ((turn_id _ _).trans heq)⟩
        · obtain ⟨p, hp, hpid, hpc⟩ := h.gone id (hn ▸ hid) fun u hu huid => by
            rcases hold u hu with rfl | hu
            · exact absurd huid heq
            · exact hall u ((hmem u).mpr (.inl hu)) huid
          exact ⟨p, List.mem_append_left _ hp, hpid, hpc⟩
  | removes s' hheld hn =>
      rw [List.append_nil]
      have hall' : ∀ {id}, (∀ t ∈ s'.held, t.id = id → t.completed = true) →
          ∀ t ∈ s.held, t.id = id → t.completed = true := fun hall t ht hid => by
        by_contra hc
        exact hc (hall t (by rw [hheld]; exact List.mem_filter.mpr ⟨ht, by simpa using hc⟩) hid)
      have hsub : ∀ t ∈ s'.held, t ∈ s.held := fun t ht => List.mem_of_mem_filter (hheld ▸ ht)
      exact ⟨hn ▸ h.accepted, fun t0 ht0 t ht => h.typed t0 ht0 t (hsub t ht), hn ▸ h.bound, h.sound,
        fun t ht hp hr => h.waits t (hsub t ht) hp fun hR => hr (.inl hR),
        fun t0 ht0 hp hr hall => h.ran t0 ht0 hp (fun hR => hr (.inl hR)) (hall' hall),
        fun id hid hall => h.gone id (hn ▸ hid) (hall' hall)⟩
  | touches id touch s' hheld hn =>
      rw [List.append_nil]
      have hf : ∀ t : Task, (if t.id = id then touch.apply t else t).id = t.id ∧
          (if t.id = id then touch.apply t else t).type = t.type ∧
          ((if t.id = id then touch.apply t else t).completed = t.completed ∨
            (if t.id = id then touch.apply t else t).completed = false ∧
              Event.reschedules (.touch id touch) t.id) := by
        intro t
        split
        · next heq =>
          refine ⟨touch_id _ _, touch_type _ _, (touch_completed touch t).imp_right fun ⟨hc, time, htime⟩ => ⟨hc, time, ?_⟩⟩
          rw [htime, heq]
        · exact ⟨rfl, rfl, .inl rfl⟩
      have hmem : ∀ u ∈ s'.held, ∃ t ∈ s.held, u = if t.id = id then touch.apply t else t := fun u hu => by
        rw [hheld] at hu
        obtain ⟨t, ht, rfl⟩ := List.mem_map.mp hu
        exact ⟨t, ht, rfl⟩
      have hall' : ∀ {i}, (∀ t ∈ s'.held, t.id = i → t.completed = true) →
          ∀ t ∈ s.held, t.id = i → t.completed = true := fun hall t ht hid => by
        have hc := hall _ (by rw [hheld]; exact List.mem_map_of_mem ht) ((hf t).1.trans hid)
        rcases (hf t).2.2 with heq | ⟨heq, -⟩
        · exact heq.symm.trans hc
        · rw [heq] at hc
          cases hc
      refine ⟨hn ▸ h.accepted, fun t0 ht0 u hu heq => ?_, hn ▸ h.bound, h.sound, fun u hu hp hr hu' => ?_,
        fun t0 ht0 hp hr hall => h.ran t0 ht0 hp (fun hR => hr (.inl hR)) (hall' hall),
        fun i hi hall => h.gone i (hn ▸ hi) (hall' hall)⟩
      · obtain ⟨t, ht, rfl⟩ := hmem u hu
        rw [(hf t).2.1]
        exact h.typed t0 ht0 t ht ((hf t).1.symm.trans heq)
      · obtain ⟨t, ht, rfl⟩ := hmem u hu
        rw [(hf t).1] at hr ⊢
        rw [(hf t).2.1] at hp
        rcases (hf t).2.2 with heq | ⟨-, hres⟩
        · exact h.waits t ht hp (fun hR => hr (.inl hR)) (heq.symm.trans hu')
        · exact absurd (.inr hres) hr

/-! ## Every cycle sees every task once -/

/-- The tasks of a cycle that have had their turn and those that wait have different numbers. -/
theorem Layout.turn_new (h : Layout s) {c : Cycle} (hc : s.cycle = some c) {t : Task} {todo : List Task}
    (htodo : c.todo = t :: todo) : (∀ u ∈ c.passed, u.id ≠ t.id) ∧ ∀ u ∈ todo, u.id ≠ t.id := by
  have hsorted := h.sorted
  simp only [held, cycleTasks, hc, htodo, h.alone c hc, Option.elim, List.nil_append, List.append_assoc,
    List.map_append, List.map_cons, List.cons_append] at hsorted
  refine ⟨fun u hu => ?_, fun u hu => ?_⟩
  · have hlt := (List.pairwise_append.mp hsorted).2.2 u.id (List.mem_map_of_mem hu) t.id List.mem_cons_self
    exact hlt.ne
  · have hlt := (List.pairwise_cons.mp (List.pairwise_append.mp hsorted).2.1).1 u.id
      (List.mem_append_left _ (List.mem_map_of_mem hu))
    exact hlt.ne'


structure Cycled (ns : List Notice) (s : TaskManager) : Prop where
  cycles : ∀ p ∈ passes ns, p.cycle < s.cycles
  once : (passes ns).Pairwise fun p q => p.cycle = q.cycle → p.before.id ≠ q.before.id
  seen : ∀ c, s.cycle = some c → ∀ t ∈ c.passed, ∃ p ∈ passes ns, p.before.id = t.id ∧ p.cycle = c.index
  passed : ∀ c, s.cycle = some c → ∀ p ∈ passes ns, p.cycle = c.index → ∃ t ∈ c.passed, t.id = p.before.id
  earlier : ∀ c, s.cycle = some c → ∀ id < c.accepted, (∀ t ∈ c.passed ++ c.todo, t.id ≠ id) →
    ∃ p ∈ passes ns, p.before.id = id ∧ p.after.completed = true ∧ p.cycle < c.index

/-- A step that leaves the cycle alone. -/
theorem Cycled.congr (h : Cycled ns s) {ns' : List Notice} {s' : TaskManager} (hp : passes ns' = passes ns)
    (hc : s'.cycle = s.cycle) (hn : s'.cycles = s.cycles) : Cycled ns' s' :=
  ⟨hp ▸ hn ▸ h.cycles, hp ▸ h.once, hp ▸ hc ▸ h.seen, hp ▸ hc ▸ h.passed, hp ▸ hc ▸ h.earlier⟩

theorem Cycled.step {R : Nat → Prop} (h : Cycled ns s) (hl : Layout s) (hk : Counted R ns s) (e : Event) :
    Cycled (ns ++ (s.step e).2) (s.step e).1 := by
  have hnil : passes (ns ++ []) = passes ns := by rw [List.append_nil]
  cases e with
  | add type nowMs delayMs periodMs timestampMs =>
      simp only [TaskManager.step]
      split <;> exact h.congr (by rw [passes_append]; exact List.append_nil _) rfl rfl
  | «begin» nowMs =>
      simp only [TaskManager.step]
      split
      · next hc =>
        have hnone : s.cycle = none := by simp_all
        rw [List.append_nil]
        refine ⟨fun p hp => (h.cycles p hp).trans (Nat.lt_succ_self _), h.once, fun c hc => ?_, fun c hc p hp heq => ?_,
          fun c hc id hid hall => ?_⟩ <;> cases hc
        · exact fun t ht => (by cases ht)
        · exact absurd heq (h.cycles p hp).ne
        · obtain ⟨p, hp, hpid, hpc⟩ := hk.gone id hid fun t ht heq => by
            refine absurd heq (hall t ?_)
            simpa [held, cycleTasks, hnone] using ht
          exact ⟨p, hp, hpid, hpc, h.cycles p hp⟩
      · exact h.congr hnil rfl rfl
  | advance =>
      cases hc : s.cycle with
      | none =>
          simp only [TaskManager.step, hc]
          exact h.congr hnil rfl rfl
      | some c =>
          obtain ⟨hindex, -, hids, -⟩ := hl.index c hc
          simp only [TaskManager.step, hc, TaskManager.advance]
          split
          · next t todo htodo =>
            have hmemt : t ∈ c.todo := by rw [htodo]; exact List.mem_cons_self
            rw [hl.waiting c hc t hmemt]
            simp only [Bool.false_eq_true, if_false]
            have hpasses : ∀ p : Pass, passes [.passed p] = [p] := fun _ => rfl
            -- the task has had no turn in this cycle
            have hnew : ∀ p ∈ passes ns, p.cycle = c.index → p.before.id ≠ t.id := by
              intro p hp heq hid
              obtain ⟨u, hu, huid⟩ := h.passed c hc p hp heq
              exact (hl.turn_new hc htodo).1 u hu (huid.trans hid)
            refine ⟨fun p hp => ?_, ?_, fun c' hc' u hu => ?_, fun c' hc' p hp heq => ?_, fun c' hc' id hid hall => ?_⟩
            · rw [passes_append, hpasses] at hp
              rcases List.mem_append.mp hp with hp | hp
              · exact h.cycles p hp
              · rw [List.mem_singleton.mp hp, ← hindex]
                exact Nat.lt_succ_self _
            · rw [passes_append, hpasses, List.pairwise_append]
              refine ⟨h.once, List.pairwise_singleton _ _, fun p hp q hq heq => ?_⟩
              rw [List.mem_singleton.mp hq] at heq ⊢
              exact hnew p hp heq
            all_goals cases hc'
            · rw [passes_append, hpasses]
              rcases List.mem_append.mp hu with hu | hu
              · obtain ⟨p, hp, hpu⟩ := h.seen c hc u hu
                exact ⟨p, List.mem_append_left _ hp, hpu⟩
              · rw [List.mem_singleton.mp hu]
                exact ⟨_, List.mem_append_right _ (List.mem_singleton_self _), (turn_id _ _).symm, rfl⟩
            · rw [passes_append, hpasses] at hp
              rcases List.mem_append.mp hp with hp | hp
              · obtain ⟨u, hu, huid⟩ := h.passed c hc p hp heq
                exact ⟨u, List.mem_append_left _ hu, huid⟩
              · rw [List.mem_singleton.mp hp]
                exact ⟨_, List.mem_append_right _ (List.mem_singleton_self _), turn_id _ _⟩
            · obtain ⟨p, hp, hpu⟩ := h.earlier c hc id hid fun u hu => by
                rcases List.mem_append.mp hu with hu | hu
                · exact hall u (by simp [hu])
                · rw [htodo] at hu
                  rcases List.mem_cons.mp hu with rfl | hu
                  · have ht := hall (s.turn c.nowMs u).1 (by simp)
                    rwa [turn_id] at ht
                  · exact hall u (by simp [hu])
              rw [passes_append]
              exact ⟨p, List.mem_append_left _ hp, hpu⟩
          · next htodo =>
            split
            · have hpasses : passes (ns ++ [.cleared]) = passes ns := by rw [passes_append]; exact List.append_nil _
              refine ⟨hpasses ▸ h.cycles, hpasses ▸ h.once, fun c' hc' => ?_, fun c' hc' => ?_, fun c' hc' => ?_⟩ <;>
                cases hc' <;> rw [hpasses]
              · exact h.seen c hc
              · exact h.passed c hc
              · exact h.earlier c hc
            · rw [List.append_nil]
              exact ⟨h.cycles, h.once, fun _ hc' => (by cases hc'), fun _ hc' => (by cases hc'),
                fun _ hc' => (by cases hc')⟩
  | touch id touch =>
      have hf : ∀ t : Task, (if t.id = id then touch.apply t else t).id = t.id := by
        intro t
        split <;> simp
      rw [show (s.step (.touch id touch)).2 = [] from rfl, List.append_nil]
      refine ⟨h.cycles, h.once, fun c hc u hu => ?_, fun c hc p hp heq => ?_, fun c hc i hi hall => ?_⟩ <;>
        obtain ⟨c', hc', rfl⟩ := Option.map_eq_some_iff.mp hc
      · obtain ⟨t, ht, rfl⟩ := List.mem_map.mp hu
        rw [hf]
        exact h.seen c' hc' t ht
      · obtain ⟨t, ht, htid⟩ := h.passed c' hc' p hp heq
        exact ⟨_, List.mem_map_of_mem ht, (hf t).trans htid⟩
      · refine h.earlier c' hc' i hi fun t ht => ?_
        have hne := hall (if t.id = id then touch.apply t else t) (by
          rw [← List.map_append]
          exact List.mem_map_of_mem ht)
        rwa [hf] at hne
  | leaveLoop | run | shutdownReturns =>
      simp only [TaskManager.step]
      split <;> exact h.congr (by rw [passes_append]; exact List.append_nil _) rfl rfl
  | forceExecute => exact h.congr hnil rfl rfl
  | shutdown =>
      simp only [TaskManager.step]
      (repeat' split) <;> exact h.congr hnil rfl rfl

/-! ## Forced execution -/

/-- How often a task has had a turn under the force flag. -/
def forcedCount (ns : List Notice) (id : Nat) : Nat :=
  (passes ns).countP fun p => p.before.id = id ∧ p.forced = true

/-- Everything that a run says from a state on. -/
def noticesFrom (s : TaskManager) (es : List Event) : List Notice := (Lib.Run.trace step s es).flatMap (·.answer)

/-- No cycle in progress, its turns not yet at their end, has left a task behind: one that had its turn and is not
completed, or one that waits for the next cycle. -/
def NothingBehind (s : TaskManager) : Prop :=
  ∀ c, s.cycle = some c → c.cleared = false → s.pendingTasks = [] ∧ ∀ t ∈ c.passed, t.completed = true

/-- After a call of `force_execute`, up to the end of the turns of the cycle that clears its flag, every unfinished
task has one turn under the flag. -/
def ForcesAll (s : TaskManager) : Prop :=
  ∀ es, .cleared ∉ noticesFrom (s.step .forceExecute).1 es →
    ((Lib.Run.exec step (s.step .forceExecute).1 es).step .advance).2 = [.cleared] →
    ∀ t ∈ s.held, t.completed = false → forcedCount (noticesFrom (s.step .forceExecute).1 es) t.id = 1

/-- How far the tasks `U` have come in a run under the force flag. -/
structure Forcing (U : Nat → Prop) (ns : List Notice) (s : TaskManager) : Prop where
  flag : s.forceExecute = true
  turns : ∀ c, s.cycle = some c → c.cleared = false → ∀ u, U u →
    (∃ t ∈ c.todo, t.id = u) ∧ forcedCount ns u = 0 ∨ (∃ t ∈ c.passed, t.id = u) ∧ forcedCount ns u = 1
  waits : (∀ c, s.cycle = some c → c.cleared = true) → ∀ u, U u →
    forcedCount ns u = 0 ∧ ∃ t ∈ s.held, t.id = u ∧ t.completed = false

theorem forcedCount_append (ns ns' : List Notice) (id : Nat) :
    forcedCount (ns ++ ns') id = forcedCount ns id + forcedCount ns' id := by
  rw [forcedCount, passes_append, List.countP_append]
  rfl

/-- A cleared cycle has had all its turns. -/
def Settled (s : TaskManager) : Prop := ∀ c, s.cycle = some c → c.cleared = true → c.todo = []

theorem Settled.step (h : Settled s) (e : Event) : Settled (s.step e).1 := by
  cases e with
  | «begin» nowMs =>
      simp only [TaskManager.step]
      split
      · intro c hc hcl
        cases hc
        cases hcl
      · exact h
  | advance =>
      cases hc : s.cycle with
      | none =>
          simp only [TaskManager.step, hc]
          exact h
      | some c =>
          simp only [TaskManager.step, hc, TaskManager.advance]
          split
          · next t todo htodo =>
            intro c' hc' hcl
            cases hc'
            rw [h c hc hcl] at htodo
            cases htodo
          · next htodo =>
            split <;> intro c' hc' hcl <;> cases hc'
            exact htodo
  | touch id touch =>
      intro c hc hcl
      obtain ⟨c', hc', rfl⟩ := Option.map_eq_some_iff.mp hc
      simp [h c' hc' hcl]
  | add type nowMs delayMs periodMs timestampMs =>
      simp only [TaskManager.step]
      split <;> exact h
  | leaveLoop | run | shutdownReturns =>
      simp only [TaskManager.step]
      split <;> exact h
  | forceExecute => exact h
  | shutdown =>
      simp only [TaskManager.step]
      (repeat' split) <;> exact h

theorem Forcing.congr {U : Nat → Prop} (h : Forcing U ns s) {ns' : List Notice} {s' : TaskManager}
    (hp : passes ns' = passes ns) (hflag : s'.forceExecute = true) (hc : s'.cycle = s.cycle)
    (hheld : ∀ t ∈ s.held, t ∈ s'.held) : Forcing U ns' s' := by
  have hcount : ∀ id, forcedCount ns' id = forcedCount ns id := fun id => by rw [forcedCount, hp]; rfl
  refine ⟨hflag, fun c hc' hcl u hu => ?_, fun hcl u hu => ?_⟩
  · rw [hcount]
    exact h.turns c (hc ▸ hc') hcl u hu
  · rw [hcount]
    obtain ⟨h0, t, ht, hid⟩ := h.waits (hc ▸ hcl) u hu
    exact ⟨h0, t, hheld t ht, hid⟩

theorem Forcing.step {U : Nat → Prop} (h : Forcing U ns s) (hl : Layout s) (hs : Settled s) {e : Event}
    (he : .cleared ∉ (s.step e).2) : Forcing U (ns ++ (s.step e).2) (s.step e).1 := by
  have hnil : passes (ns ++ []) = passes ns := by rw [List.append_nil]
  cases e with
  | add type nowMs delayMs periodMs timestampMs =>
      simp only [TaskManager.step]
      split
      · exact h.congr (by rw [passes_append]; exact List.append_nil _) h.flag rfl fun t ht => ht
      · refine h.congr (by rw [passes_append]; exact List.append_nil _) h.flag rfl fun t ht => ?_
        simp only [held, ← List.append_assoc]
        exact List.mem_append_left _ ht
  | «begin» nowMs =>
      simp only [TaskManager.step]
      split
      · next hc =>
        have hnone : s.cycle = none := by simp_all
        rw [List.append_nil]
        refine ⟨h.flag, fun c hc' _ u hu => ?_, fun hcl => ?_⟩
        · cases hc'
          obtain ⟨h0, t, ht, hid, -⟩ := h.waits (fun c hc' => by rw [hnone] at hc'; cases hc') u hu
          exact .inl ⟨⟨t, by simpa [held, cycleTasks, hnone] using ht, hid⟩, h0⟩
        · cases hcl _ rfl
      · exact h.congr hnil h.flag rfl fun t ht => ht
  | advance =>
      cases hc : s.cycle with
      | none =>
          simp only [TaskManager.step, hc]
          exact h.congr hnil h.flag rfl fun t ht => ht
      | some c =>
          simp only [TaskManager.step, hc, TaskManager.advance] at he ⊢
          split at he
          · next t todo htodo =>
            obtain ⟨hpassed, htodo'⟩ := hl.turn_new hc htodo
            have hopen : c.cleared = false := by
              by_contra hcl
              rw [hs c hc (Bool.not_eq_false _ ▸ hcl)] at htodo
              cases htodo
            have hcount : ∀ id, forcedCount (ns ++ [Notice.passed ⟨c.index, c.nowMs, s.forceExecute, s.shutdown, t,
                (s.turn c.nowMs t).1, (s.turn c.nowMs t).2⟩]) id =
                  forcedCount ns id + if t.id = id then 1 else 0 := fun id => by
              rw [forcedCount_append]
              simp [forcedCount, passes, Notice.pass?, List.countP_singleton, h.flag]
            rw [hl.waiting c hc t (by rw [htodo]; exact List.mem_cons_self)]
            simp only [Bool.false_eq_true, if_false]
            refine ⟨h.flag, fun c' hc' _ u hu => ?_, fun hcl => ?_⟩
            · cases hc'
              rw [hcount]
              rcases h.turns c hc hopen u hu with ⟨⟨v, hv, rfl⟩, h0⟩ | ⟨⟨v, hv, rfl⟩, h1⟩
              · rw [htodo] at hv
                rcases List.mem_cons.mp hv with rfl | hv
                · refine .inr ⟨⟨_, List.mem_append_right _ (List.mem_singleton_self _), turn_id _ _⟩, ?_⟩
                  rw [h0, if_pos rfl]
                · refine .inl ⟨⟨v, hv, rfl⟩, ?_⟩
                  rw [h0, if_neg (htodo' v hv).symm]
              · refine .inr ⟨⟨v, List.mem_append_left _ hv, rfl⟩, ?_⟩
                rw [h1, if_neg (hpassed v hv).symm]
            · rw [hcl _ rfl] at hopen
              cases hopen
          · next htodo =>
            split at he
            · exact absurd (List.mem_singleton_self _) he
            · next hcl =>
              have hcleared : c.cleared = true := by simpa using hcl
              simp only [htodo, hcleared, Bool.not_true, Bool.false_eq_true, if_false]
              rw [List.append_nil]
              refine ⟨h.flag, fun _ hc' => (by cases hc'), fun _ u hu => ?_⟩
              obtain ⟨h0, t, ht, hid, hfresh⟩ := h.waits (fun c' hc' => by
                rw [hc] at hc'
                cases hc'
                exact hcleared) u hu
              refine ⟨h0, t, ?_, hid, hfresh⟩
              simpa [held, cycleTasks, hc, htodo, hl.alone c hc, hfresh] using ht
  | touch id touch =>
      have hf : ∀ t : Task, (if t.id = id then touch.apply t else t).id = t.id ∧
          (t.completed = false → (if t.id = id then touch.apply t else t).completed = false) := by
        intro t
        split
        · refine ⟨touch_id _ _, fun ht => ?_⟩
          rcases touch_completed touch t with heq | ⟨heq, -⟩
          · exact heq.trans ht
          · exact heq
        · exact ⟨rfl, fun ht => ht⟩
      rw [show (s.step (.touch id touch)).2 = [] from rfl, List.append_nil]
      refine ⟨h.flag, fun c hc hcl u hu => ?_, fun hcl u hu => ?_⟩
      · obtain ⟨c', hc', rfl⟩ := Option.map_eq_some_iff.mp hc
        refine (h.turns c' hc' hcl u hu).imp ?_ ?_ <;> rintro ⟨⟨t, ht, hid⟩, hn⟩ <;>
          exact ⟨⟨_, List.mem_map_of_mem ht, (hf t).1.trans hid⟩, hn⟩
      · have hmap : (s.step (.touch id touch)).1.cycle = s.cycle.map fun c => { c with
            passed := c.passed.map fun t => if t.id = id then touch.apply t else t
            todo := c.todo.map fun t => if t.id = id then touch.apply t else t } := rfl
        have hcleared : ∀ c, s.cycle = some c → c.cleared = true := fun c hc => by
          have hc' := hcl _ (hmap.trans (Option.map_eq_some_iff.mpr ⟨c, hc, rfl⟩))
          exact hc'
        obtain ⟨h0, t, ht, hid, hfresh⟩ := h.waits hcleared u hu
        refine ⟨h0, _, ?_, (hf t).1.trans hid, (hf t).2 hfresh⟩
        have hheld : (s.step (.touch id touch)).1.held =
            s.held.map fun t => if t.id = id then touch.apply t else t := by
          cases hc : s.cycle <;> simp [TaskManager.step, mapTasks, held, cycleTasks, hc]
        rw [hheld]
        exact List.mem_map_of_mem ht
  | leaveLoop | run | shutdownReturns =>
      simp only [TaskManager.step]
      split <;> exact h.congr (by rw [passes_append]; exact List.append_nil _) h.flag rfl fun t ht => ht
  | forceExecute => exact h.congr hnil rfl rfl fun t ht => ht
  | shutdown =>
      simp only [TaskManager.step]
      (repeat' split) <;> exact h.congr hnil h.flag rfl fun t ht => ht

/-- The turns of a cycle, one after the other. -/
theorem finish_cycle (n : Nat) {c : Cycle} (hc : s.cycle = some c) (hopen : c.cleared = false)
    (hn : c.todo.length = n) :
    ∃ c', (Lib.Run.exec step s (List.replicate n .advance)).cycle = some c' ∧ c'.todo = [] ∧ c'.cleared = false ∧
      .cleared ∉ noticesFrom s (List.replicate n .advance) ∧
      ∀ p ∈ passes (noticesFrom s (List.replicate n .advance)), ∃ t ∈ c.todo, t.id = p.before.id := by
  induction n generalizing s c with
  | zero =>
      exact ⟨c, hc, List.eq_nil_of_length_eq_zero hn, hopen, fun h => (by cases h), fun p h => (by cases h)⟩
  | succ n ih =>
      obtain ⟨t, todo, htodo⟩ := List.exists_cons_of_length_eq_add_one hn
      have hstep : s.step .advance = s.advance c := by simp only [TaskManager.step, hc]
      rw [htodo, List.length_cons, Nat.add_right_cancel_iff] at hn
      have hcycle : (s.step .advance).1.cycle =
          some { c with passed := c.passed ++ [(s.turn c.nowMs t).1], todo } := by
        rw [hstep, advance, htodo]
      obtain ⟨c', hc', htodo', hopen', hnone, hpasses⟩ := ih hcycle hopen hn
      have hanswer : (s.step .advance).2 = [] ∨ ∃ p : Pass, (s.step .advance).2 = [.passed p] ∧ p.before = t := by
        rw [hstep, advance, htodo]
        dsimp only
        split
        · exact .inl rfl
        · exact .inr ⟨_, rfl, rfl⟩
      refine ⟨c', hc', htodo', hopen', ?_, fun p hp => ?_⟩
      · rw [List.replicate_succ, noticesFrom, Lib.Run.trace_cons, List.flatMap_cons, List.mem_append]
        rintro (h | h)
        · rcases hanswer with heq | ⟨p, heq, -⟩ <;> simp [heq] at h
        · exact hnone h
      · rw [List.replicate_succ, noticesFrom, Lib.Run.trace_cons, List.flatMap_cons, passes_append] at hp
        rw [htodo]
        rcases List.mem_append.mp hp with hp | hp
        · rcases hanswer with heq | ⟨q, heq, rfl⟩
          · simp [heq, passes] at hp
          · have hpq : p = q := by simpa [heq, passes, Notice.pass?] using hp
            exact ⟨q.before, List.mem_cons_self, by rw [hpq]⟩
        · obtain ⟨u, hu, huid⟩ := hpasses p hp
          exact ⟨u, List.mem_cons_of_mem _ hu, huid⟩

theorem clear_step {c : Cycle} (hc : s.cycle = some c) (htodo : c.todo = []) (hopen : c.cleared = false) :
    (s.step .advance).2 = [.cleared] := by
  simp [TaskManager.step, hc, TaskManager.advance, htodo, hopen]

/-- A call of `force_execute` reaches all that it should exactly when no cycle in progress has left a task behind. -/
theorem forcesAll_iff (hl : Layout s) (hs : Settled s) : ForcesAll s ↔ NothingBehind s := by
  constructor
  · intro h c hc hopen
    obtain ⟨c', hc', htodo', hopen', hnone, hpasses⟩ := finish_cycle (s := (s.step .forceExecute).1) c.todo.length hc
      hopen rfl
    have hall := h _ hnone (clear_step hc' htodo' hopen')
    -- a task that does not wait for a turn in this cycle gets none
    have hbehind : ∀ t ∈ s.held, (∀ u ∈ c.todo, u.id ≠ t.id) → t.completed = true := by
      intro t ht hnot
      by_contra hfresh
      have h1 := hall t ht (by simpa using hfresh)
      have h0 : forcedCount (noticesFrom (s.step .forceExecute).1 (List.replicate c.todo.length .advance)) t.id = 0 := by
        refine List.countP_eq_zero.mpr fun p hp => ?_
        obtain ⟨u, hu, huid⟩ := hpasses p hp
        have hne := hnot u hu
        simp only [decide_eq_true_eq, not_and]
        intro heq
        exact absurd (huid.trans heq) hne
      omega
    obtain ⟨-, -, hids, hpending⟩ := hl.index c hc
    refine ⟨List.eq_nil_iff_forall_not_mem.mpr fun t ht => ?_, fun t ht => ?_⟩
    · have hfresh := hl.fresh t (List.mem_append_right _ ht)
      rw [hbehind t (List.mem_append_right _ ht) fun u hu heq => ?_] at hfresh
      · cases hfresh
      · have h1 := hids u (List.mem_append_right _ hu)
        have h2 := hpending t ht
        omega
    · refine hbehind t ?_ fun u hu heq => ?_
      · simp [held, cycleTasks, hc, ht]
      · obtain ⟨v, w, hvw⟩ := List.append_of_mem hu
        have hsorted := hl.sorted
        simp only [held, cycleTasks, hc, hl.alone c hc, Option.elim, List.nil_append, List.append_assoc,
          List.map_append] at hsorted
        have hlt := (List.pairwise_append.mp hsorted).2.2 t.id (List.mem_map_of_mem ht) u.id
          (List.mem_append_left _ (List.mem_map_of_mem hu))
        omega
  · intro h es hnone hclear t ht hfresh
    have hstart : Forcing (fun u => ∃ t ∈ s.held, t.id = u ∧ t.completed = false) [] (s.step .forceExecute).1 := by
      refine ⟨rfl, fun c hc hopen u hu => ?_, fun _ u hu => ⟨rfl, hu⟩⟩
      obtain ⟨v, hv, rfl, hv'⟩ := hu
      obtain ⟨hpending, hpassed⟩ := h c hc hopen
      have hc' : s.cycle = some c := hc
      simp only [held, cycleTasks, hc', hl.alone c hc', hpending, Option.elim, List.nil_append, List.append_nil,
        List.mem_append] at hv
      rcases hv with hv | hv
      · rw [hpassed v hv] at hv'
        cases hv'
      · exact .inl ⟨⟨v, hv, rfl⟩, rfl⟩
    have hrun : ∀ (es : List Event) (s : TaskManager) (ns : List Notice) (U : Nat → Prop), Forcing U ns s → Layout s →
        Settled s → .cleared ∉ noticesFrom s es → Forcing U (ns ++ noticesFrom s es) (Lib.Run.exec step s es) := by
      intro es
      induction es with
      | nil =>
          intro s ns U hf _ _ _
          simpa [noticesFrom] using hf
      | cons e es ih =>
          intro s ns U hf hl hs hnone
          simp only [noticesFrom, Lib.Run.trace_cons, List.flatMap_cons, Lib.Run.stepOf_answer, List.mem_append,
            not_or] at hnone ⊢
          have hnext := ih (s.step e).1 _ U (hf.step hl hs hnone.1) (hl.step e) (hs.step e) hnone.2
          simpa [noticesFrom] using hnext
    have hend := hrun es _ [] _ hstart (hl.step .forceExecute) (hs.step .forceExecute) hnone
    rw [List.nil_append] at hend
    generalize Lib.Run.exec step (s.step .forceExecute).1 es = s' at hclear hend
    cases hc : s'.cycle with
    | none => simp [TaskManager.step, hc] at hclear
    | some c =>
        simp only [TaskManager.step, hc, TaskManager.advance] at hclear
        split at hclear
        · split at hclear <;> cases hclear
        · next htodo =>
          have hopen : c.cleared = false := by
            by_contra hcl
            simp [hcl] at hclear
          rcases hend.turns c hc hopen t.id ⟨t, ht, rfl, hfresh⟩ with ⟨⟨u, hu, -⟩, -⟩ | ⟨-, h1⟩
          · rw [htodo] at hu
            cases hu
          · exact h1

end TaskManager

end OptionX.Utils
