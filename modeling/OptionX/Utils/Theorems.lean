import OptionX.Utils.Lemmas.EventAwaiter
import OptionX.Utils.Lemmas.EventDispatch
import OptionX.Utils.Lemmas.TaskRuns

/-!
# The task manager, the event bus and its awaiters

What the task manager promises of its tasks over any run, and when `force_execute` reaches all of them. What the
event bus does with the events it has accepted and with the handlers that are subscribed. When a single-shot awaiter
calls its callback once only.
-/

namespace OptionX.Utils

namespace TaskManager

open Lib.Run (exec trace stepOf)

theorem layout_run (es : List Event) : Layout (exec step {} es) :=
  Lib.Run.exec_induct (fun _ e h => h.step e)
    ⟨.nil, fun _ h => (by cases h), fun _ h => (by cases h), fun _ h => (by cases h), fun _ h => (by cases h),
      fun _ h => (by cases h), fun _ h => (by cases h), fun _ h => (by cases h)⟩ es

theorem settled_run (es : List Event) : Settled (exec step {} es) :=
  Lib.Run.exec_induct (fun _ e h => h.step e) (fun _ h => (by cases h)) es

theorem lifecycle_run (es : List Event) : Lifecycle (exec step {} es) := by
  suffices h : Layout (exec step {} es) ∧ Lifecycle (exec step {} es) from h.2
  exact Lib.Run.exec_induct (I := fun s => Layout s ∧ Lifecycle s) (fun _ e h => ⟨h.1.step e, h.2.step h.1 e⟩)
    ⟨layout_run [], .create⟩ es

theorem Counted.mono {R R' : Nat → Prop} {ns : List Notice} {s : TaskManager} (h : Counted R ns s)
    (hR : ∀ id, R id → R' id) : Counted R' ns s :=
  { h with
    waits := fun t ht hp hr => h.waits t ht hp fun hR' => hr (hR _ hR')
    ran := fun t0 ht0 hp hr => h.ran t0 ht0 hp fun hR' => hr (hR _ hR') }

theorem counted_run (es : List Event) :
    Counted (fun id => ∃ e ∈ es, e.reschedules id) (noticesFrom {} es) (exec step {} es) ∧
      Cycled (noticesFrom {} es) (exec step {} es) := by
  induction es using List.reverseRecOn with
  | nil =>
      exact ⟨⟨fun _ h => (by cases h), fun _ h => (by cases h), fun _ h => (by cases h), fun _ h => (by cases h),
        fun _ h => (by cases h), fun _ h => (by cases h), fun _ h => (by cases h)⟩,
        ⟨fun _ h => (by cases h), .nil, fun _ h => (by cases h), fun _ h => (by cases h), fun _ h => (by cases h)⟩⟩
  | append_singleton es e ih =>
      have hns : noticesFrom {} (es ++ [e]) = noticesFrom {} es ++ ((exec step {} es).step e).2 := by
        simp [noticesFrom, Lib.Run.trace_append]
      have hs : exec step {} (es ++ [e]) = ((exec step {} es).step e).1 := Lib.Run.exec_append es [e]
      rw [hns, hs]
      have hl := layout_run es
      refine ⟨(ih.1.step hl e).mono ?_, ih.2.step hl ih.1 e⟩
      rintro id (⟨e', he', hr⟩ | hr)
      · exact ⟨e', List.mem_append_left _ he', hr⟩
      · exact ⟨e, List.mem_append_right _ (List.mem_singleton_self e), hr⟩

/-- What is said in a part of a run is said in all of it. -/
theorem passes_prefix (pre post : List Event) :
    ∀ p ∈ passes (noticesFrom {} pre), p ∈ passes (noticesFrom {} (pre ++ post)) := by
  intro p hp
  rw [noticesFrom, Lib.Run.trace_append, List.flatMap_append, passes_append]
  exact List.mem_append_left _ hp

theorem cleared_step {s : TaskManager} {e : Event} (h : .cleared ∈ (s.step e).2) :
    ∃ c, s.cycle = some c ∧ c.todo = [] := by
  cases e with
  | advance =>
      cases hc : s.cycle with
      | none => simp [step, hc] at h
      | some c =>
          refine ⟨c, rfl, ?_⟩
          simp only [step, hc, advance] at h
          split at h
          · split at h <;> simp at h
          · assumption
  | add type nowMs delayMs periodMs timestampMs =>
      simp only [step] at h
      split at h <;> simp at h
  | «begin» nowMs =>
      simp only [step] at h
      split at h <;> simp at h
  | leaveLoop | run | shutdownReturns =>
      simp only [step] at h
      split at h <;> simp at h
  | shutdown =>
      simp only [step] at h
      (repeat' split at h) <;> simp at h
  | forceExecute | touch id touch => cases h

theorem drained_step {s : TaskManager} {e : Event} (h : .drained ∈ (s.step e).2) :
    (s.worker = .gone ∨ s.stopping = .drained) ∧ (s.step e).1.held = s.held ∧ (s.step e).1.shutdown = false := by
  cases e with
  | shutdownReturns =>
      simp only [step] at h ⊢
      split at h
      · next hc =>
        rw [if_pos hc]
        exact ⟨hc.imp_left (·.2), rfl, rfl⟩
      · cases h
  | advance =>
      cases hc : s.cycle with
      | none => simp [step, hc] at h
      | some c =>
          simp only [step, hc, advance] at h
          split at h <;> split at h <;> simp at h
  | add type nowMs delayMs periodMs timestampMs =>
      simp only [step] at h
      split at h <;> simp at h
  | «begin» nowMs =>
      simp only [step] at h
      split at h <;> simp at h
  | leaveLoop | run =>
      simp only [step] at h
      split at h <;> simp at h
  | shutdown =>
      simp only [step] at h
      (repeat' split at h) <;> simp at h
  | forceExecute | touch id touch => cases h

theorem add_accepted {s : TaskManager} (hopen : s.shutdown = false) {type : TaskType} {periodMs : Int}
    (hp : type.isPeriodic = true → 0 < periodMs) (nowMs delayMs timestampMs : Int) :
    (s.step (.add type nowMs delayMs periodMs timestampMs)).2 =
      [.accepted (Task.create s.nextId type nowMs delayMs periodMs timestampMs)] := by
  have hvalid : (type.isPeriodic && !Task.isValidPeriod periodMs) = false := by
    cases hperiodic : type.isPeriodic <;> simp [Task.isValidPeriod, hp, hperiodic]
  simp [step, hopen, hvalid]

/-- In every run: a one-shot task that is never rescheduled has run once when the manager no longer holds it
unfinished, and not at all before; a turn runs its task exactly when the cycle sees it due, forced or shut down, and
a due periodic task is next due at the first time of its grid; a cycle gives each task one turn at most, and before
it clears the force flag it has given one to every task that was accepted before it began and not completed by an
earlier cycle; when `shutdown` returns nothing is left, and tasks are accepted again. A call of `force_execute`
forces each task exactly once when, and only when, no cycle in progress has left a task behind. -/
theorem runs_as_scheduled (es : List Event) :
    let ns := noticesFrom {} es
    let s := exec step {} es
    (∀ t, .accepted t ∈ ns → t.type.isPeriodic = false → (∀ time, .touch t.id (.rescheduleAt time) ∉ es) →
      runCount ns t.id = if ∃ u ∈ s.held, u.id = t.id ∧ u.completed = false then 0 else 1) ∧
    (∀ p ∈ passes ns, p.Sound) ∧
    (passes ns).Pairwise (fun p q => p.cycle = q.cycle → p.before.id ≠ q.before.id) ∧
    (∀ st ∈ trace step {} es, .cleared ∈ st.answer → ∃ c, st.before.cycle = some c ∧ ∀ id < c.accepted,
      (∃ p ∈ passes ns, p.before.id = id ∧ p.cycle = c.index) ∨
        ∃ p ∈ passes ns, p.before.id = id ∧ p.after.completed = true ∧ p.cycle < c.index) ∧
    (∀ st ∈ trace step {} es, .drained ∈ st.answer → st.after.held = [] ∧
      ∀ type nowMs delayMs periodMs timestampMs, (type.isPeriodic = true → 0 < periodMs) →
        ∃ t, (st.after.step (.add type nowMs delayMs periodMs timestampMs)).2 = [.accepted t]) ∧
    (ForcesAll s ↔ NothingBehind s) := by
  obtain ⟨hcounted, hcycled⟩ := counted_run es
  refine ⟨fun t ht hp hr => ?_, hcounted.sound, hcycled.once, fun st hst hclear => ?_, fun st hst hdrained => ?_,
    forcesAll_iff (layout_run es) (settled_run es)⟩
  · have hr' : ¬ ∃ e ∈ es, Event.reschedules e t.id := by
      rintro ⟨e, he, time, rfl⟩
      exact hr time he
    split
    · next hheld =>
      obtain ⟨u, hu, hid, hfresh⟩ := hheld
      rw [← hid] at hr' ⊢
      exact hcounted.waits u hu (by rw [hcounted.typed t ht u hu hid]; exact hp) hr' hfresh
    · next hheld =>
      refine hcounted.ran t ht hp hr' fun u hu hid => ?_
      by_contra hfresh
      exact hheld ⟨u, hu, hid, by simpa using hfresh⟩
  · obtain ⟨pre, e, post, rfl, rfl⟩ := Lib.Run.mem_trace hst
    obtain ⟨-, hc⟩ := counted_run pre
    obtain ⟨c, hcycle, htodo⟩ := cleared_step hclear
    refine ⟨c, hcycle, fun id hid => ?_⟩
    by_cases hpassed : ∃ t ∈ c.passed, t.id = id
    · obtain ⟨t, ht, rfl⟩ := hpassed
      obtain ⟨p, hp, hpt⟩ := hc.seen c hcycle t ht
      exact .inl ⟨p, passes_prefix pre _ p hp, hpt⟩
    · obtain ⟨p, hp, hpt⟩ := hc.earlier c hcycle id hid fun t ht heq => by
        rw [htodo, List.append_nil] at ht
        exact hpassed ⟨t, ht, heq⟩
      exact .inr ⟨p, passes_prefix pre _ p hp, hpt⟩
  · obtain ⟨pre, e, post, rfl, rfl⟩ := Lib.Run.mem_trace hst
    obtain ⟨hended, hheld, hopen⟩ := drained_step hdrained
    exact ⟨hheld.trans ((lifecycle_run pre).ended hended), fun type nowMs delayMs periodMs timestampMs hp =>
      ⟨_, add_accepted hopen hp nowMs delayMs timestampMs⟩⟩

/-- A task that is not yet due has had its turn in a cycle that is still in progress. -/
def midCycle : List Event := [.add .delayedSingle 0 1000 0 0, .begin 10, .advance]

theorem force_lost : ¬ ∀ es, ForcesAll (exec step {} es) := by
  intro h
  have hforced := h midCycle [] (by decide) (by decide) (Task.create 0 .delayedSingle 0 1000 0 0) (by decide) rfl
  revert hforced
  decide

end TaskManager

namespace EventBus

open Lib.Run (exec trace stepOf)

section Runs

variable {ι κ : Type} [DecidableEq ι] [DecidableEq κ]

/-- All that the bus says in a run. -/
def notices (es : List (Event ι κ)) : List (Notice ι κ) := (trace step {} es).flatMap (·.answer)

theorem dispatches_run (es : List (Event ι κ)) : Dispatches (notices es) (exec step {} es) := by
  induction es using List.reverseRecOn with
  | nil => exact .empty
  | append_singleton es e ih =>
      have hns : notices (es ++ [e]) = notices es ++ ((exec step {} es).step e).2 := by
        simp [notices, Lib.Run.trace_append]
      rw [hns, Lib.Run.exec_append es [e]]
      exact ih.step e

theorem numbered_run (es : List (Event ι κ)) : Numbered (exec step {} es) :=
  Lib.Run.exec_induct (I := Numbered) (fun _ e h => h.step e) (rfl : Numbered {}) es

theorem registry_run (es : List (Event ι κ)) : Registry (exec step {} es) :=
  Lib.Run.exec_induct (fun _ e h => h.step e) ⟨fun _ => .nil, fun _ _ h => (by cases h), fun _ => .nil⟩ es

/-- A dispatch takes a copy of the handlers that are subscribed. -/
theorem began_step {s : EventBus ι κ} {e : Event ι κ} {d : Nat} {type : κ} {hs : List (Handler ι)}
    (h : .began d type hs ∈ (s.step e).2) : hs = s.handlers type := by
  cases e with
  | notify event =>
      cases event with
      | none => cases h
      | some type' =>
          simp only [step] at h
          split at h
          · cases List.mem_singleton.mp h
            rfl
          · cases h
  | notifyAsync event => cases event <;> cases h
  | advance =>
      simp only [step, advance] at h
      (repeat' split at h) <;> simp [EventBus.notify] at h
      obtain ⟨-, rfl, rfl⟩ := h
      rfl
  | subscribe | subscribeListener | unsubscribe | unsubscribeAll | process | drain | handlerReturns | handlerThrows =>
      cases h

/-- A handler that is started was due. -/
theorem started_step {s : EventBus ι κ} {e : Event ι κ} {d : Nat} {type : κ} {h : Handler ι}
    (hst : .started d type h ∈ (s.step e).2) : Due s type h := by
  cases e with
  | notify event =>
      cases event with
      | none => cases hst
      | some type' =>
          simp only [step] at hst
          split at hst
          · cases List.mem_singleton.mp hst
          · cases hst
  | notifyAsync event => cases event <;> cases hst
  | advance =>
      simp only [step, advance] at hst
      split at hst
      · next id type' handler todo rest hs =>
        cases List.mem_singleton.mp hst
        exact ⟨d, _, by rw [hs]; exact List.mem_cons_self, List.mem_cons_self⟩
      all_goals (repeat' split at hst) <;> simp [EventBus.notify] at hst
  | subscribe | subscribeListener | unsubscribe | unsubscribeAll | process | drain | handlerReturns | handlerThrows =>
      cases hst

/-- In every run: the events are dispatched in the order of acceptance, and the others wait, exactly when every step
keeps the batches; each dispatch takes the callbacks and then the listeners that are subscribed, each once and in the
order of subscription, and starts them in this order, all of them unless a handler throws; and where no step
unsubscribes a handler that is due, every handler that is started is subscribed. -/
theorem delivers (es : List (Event ι κ)) :
    ((∀ t ∈ trace step {} es, InOrder t.after) ↔ ∀ t ∈ trace step {} es, KeepsBatch t.before t.event) ∧
    (∀ t ∈ trace step {} es, t.after.accepted.Nodup) ∧
    (∀ t ∈ trace step {} es, ∀ d type hs, .began d type hs ∈ t.answer → hs = t.before.handlers type ∧ hs.Nodup) ∧
    (∀ d type hs, .began d type hs ∈ notices es →
      startedBy d (notices es) <+: hs ∧ (.ended d ∈ notices es → startedBy d (notices es) = hs)) ∧
    ((∀ t ∈ trace step {} es, Undisturbed t.before t.event) →
      ∀ t ∈ trace step {} es, ∀ d type h, .started d type h ∈ t.answer → h ∈ t.before.handlers type) := by
  refine ⟨?_, fun t ht => ?_, fun t ht d type hs hb => ?_, fun d type hs hb => ?_, fun hcalm t ht d type h hst => ?_⟩
  · exact Lib.Run.forall_trace_iff (I := fun s => InOrder s ∧ Numbered s) (fun s e h => step_inOrder h.1 h.2 e)
      (fun s e h hc => ⟨(step_inOrder h.1 h.2 e).mpr hc, h.2.step e⟩)
      ⟨(rfl : InOrder {}), (rfl : Numbered {})⟩ es
  · obtain ⟨pre, e, post, -, rfl⟩ := Lib.Run.mem_trace ht
    exact ((numbered_run pre).step e).nodup
  · obtain ⟨pre, e, post, -, rfl⟩ := Lib.Run.mem_trace ht
    obtain rfl := began_step hb
    exact ⟨rfl, (registry_run pre).handlers_nodup type⟩
  · have h := dispatches_run es
    exact ⟨h.inOrder d type hs hb, fun he => h.ended d he type hs hb⟩
  · obtain ⟨pre, e, post, rfl, rfl⟩ := Lib.Run.mem_trace ht
    have hcurrent : Current (exec step {} pre) := by
      refine Lib.Run.history_induct (H := fun _ s => Current s) (C := fun t => Undisturbed t.before t.event)
        (fun _ s e h hc => h.step hc) (fun _ _ hd => ?_) fun t ht => hcalm t ?_
      · obtain ⟨_, _, hmem, -⟩ := hd
        cases hmem
      · rw [Lib.Run.trace_append]
        exact List.mem_append_left _ ht
    exact hcurrent type h (started_step hst)

end Runs

/-- The handler of the first of two queued events throws. -/
def throwingRun : List (Event Nat Nat) :=
  [.subscribe 0 (some 1), .notifyAsync (some 0), .notifyAsync (some 0), .process, .advance, .advance, .advance,
    .handlerThrows]

/-- The first of two owners unsubscribes the second while both are to be called. -/
def unsubscribingRun : List (Event Nat Nat) :=
  [.subscribe 0 (some 1), .subscribe 0 (some 2), .notify (some 0), .advance, .unsubscribeAll (some 2), .handlerReturns,
    .advance]

theorem delivery_fails :
    (¬ ∀ es : List (Event Nat Nat), ∀ t ∈ trace step {} es, InOrder t.after) ∧
      ¬ ∀ es : List (Event Nat Nat), ∀ t ∈ trace step {} es, ∀ d type h, .started d type h ∈ t.answer →
        h ∈ t.before.handlers type := by
  refine ⟨fun h => ?_, fun h => ?_⟩
  · have hmem : stepOf step (exec step {} (throwingRun.take 7)) .handlerThrows ∈ trace step {} throwingRun :=
      List.mem_of_getElem? (i := 7) rfl
    have hlost := h throwingRun _ hmem
    unfold InOrder at hlost
    revert hlost
    decide
  · have hmem : stepOf step (exec step {} (unsubscribingRun.take 6)) .advance ∈ trace step {} unsubscribingRun :=
      List.mem_of_getElem? (i := 6) rfl
    have hstale := h unsubscribingRun _ hmem 0 0 (.callback ⟨1, some 2⟩) (by decide)
    revert hstale
    decide

end EventBus

namespace EventAwaiter

open Lib.Run (exec trace)

/-- In every run of a single-shot awaiter whose steps are undisturbed the callback is called once at most and not
after a `cancel` has returned, and then the awaiter is unsubscribed and has no reference to itself. -/
theorem fires_once (hasPredicate hasOnMatch : Bool) (es : List Event)
    (hcalm : ∀ t ∈ trace step (create true hasPredicate hasOnMatch) es, Undisturbed t.before t.event) :
    let s := exec step (create true hasPredicate hasOnMatch) es
    s.invocations ≤ 1 ∧
    (∀ t ∈ trace step (create true hasPredicate hasOnMatch) es, ∀ i, .invoked i ∈ t.answer →
      .cancelReturned ∉ t.before.calls) ∧
    (0 < s.invocations ∨ .cancelReturned ∈ s.calls → s.subscribed = false ∧ s.retainSelf = false) := by
  have hsound : ∀ es, (∀ t ∈ trace step (create true hasPredicate hasOnMatch) es, Undisturbed t.before t.event) →
      Sound (exec step (create true hasPredicate hasOnMatch) es) := fun es hc =>
    Lib.Run.history_induct (H := fun _ s => Sound s) (C := fun t => Undisturbed t.before t.event)
      (fun _ _ e h hd => h.step e hd) (.create hasPredicate hasOnMatch) hc
  have h := hsound es hcalm
  refine ⟨h.once, fun t ht i hi => ?_, fun hdone => ?_⟩
  · obtain ⟨pre, e, post, rfl, rfl⟩ := Lib.Run.mem_trace ht
    have hpre := hsound pre fun t ht => hcalm t (by
      rw [Lib.Run.trace_append]
      exact List.mem_append_left _ ht)
    exact (hpre.quiet (.inr ⟨_, List.mem_of_getElem? (invoked_step hi), rfl⟩)).2
  · have hloud : ¬ (_ ∨ _) := fun hq => by
      obtain ⟨hinv, hret⟩ := h.quiet hq
      rcases hdone with hdone | hdone
      · omega
      · exact hret hdone
    have hcancelled : (exec step (create true hasPredicate hasOnMatch) es).cancelled = true := by
      by_contra hopen
      exact hloud (.inl (by simpa using hopen))
    by_contra hs
    obtain ⟨c, hc, hcc⟩ := h.kept hcancelled (by
      simp only [not_and_or, Bool.not_eq_false] at hs
      exact hs)
    exact hloud (.inr ⟨c, hc, by simp [Call.busy, hcc]⟩)

/-- One event is delivered, and a later `cancel` finds nothing to do. -/
def firedRun : List Event :=
  [.notify, .advance 0, .advance 0, .predicateEnds 0 true, .advance 0, .advance 0, .advance 0, .advance 0,
    .callbackEnds 0, .cancel, .advance 1]

theorem fires_once_firedRun :
    (∀ t ∈ trace step (create true true true) firedRun, Undisturbed t.before t.event) ∧
      (exec step (create true true true) firedRun).invocations ≤ 1 :=
  ⟨by decide, (fires_once true true firedRun (by decide)).1⟩

/-- The predicate notifies an event of the same type, which matches too. -/
def nestedRun : List Event :=
  [.notify, .advance 0, .advance 0, .notify, .advance 1, .advance 1, .predicateEnds 1 true, .advance 1, .advance 1,
    .advance 1, .advance 1, .callbackEnds 1, .predicateEnds 0 true, .advance 0, .advance 0]

/-- The predicate calls `cancel` and then matches. -/
def cancellingRun : List Event :=
  [.notify, .advance 0, .advance 0, .cancel, .advance 1, .advance 1, .advance 1, .predicateEnds 0 true, .advance 0,
    .advance 0]

theorem fires_again :
    (¬ ∀ es, (exec step (create true true true) es).invocations ≤ 1) ∧
      ¬ ∀ es, ∀ t ∈ trace step (create true true true) es, ∀ i, .invoked i ∈ t.answer →
        .cancelReturned ∉ t.before.calls := by
  refine ⟨fun h => ?_, fun h => ?_⟩
  · have htwice := h nestedRun
    revert htwice
    decide
  · have hmem : Lib.Run.stepOf step (exec step (create true true true) (cancellingRun.take 9)) (.advance 0) ∈
        trace step (create true true true) cancellingRun := List.mem_of_getElem? (i := 9) rfl
    have hlate := h cancellingRun _ hmem 0 (by decide)
    revert hlate
    decide

end EventAwaiter

end OptionX.Utils
