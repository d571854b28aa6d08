import OptionX.Storage.Lemmas.CommandQueue

/-!
# What `shutdown` leaves, and in which order commands go

`shutdown` waits for the worker that is there when it joins, empties the queue, and delivers what it finds: whatever
is put into the callback queue later comes from a call that has yet to look into it. Where one party alone pops
commands, the places of the commands are one queue.
-/

namespace OptionX.Storage

open Lib (Frame)
open Lib.Calls (stageOf goOn)

variable {T : Type}

/-! ## After `shutdown` -/

/-- A call that will look into the callback queue before it returns. -/
def Stage.delivers : Stage → Bool
  | .processing | .flushing | .awaiting | .joining | .unmarking | .draining _ | .working _ _ | .delivering _
  | .invoking _ _ => true
  | _ => false

/-- A call of `shutdown` has come to a phase, or has returned. -/
def Reached (n : Nat) (ns : List (Notice T)) (s : RecordDB T) : Prop :=
  (∃ f ∈ s.calls, n ≤ f.stage.phase) ∨ .shutDown ∈ ns

theorem Reached.mono {m n : Nat} {ns : List (Notice T)} {s : RecordDB T} (h : Reached n ns s) (hmn : m ≤ n) :
    Reached m ns s :=
  h.imp_left fun ⟨f, hf, hn⟩ => ⟨f, hf, hmn.trans hn⟩

structure Drained (ns : List (Notice T)) (s : RecordDB T) : Prop where
  joined : Reached 2 ns s → s.queue.accepting = false ∧ (s.queue.worker = .absent ∨ s.queue.worker = .gone) ∧
    ∀ f ∈ s.calls, f.stage ≠ .starting
  emptied : Reached 3 ns s → s.queue.workQueue = []
  answered : Reached 4 ns s → s.queue.callbackQueue = [] ∨ ∃ f ∈ s.calls, f.stage.delivers = true

/-- When `shutdown` joins, no call of `run` is about to start the worker. -/
def Unhurried [DecidableEq T] (s : RecordDB T) : RecordDB.Event T → Prop
  | .advance t => stageOf t s.calls = some .joining → ∀ f ∈ s.calls, f.stage ≠ .starting
  | _ => True

instance [DecidableEq T] (s : RecordDB T) (e : RecordDB.Event T) : Decidable (Unhurried s e) :=
  match e with
  | .advance t => inferInstanceAs (Decidable (stageOf t s.calls = some .joining → ∀ f ∈ s.calls, f.stage ≠ .starting))
  | .call _ _ | .startFails _ | .worker => inferInstanceAs (Decidable True)

section

variable [DecidableEq T] {s : RecordDB T} {q q' : CommandQueue} {t : T} {stage : Stage} {stage' : Option Stage}
  {ns notices : List (Notice T)}

omit [DecidableEq T] in
@[simp] theorem execute_shutDown (q : CommandQueue) (work : Work) :
    .shutDown ∉ (q.execute (T := T) work).2.2 := by
  cases work <;> simp [CommandQueue.execute]

omit [DecidableEq T] in
theorem advance_shutDown (h : q.advance t stage = some (q', stage', notices)) (hn : .shutDown ∈ notices) :
    stage = .unloading := by
  revert h hn
  cases stage with
  | working call work => cases work <;> intro h <;> cases h <;> simp [CommandQueue.execute]
  | _ =>
      simp only [CommandQueue.advance]
      (repeat' split) <;> intro h <;> cases h <;> simp

omit [DecidableEq T] in
theorem advance_workQueue (h : q.advance t stage = some (q', stage', notices)) (hacc : q.accepting = false)
    (hempty : q.workQueue = []) : q'.workQueue = [] := by
  revert h
  fun_cases CommandQueue.advance q t stage <;> intro h <;> cases h <;> simp_all +zetaDelta

omit [DecidableEq T] in
theorem advance_callbackQueue (h : q.advance t stage = some (q', stage', notices)) (hd : stage.delivers = false) :
    q'.callbackQueue = q.callbackQueue := by
  revert h
  fun_cases CommandQueue.advance q t stage <;> intro h <;> cases h <;> simp_all [Stage.delivers]

omit [DecidableEq T] in
/-- A call looks into the callback queue until it is empty. -/
theorem advance_delivers (h : q.advance t stage = some (q', stage', notices)) (hd : stage.delivers = true) :
    (∃ x, stage' = some x ∧ x.delivers = true) ∨ q'.callbackQueue = [] := by
  revert h
  cases stage with
  | working call work => cases work <;> intro h <;> cases h <;> exact .inl ⟨_, rfl, rfl⟩
  | draining call | delivering call =>
      simp only [CommandQueue.advance]
      split <;> intro h <;> cases h
      · simp_all [Stage.delivers]
      · exact .inl ⟨_, rfl, rfl⟩
  | processing | flushing =>
      simp only [CommandQueue.advance]
      intro h
      cases h
      left
      refine ⟨_, rfl, ?_⟩
      split <;> rfl
  | _ =>
      simp only [CommandQueue.advance]
      (repeat' split) <;> intro h <;> cases h <;> simp_all [Stage.delivers]

/-- How the phase of a `shutdown` is reached by a step of a call. -/
theorem Reached.of_advance {n : Nat} (hc : Control s) (ht : stageOf t s.calls = some stage)
    (ha : s.queue.advance t stage = some (q', stage', notices)) (hn : 2 ≤ n) (hn4 : n ≤ 4)
    (h : Reached n (ns ++ notices) ⟨q', goOn t stage' s.calls⟩) :
    Reached n ns s ∨
      n = 2 ∧ stage = .joining ∧ q' = s.queue ∧ (s.queue.worker = .absent ∨ s.queue.worker = .gone) ∨
      n = 3 ∧ q' = s.queue ∧ s.queue.workQueue = [] ∨
      n = 4 ∧ q' = s.queue ∧ s.queue.callbackQueue = [] := by
  have hmem := Lib.Calls.stageOf_mem ht
  have hbefore : n ≤ stage.phase → Reached n ns s := fun hp => .inl ⟨_, hmem, hp⟩
  rcases h with ⟨f, hf, hp⟩ | h
  · rcases hc.distinct.mem_goOn ht hf with ⟨hf, -⟩ | ⟨x, rfl, rfl⟩
    · exact .inl (.inl ⟨f, hf, hp⟩)
    · rcases advance_phase ha with heq | ⟨rfl, rfl, -⟩ | ⟨rfl, rfl, hq, hw⟩ | ⟨rfl, rfl, hq, hw⟩ | ⟨rfl, rfl, hq, hw⟩
      · exact .inl (hbefore (heq ▸ hp))
      · simp only [Stage.phase] at hp
        omega
      · simp only [Stage.phase] at hp
        exact .inr (.inl ⟨by omega, rfl, hq, hw⟩)
      · simp only [Stage.phase] at hp hbefore
        rcases hp.lt_or_eq with hlt | heq
        · exact .inl (hbefore (by omega))
        · exact .inr (.inr (.inl ⟨heq, hq, hw⟩))
      · simp only [Stage.phase] at hp hbefore
        rcases hp.lt_or_eq with hlt | heq
        · exact .inl (hbefore (by omega))
        · exact .inr (.inr (.inr ⟨heq, hq, hw⟩))
  · rcases List.mem_append.mp h with h | h
    · exact .inl (.inr h)
    · obtain rfl := advance_shutDown ha h
      exact .inl (hbefore hn4)

theorem Drained.step (h : Drained ns s) (hc : Control s) {e : RecordDB.Event T} (he : Unhurried s e) :
    Drained (ns ++ (s.step e).2) (s.step e).1 := by
  have hs := stepped s e
  generalize s.step e = r at hs ⊢
  cases hs with
  | waits => rwa [List.append_nil]
  | begins t entry ht =>
      rw [List.append_nil]
      have hphase : entry.stage.phase = 0 ∧ entry.stage ≠ .starting := by cases entry <;> simp [Entry.stage, Stage.phase]
      have hold : ∀ n, 1 ≤ n → Reached n ns { s with calls := s.calls ++ [⟨t, entry.stage⟩] } → Reached n ns s := by
        rintro n hn (⟨f, hf, hp⟩ | hr)
        · rcases List.mem_append.mp hf with hf | hf
          · exact .inl ⟨f, hf, hp⟩
          · rw [List.mem_singleton.mp hf, hphase.1] at hp
            omega
        · exact .inr hr
      refine ⟨fun hr => ?_, fun hr => h.emptied (hold 3 (by decide) hr), fun hr => ?_⟩
      · obtain ⟨hacc, hworker, hstarting⟩ := h.joined (hold 2 (by decide) hr)
        refine ⟨hacc, hworker, fun f hf => ?_⟩
        rcases List.mem_append.mp hf with hf | hf
        · exact hstarting f hf
        · rw [List.mem_singleton.mp hf]
          exact hphase.2
      · rcases h.answered (hold 4 (by decide) hr) with hempty | ⟨f, hf, hd⟩
        · exact .inl hempty
        · exact .inr ⟨f, List.mem_append_left _ hf, hd⟩
  | advances t stage q' stage' notices ht ha =>
      have hmem := Lib.Calls.stageOf_mem ht
      refine ⟨fun hr => ?_, fun hr => ?_, fun hr => ?_⟩
      · rcases hr.of_advance hc ht ha (by decide) (by decide) with hr | ⟨-, rfl, rfl, hworker⟩ | ⟨hn, -⟩ | ⟨hn, -⟩
        · obtain ⟨hacc, hworker, hstarting⟩ := h.joined hr
          refine ⟨?_, ?_, fun f hf hfs => ?_⟩
          · rcases advance_accepting ha with heq | ⟨-, heq⟩
            · exact heq.trans hacc
            · exact heq
          · rcases advance_worker ha with heq | ⟨rfl, -⟩
            · rw [heq]
              exact hworker
            · exact absurd rfl (hstarting _ hmem)
          · rcases hc.distinct.mem_goOn ht hf with ⟨hf, -⟩ | ⟨x, rfl, rfl⟩
            · exact hstarting f hf hfs
            · subst hfs
              rw [(advance_starting ha).1] at hacc
              cases hacc
        · refine ⟨hc.closed _ hmem (Nat.le_refl 1), hworker, fun f hf => ?_⟩
          rcases hc.distinct.mem_goOn ht hf with ⟨hf, -⟩ | ⟨x, rfl, rfl⟩
          · exact he ht f hf
          · rintro rfl
            cases (advance_starting ha).1.symm.trans (hc.closed _ hmem (Nat.le_refl 1))
        · cases hn
        · cases hn
      · rcases hr.of_advance hc ht ha (by decide) (by decide) with hr | ⟨hn, -⟩ | ⟨-, rfl, hw⟩ | ⟨hn, -⟩
        · exact advance_workQueue ha (h.joined (hr.mono (by decide))).1 (h.emptied hr)
        · cases hn
        · exact hw
        · cases hn
      · rcases hr.of_advance hc ht ha (by decide) (by decide) with hr | ⟨hn, -⟩ | ⟨hn, -⟩ | ⟨-, rfl, hw⟩
        · by_cases hd : stage.delivers = true
          · rcases advance_delivers ha hd with ⟨x, rfl, hx⟩ | hempty
            · exact .inr ⟨⟨t, x⟩, Lib.Calls.mem_goOn_self ht, hx⟩
            · exact .inl hempty
          · rcases h.answered hr with hempty | ⟨f, hf, hfd⟩
            · exact .inl ((advance_callbackQueue ha (Bool.eq_false_iff.mpr hd)).trans hempty)
            · refine .inr ⟨f, Lib.Calls.mem_goOn_of_ne ht hf ?_, hfd⟩
              rintro rfl
              exact hd hfd
        · cases hn
        · cases hn
        · exact .inl hw
  | fails t ht =>
      rw [List.append_nil]
      have hold : ∀ n, Reached n ns ⟨{ s.queue with workerRunning := false }, goOn t none s.calls⟩ → Reached n ns s := by
        rintro n (⟨f, hf, hp⟩ | hr)
        · rcases hc.distinct.mem_goOn ht hf with ⟨hf, -⟩ | ⟨x, hx, -⟩
          · exact .inl ⟨f, hf, hp⟩
          · cases hx
        · exact .inr hr
      have hnot : ¬ Reached 2 ns s := fun hr => (h.joined hr).2.2 _ (Lib.Calls.stageOf_mem ht) rfl
      exact ⟨fun hr => absurd (hold 2 hr) hnot, fun hr => absurd ((hold 3 hr).mono (by decide)) hnot,
        fun hr => absurd ((hold 4 hr).mono (by decide)) hnot⟩
  | works q' notices ha =>
      obtain ⟨-, -, hpresent, hgone, -⟩ := hc.worker ha
      have hshut : .shutDown ∉ notices := by
        revert ha
        fun_cases CommandQueue.advanceWorker s.queue <;> intro ha <;> cases ha <;> simp +zetaDelta
      have hold : ∀ n, Reached n (ns ++ notices) { s with queue := q' } → Reached n ns s := by
        rintro n (hr | hr)
        · exact .inl hr
        · exact .inr ((List.mem_append.mp hr).resolve_right hshut)
      have hnot : ¬ Reached 2 ns s := fun hr => (h.joined hr).2.1.elim hpresent hgone
      exact ⟨fun hr => absurd (hold 2 hr) hnot, fun hr => absurd ((hold 3 hr).mono (by decide)) hnot,
        fun hr => absurd ((hold 4 hr).mono (by decide)) hnot⟩

end

/-! ## Order -/

/-- What a thread holds it has popped, or taken, itself. -/
structure Held (ns : List (Notice T)) (s : RecordDB T) : Prop where
  worker : s.queue.worker.work ≠ [] → ∃ c, .popped .worker c ∈ ns
  caller : ∀ f ∈ s.calls, f.stage.work ≠ [] → ∃ c, .popped (.caller f.thread) c ∈ ns
  taker : ∀ f ∈ s.calls, f.stage.taken ≠ [] → ∃ c, .taken f.thread c ∈ ns

def PoppedBy (p : Party T) (ns : List (Notice T)) : Prop := ∀ q c, .popped q c ∈ ns → q = p

def TakenBy (t : T) (ns : List (Notice T)) : Prop := ∀ u c, .taken u c ∈ ns → u = t

/-- The places of the commands in a row, and those of the callbacks. -/
structure InOrder (ns : List (Notice T)) (s : RecordDB T) : Prop where
  commands : (∃ p, PoppedBy p ns) → ns.filterMap Notice.executed? ++ s.works.flatMap Work.unexecuted ++
    s.queue.workQueue = ns.filterMap Notice.accepted?
  callbacks : (∃ p, PoppedBy p ns) → (∃ t, TakenBy t ns) → ns.filterMap Notice.delivered? ++ s.taken ++
    s.queue.callbackQueue ++ s.works.flatMap Work.unanswered = ns.filterMap Notice.executed?

section

variable [DecidableEq T] {s : RecordDB T} {q q' : CommandQueue} {t : T} {stage : Stage} {stage' : Option Stage}
  {ns notices : List (Notice T)}

omit [DecidableEq T] in
theorem advance_holds {stage' : Stage} (h : q.advance t stage = some (q', some stage', notices)) :
    (stage'.work ≠ [] → stage.work ≠ [] ∨ ∃ c, .popped (.caller t) c ∈ notices) ∧
      (stage'.taken ≠ [] → stage.taken ≠ [] ∨ ∃ c, .taken t c ∈ notices) := by
  revert h
  cases stage with
  | working call work =>
      cases work <;> intro h <;> cases h <;> simp [Stage.work, Stage.taken, CommandQueue.execute]
  | draining call =>
      simp only [CommandQueue.advance]
      split <;> intro h <;> cases h <;> simp_all [Stage.work, Stage.taken]
  | delivering call =>
      cases call <;> simp only [CommandQueue.advance] <;> split <;> intro h <;> cases h <;>
        simp_all [Stage.work, Stage.taken]
  | processing | flushing =>
      simp only [CommandQueue.advance]
      intro h
      cases h
      split <;> simp [Stage.work, Stage.taken]
  | _ =>
      simp only [CommandQueue.advance]
      (repeat' split) <;> intro h <;> cases h <;> simp_all [Stage.work, Stage.taken]

omit [DecidableEq T] in
theorem advanceWorker_holds (h : q.advanceWorker = some (q', notices)) (hw : q'.worker.work ≠ []) :
    q.worker.work ≠ [] ∨ ∃ c, .popped (T := T) .worker c ∈ notices := by
  revert h hw
  fun_cases CommandQueue.advanceWorker q <;> intro h hw <;> cases h <;> simp_all [Worker.work]

theorem Held.step (h : Held ns s) (e : RecordDB.Event T) :
    Held (ns ++ (s.step e).2) (s.step e).1 := by
  have hs := stepped s e
  generalize s.step e = r at hs ⊢
  have hbefore : ∀ {x : Notice T} {notices : List (Notice T)}, x ∈ ns → x ∈ ns ++ notices :=
    fun hx => List.mem_append_left _ hx
  cases hs with
  | waits => rwa [List.append_nil]
  | begins t entry ht =>
      rw [List.append_nil]
      have hnew : entry.stage.work = [] ∧ entry.stage.taken = [] := by cases entry <;> exact ⟨rfl, rfl⟩
      refine ⟨h.worker, fun f hf hw => ?_, fun f hf hw => ?_⟩ <;> rcases List.mem_append.mp hf with hf | hf
      · exact h.caller f hf hw
      · rw [List.mem_singleton.mp hf] at hw
        exact absurd hnew.1 hw
      · exact h.taker f hf hw
      · rw [List.mem_singleton.mp hf] at hw
        exact absurd hnew.2 hw
  | advances t stage q' stage' notices ht ha =>
      have hmem := Lib.Calls.stageOf_mem ht
      refine ⟨fun hw => ?_, fun f hf hw => ?_, fun f hf hw => ?_⟩
      · rcases advance_worker ha with heq | ⟨-, heq⟩
        · obtain ⟨c, hcm⟩ := h.worker (heq ▸ hw)
          exact ⟨c, hbefore hcm⟩
        · rw [show q'.worker = .waiting from heq] at hw
          exact absurd rfl hw
      · rcases Lib.Calls.mem_goOn ht hf with hf | ⟨x, rfl, rfl⟩
        · exact (h.caller f hf hw).imp fun _ => hbefore
        · rcases (advance_holds ha).1 hw with hw | ⟨c, hcm⟩
          · exact (h.caller _ hmem hw).imp fun _ => hbefore
          · exact ⟨c, List.mem_append_right _ hcm⟩
      · rcases Lib.Calls.mem_goOn ht hf with hf | ⟨x, rfl, rfl⟩
        · exact (h.taker f hf hw).imp fun _ => hbefore
        · rcases (advance_holds ha).2 hw with hw | ⟨c, hcm⟩
          · exact (h.taker _ hmem hw).imp fun _ => hbefore
          · exact ⟨c, List.mem_append_right _ hcm⟩
  | fails t ht =>
      rw [List.append_nil]
      have hold : ∀ f ∈ goOn t none s.calls, f ∈ s.calls := by
        intro f hf
        rcases Lib.Calls.mem_goOn ht hf with hf | ⟨x, hx, -⟩
        · exact hf
        · cases hx
      exact ⟨h.worker, fun f hf => h.caller f (hold f hf), fun f hf => h.taker f (hold f hf)⟩
  | works q' notices ha =>
      refine ⟨fun hw => ?_, fun f hf hw => (h.caller f hf hw).imp fun _ => hbefore,
        fun f hf hw => (h.taker f hf hw).imp fun _ => hbefore⟩
      rcases advanceWorker_holds ha hw with hw | ⟨c, hcm⟩
      · exact (h.worker hw).imp fun _ => hbefore
      · exact ⟨c, List.mem_append_right _ hcm⟩

omit [DecidableEq T] in
/-- A section keeps the order when nobody but its thread holds what it moves. -/
theorem InOrder.move (h : InOrder ns s) {s' : RecordDB T} (pre post : List Work) (kpre kpost : List Ticket)
    {work work' : List Work} {taken taken' : List Ticket} (hw : s.works = pre ++ work ++ post)
    (hw' : s'.works = pre ++ work' ++ post) (hk : s.taken = kpre ++ taken ++ kpost)
    (hk' : s'.taken = kpre ++ taken' ++ kpost) (hm : Moves s.queue work taken s'.queue work' taken' notices)
    (halone : (∃ p, PoppedBy p (ns ++ notices)) → work ≠ [] ∨ work' ≠ [] → pre = [] ∧ post = [])
    (htaken : (∃ t, TakenBy t (ns ++ notices)) → taken ≠ [] ∨ taken' ≠ [] → kpre = [] ∧ kpost = []) :
    InOrder (ns ++ notices) s' := by
  have hpopped : (∃ p, PoppedBy p (ns ++ notices)) → ∃ p, PoppedBy p ns :=
    fun ⟨p, hp⟩ => ⟨p, fun q c hq => hp q c (List.mem_append_left _ hq)⟩
  have htakens : (∃ t, TakenBy t (ns ++ notices)) → ∃ t, TakenBy t ns :=
    fun ⟨t, hp⟩ => ⟨t, fun q c hq => hp q c (List.mem_append_left _ hq)⟩
  have hidle : ∀ {α : Type} {l l' : List α}, ¬ (l ≠ [] ∨ l' ≠ []) → l = [] ∧ l' = [] := by
    intro α l l' hn
    simpa using hn
  refine ⟨fun hp => ?_, fun hp ht => ?_⟩
  · have hc := h.commands (hpopped hp)
    have hmc := hm.commands
    by_cases hwork : work ≠ [] ∨ work' ≠ []
    · obtain ⟨rfl, rfl⟩ := halone hp hwork
      simp only [hw, hw', List.filterMap_append, List.nil_append, List.append_nil] at hc hmc ⊢
      rw [← hc, List.append_assoc, List.append_assoc, ← List.append_assoc (notices.filterMap _), hmc]
      simp only [List.append_assoc]
    · obtain ⟨rfl, rfl⟩ := hidle hwork
      simp only [hw, hw', List.filterMap_append, hm.executes rfl, List.flatMap_nil, List.nil_append,
        List.append_nil] at hc hmc ⊢
      rw [← hc, hmc, List.append_assoc, List.append_assoc, List.append_assoc]
  · have hc := h.callbacks (hpopped hp) (htakens ht)
    have hmc := hm.callbacks
    by_cases hcallback : taken ≠ [] ∨ taken' ≠ []
    · obtain ⟨rfl, rfl⟩ := htaken ht hcallback
      by_cases hwork : work ≠ [] ∨ work' ≠ []
      · obtain ⟨rfl, rfl⟩ := halone hp hwork
        simpa [hw, hw', hk, hk', ← hc] using hmc
      · obtain ⟨rfl, rfl⟩ := hidle hwork
        have hmc' := congrArg (· ++ (pre ++ post).flatMap Work.unanswered) hmc
        simpa [hw, hw', hk, hk', ← hc, hm.executes rfl] using hmc'
    · obtain ⟨rfl, rfl⟩ := hidle hcallback
      by_cases hwork : work ≠ [] ∨ work' ≠ []
      · obtain ⟨rfl, rfl⟩ := halone hp hwork
        simpa [hw, hw', hk, hk', ← hc, hm.delivers rfl] using hmc
      · obtain ⟨rfl, rfl⟩ := hidle hwork
        have hmc' := congrArg (· ++ (pre ++ post).flatMap Work.unanswered) hmc
        simpa [hw, hw', hk, hk', ← hc, hm.executes rfl, hm.delivers rfl] using hmc'

theorem InOrder.step (h : InOrder ns s) (hc : Control s) (hh : Held ns s) (e : RecordDB.Event T) :
    InOrder (ns ++ (s.step e).2) (s.step e).1 := by
  have hs := stepped s e
  have hheld := hh.step e
  generalize s.step e = r at hs hheld ⊢
  cases hs with
  | waits => rwa [List.append_nil]
  | begins t entry ht =>
      rw [List.append_nil]
      obtain ⟨hworks, htaken⟩ := works_begin s t entry
      exact ⟨hworks.symm ▸ h.commands, hworks.symm ▸ htaken.symm ▸ h.callbacks⟩
  | advances t stage q' stage' notices ht ha =>
      have hmem := Lib.Calls.stageOf_mem ht
      have hself : ∀ x, stage' = some x → ⟨t, x⟩ ∈ goOn t stage' s.calls := by
        rintro x rfl
        exact Lib.Calls.mem_goOn_self ht
      obtain ⟨pre, post, hothers, hw, hw', hk, hk'⟩ := works_advance hc ht ha
      refine h.move _ _ _ _ hw hw' hk hk' (advance_moves ha) (fun ⟨p, hp⟩ hwork => ?_) fun ⟨u, hu⟩ hcallback => ?_
      · -- the thread has popped, so nobody else holds a command
        have hown : p = .caller t := by
          rcases hwork with hwork | hwork
          · obtain ⟨c, hcm⟩ := hh.caller _ hmem hwork
            exact (hp _ c (List.mem_append_left _ hcm)).symm
          · cases stage' with
            | none => exact absurd rfl hwork
            | some x =>
                obtain ⟨c, hcm⟩ := hheld.caller _ (hself x rfl) (by simpa using hwork)
                exact (hp _ c hcm).symm
        have hidle : ∀ f ∈ pre ++ post, f.stage.work = [] := by
          intro f hf
          by_contra hfw
          obtain ⟨c, hcm⟩ := hh.caller f (hothers f hf).1 hfw
          have hft := hown ▸ hp _ c (List.mem_append_left _ hcm)
          exact (hothers f hf).2 (by simpa using hft)
        have hworker : s.queue.worker.work = [] := by
          by_contra hww
          obtain ⟨c, hcm⟩ := hh.worker hww
          have hft := hown ▸ hp _ c (List.mem_append_left _ hcm)
          cases hft
        rw [hworker, List.nil_append]
        exact ⟨List.flatMap_eq_nil_iff.mpr fun f hf => hidle f (List.mem_append_left _ hf),
          List.flatMap_eq_nil_iff.mpr fun f hf => hidle f (List.mem_append_right _ hf)⟩
      · have hown : u = t := by
          rcases hcallback with hcallback | hcallback
          · obtain ⟨c, hcm⟩ := hh.taker _ hmem hcallback
            exact (hu _ c (List.mem_append_left _ hcm)).symm
          · cases stage' with
            | none => exact absurd rfl hcallback
            | some x =>
                obtain ⟨c, hcm⟩ := hheld.taker _ (hself x rfl) (by simpa using hcallback)
                exact (hu _ c hcm).symm
        have hidle : ∀ f ∈ pre ++ post, f.stage.taken = [] := by
          intro f hf
          by_contra hfw
          obtain ⟨c, hcm⟩ := hh.taker f (hothers f hf).1 hfw
          exact (hothers f hf).2 (hown ▸ hu _ c (List.mem_append_left _ hcm))
        exact ⟨List.flatMap_eq_nil_iff.mpr fun f hf => hidle f (List.mem_append_left _ hf),
          List.flatMap_eq_nil_iff.mpr fun f hf => hidle f (List.mem_append_right _ hf)⟩
  | fails t ht =>
      rw [List.append_nil]
      obtain ⟨hworks, htaken⟩ := works_fails ht
      exact ⟨hworks.symm ▸ h.commands, hworks.symm ▸ htaken.symm ▸ h.callbacks⟩
  | works q' notices ha =>
      refine h.move [] (s.calls.flatMap (·.stage.work)) [] s.taken rfl rfl rfl rfl (advanceWorker_moves ha) (fun ⟨p, hp⟩ hwork => ⟨rfl, ?_⟩) fun _ hn => absurd (hn.elim id id) (by simp)
      have hown : p = .worker := by
        rcases hwork with hwork | hwork
        · obtain ⟨c, hcm⟩ := hh.worker hwork
          exact (hp _ c (List.mem_append_left _ hcm)).symm
        · obtain ⟨c, hcm⟩ := hheld.worker hwork
          exact (hp _ c hcm).symm
      refine List.flatMap_eq_nil_iff.mpr fun f hf => ?_
      by_contra hfw
      obtain ⟨c, hcm⟩ := hh.caller f hf hfw
      have hft := hown ▸ hp _ c (List.mem_append_left _ hcm)
      cases hft

end

end OptionX.Storage
