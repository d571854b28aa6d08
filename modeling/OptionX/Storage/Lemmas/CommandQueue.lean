import OptionX.Storage.CommandQueue

/-!
# Where a command is

A command that was accepted waits in the queue, is popped and not yet executed by some thread, or was executed; an
executed command's callback is with the thread that executed it, in the callback queue, with the thread that took
it, or was delivered. Every section moves commands along this line and keeps their order.
-/

namespace OptionX.Storage

open Lib (Frame)
open Lib.Calls (stageOf goOn)

variable {T : Type}

/-! ## Places -/

def Work.ticket : Work → Ticket
  | .popped c | .executed c | .answered c => c

def Work.unexecuted : Work → List Ticket
  | .popped c => [c]
  | _ => []

def Work.unanswered : Work → List Ticket
  | .executed c => [c]
  | _ => []

def Stage.work : Stage → List Work
  | .working _ work => [work]
  | _ => []

def Stage.taken : Stage → List Ticket
  | .invoking _ c => [c]
  | _ => []

def Worker.work : Worker → List Work
  | .working work => [work]
  | _ => []

namespace Notice

def accepted? : Notice T → Option Ticket
  | .accepted c => some c
  | _ => none

def popped? : Notice T → Option Ticket
  | .popped _ c => some c
  | _ => none

def executed? : Notice T → Option Ticket
  | .executed c => some c
  | _ => none

def finished? : Notice T → Option Ticket
  | .finished c => some c
  | _ => none

def delivered? : Notice T → Option Ticket
  | .delivered c => some c
  | _ => none

end Notice

/-- What a section does to the commands of the thread that takes it, `work` and `taken` before it and `work'` and
`taken'` after it. -/
structure Moves (q : CommandQueue) (work : List Work) (taken : List Ticket)
    (q' : CommandQueue) (work' : List Work) (taken' : List Ticket) (notices : List (Notice T)) : Prop where
  accepted : List.range q'.nextTicket = List.range q.nextTicket ++ notices.filterMap Notice.accepted?
  commands : notices.filterMap Notice.executed? ++ work'.flatMap Work.unexecuted ++ q'.workQueue =
    work.flatMap Work.unexecuted ++ q.workQueue ++ notices.filterMap Notice.accepted?
  callbacks : notices.filterMap Notice.delivered? ++ taken' ++ q'.callbackQueue ++ work'.flatMap Work.unanswered =
    taken ++ q.callbackQueue ++ work.flatMap Work.unanswered ++ notices.filterMap Notice.executed?
  popped : notices.filterMap Notice.finished? ++ work'.map Work.ticket =
    work.map Work.ticket ++ notices.filterMap Notice.popped?
  active : work.length ≤ q.activeWork → q'.activeWork + work.length = q.activeWork + work'.length
  executes : work = [] → notices.filterMap Notice.executed? = []
  delivers : taken = [] → notices.filterMap Notice.delivered? = []

attribute [simp] Work.ticket Work.unexecuted Work.unanswered Notice.accepted? Notice.popped? Notice.executed?
  Notice.finished? Notice.delivered?

theorem execute_moves (q : CommandQueue) (work : Work) :
    Moves q [work] [] (q.execute (T := T) work).1 (q.execute (T := T) work).2.1.toList []
      (q.execute (T := T) work).2.2 := by
  cases work <;> constructor <;> simp [CommandQueue.execute, List.filterMap_cons]
  omega

theorem advance_moves {q q' : CommandQueue} {t : T} {stage : Stage} {stage' : Option Stage}
    {notices : List (Notice T)} (h : q.advance t stage = some (q', stage', notices)) :
    Moves q stage.work stage.taken q' (stage'.toList.flatMap Stage.work) (stage'.toList.flatMap Stage.taken)
      notices := by
  cases stage with
  | working call work =>
      simp only [CommandQueue.advance, Option.some.injEq, Prod.mk.injEq] at h
      obtain ⟨rfl, rfl, rfl⟩ := h
      have hm := execute_moves (T := T) q work
      cases work <;> exact hm
  | enqueuing =>
      simp only [CommandQueue.advance] at h
      split at h <;> cases h <;> constructor <;> simp [List.filterMap_cons, List.range_succ, Stage.work, Stage.taken]
  | draining call =>
      simp only [CommandQueue.advance] at h
      split at h
      · cases h
        constructor <;> simp [Stage.work, Stage.taken]
      · next hq =>
        cases h
        constructor <;> simp [List.filterMap_cons, hq, Stage.work, Stage.taken]
  | delivering call =>
      simp only [CommandQueue.advance] at h
      split at h
      · cases h
        cases call <;> constructor <;> simp [Stage.work, Stage.taken]
      · next hq =>
        cases h
        constructor <;> simp [List.filterMap_cons, hq, Stage.work, Stage.taken]
  | invoking call c =>
      cases h
      constructor <;> simp [List.filterMap_cons, Stage.work, Stage.taken]
  | opening | processing | flushing =>
      simp only [CommandQueue.advance] at h
      split at h <;> cases h <;> constructor <;> simp [Stage.work, Stage.taken]
  | starting | unmarking | unloading =>
      cases h
      constructor <;> simp [List.filterMap_cons, Stage.work, Stage.taken]
  | claiming | awaiting | closing | joining =>
      simp only [CommandQueue.advance] at h
      split at h <;> cases h <;> constructor <;> simp [Stage.work, Stage.taken]

/-- The same for a section of the worker, which takes no callbacks. -/
theorem advanceWorker_moves {q q' : CommandQueue} {notices : List (Notice T)}
    (h : q.advanceWorker = some (q', notices)) :
    Moves q q.worker.work [] q' q'.worker.work [] notices := by
  unfold CommandQueue.advanceWorker at h
  split at h
  · cases h
  · next hw =>
    rw [hw]
    split at h
    · split at h <;> cases h
      constructor <;> simp [Worker.work]
    · next hq =>
      cases h
      constructor <;> simp [List.filterMap_cons, hq, Worker.work]
  · next work hw =>
    rw [hw]
    simp only [Option.some.injEq, Prod.mk.injEq] at h
    obtain ⟨rfl, rfl⟩ := h
    have hm := execute_moves (T := T) q work
    cases work <;> exact ⟨hm.accepted, hm.commands, hm.callbacks, hm.popped, hm.active, hm.executes, hm.delivers⟩
  · next hw =>
    rw [hw]
    cases h
    constructor <;> simp [Worker.work]
  · cases h

/-! ## The worker and the flags -/

/-- How far a call of `shutdown` has come. -/
def Stage.phase : Stage → Nat
  | .joining => 1
  | .unmarking | .draining .shutdown | .working .shutdown _ => 2
  | .delivering .shutdown | .invoking .shutdown _ => 3
  | .unloading => 4
  | _ => 0

section

variable {q q' : CommandQueue} {t : T} {stage : Stage} {stage' : Option Stage} {notices : List (Notice T)}

/-! Executing a command changes the callback queue and the number of active commands alone. -/

@[simp] theorem execute_accepting (q : CommandQueue) (work : Work) :
    (q.execute (T := T) work).1.accepting = q.accepting := by
  cases work <;> rfl

@[simp] theorem execute_worker (q : CommandQueue) (work : Work) :
    (q.execute (T := T) work).1.worker = q.worker := by
  cases work <;> rfl

@[simp] theorem execute_running (q : CommandQueue) (work : Work) :
    (q.execute (T := T) work).1.workerRunning = q.workerRunning := by
  cases work <;> rfl

@[simp] theorem execute_stop (q : CommandQueue) (work : Work) :
    (q.execute (T := T) work).1.workerStop = q.workerStop := by
  cases work <;> rfl

@[simp] theorem execute_workQueue (q : CommandQueue) (work : Work) :
    (q.execute (T := T) work).1.workQueue = q.workQueue := by
  cases work <;> rfl

theorem advance_accepting (h : q.advance t stage = some (q', stage', notices)) :
    q'.accepting = q.accepting ∨ stage = .closing ∧ q'.accepting = false := by
  revert h
  fun_cases CommandQueue.advance q t stage <;> intro h <;> cases h <;> simp +zetaDelta

theorem advance_worker (h : q.advance t stage = some (q', stage', notices)) :
    q'.worker = q.worker ∨ stage = .starting ∧ q'.worker = .waiting := by
  revert h
  fun_cases CommandQueue.advance q t stage <;> intro h <;> cases h <;> simp +zetaDelta

theorem advance_running (h : q.advance t stage = some (q', stage', notices)) :
    q'.workerRunning = q.workerRunning ∨
      stage = .claiming ∧ q.accepting = true ∧ q.workerRunning = false ∧ q'.workerRunning = true ∨
      stage = .unmarking := by
  revert h
  fun_cases CommandQueue.advance q t stage <;> intro h <;> cases h <;> simp_all +zetaDelta

theorem advance_stop (h : q.advance t stage = some (q', stage', notices)) :
    q'.workerStop = q.workerStop ∨ q'.workerStop = false ∨ q'.accepting = false := by
  revert h
  fun_cases CommandQueue.advance q t stage <;> intro h <;> cases h <;> simp +zetaDelta

theorem advance_starting (h : q.advance t stage = some (q', some .starting, notices)) :
    q.accepting = true ∧ q.workerRunning = false ∧ q'.workerRunning = true ∧ q'.worker = q.worker := by
  revert h
  cases stage with
  | claiming =>
      simp only [CommandQueue.advance]
      split <;> intro h <;> cases h
      simp_all
  | working call work => cases work <;> intro h <;> cases h
  | _ =>
      intro h
      simp only [CommandQueue.advance] at h
      (repeat' split at h) <;> cases h

end

/-- What the flags and the calls say of the worker. -/
structure Control (s : RecordDB T) : Prop where
  distinct : Lib.Calls.Distinct s.calls
  one : ∀ t t', ⟨t, .starting⟩ ∈ s.calls → ⟨t', .starting⟩ ∈ s.calls → t = t'
  claimed : ∀ t, ⟨t, .starting⟩ ∈ s.calls →
    s.queue.worker = .absent ∧ (s.queue.accepting = true → s.queue.workerRunning = true)
  running : s.queue.worker ≠ .absent → s.queue.accepting = true → s.queue.workerRunning = true
  stopped : s.queue.workerStop = true → s.queue.accepting = false
  left : s.queue.worker = .leaving ∨ s.queue.worker = .gone → s.queue.accepting = false
  closed : ∀ f ∈ s.calls, 1 ≤ f.stage.phase → s.queue.accepting = false

theorem Control.create (isOpen : Bool) : Control (RecordDB.create (T := T) isOpen) where
  distinct := List.nodup_nil
  one _ _ h := (by cases h)
  claimed _ h := (by cases h)
  running h := absurd rfl h
  stopped h := (by cases h)
  left h := (by cases h <;> contradiction)
  closed _ h := (by cases h)

section

variable [DecidableEq T] {s : RecordDB T} {q' : CommandQueue} {t : T} {stage : Stage} {stage' : Option Stage}
  {notices : List (Notice T)}

omit [DecidableEq T] in
/-- The ways in which a call of `shutdown` gets further. -/
theorem advance_phase {q : CommandQueue} {stage' : Stage} (h : q.advance t stage = some (q', some stage', notices)) :
    stage'.phase = stage.phase ∨
      stage = .closing ∧ stage' = .joining ∧ q'.accepting = false ∨
      stage = .joining ∧ stage' = .unmarking ∧ q' = q ∧ (q.worker = .absent ∨ q.worker = .gone) ∨
      stage = .draining .shutdown ∧ stage' = .delivering .shutdown ∧ q' = q ∧ q.workQueue = [] ∨
      stage = .delivering .shutdown ∧ stage' = .unloading ∧ q' = q ∧ q.callbackQueue = [] := by
  revert h
  cases stage with
  | working call work => cases work <;> intro h <;> cases h <;> cases call <;> exact .inl rfl
  | draining call =>
      simp only [CommandQueue.advance]
      split <;> intro h <;> cases h <;> cases call <;> simp_all [Stage.phase]
  | delivering call =>
      cases call <;> simp only [CommandQueue.advance] <;> split <;> intro h <;> cases h <;> simp_all [Stage.phase]
  | invoking call c =>
      intro h
      cases h
      cases call <;> exact .inl rfl
  | _ =>
      intro h
      simp only [CommandQueue.advance] at h
      (repeat' split at h) <;> cases h <;> simp_all [Stage.phase]

theorem Control.advance (h : Control s) (ht : stageOf t s.calls = some stage)
    (ha : s.queue.advance t stage = some (q', stage', notices)) :
    Control ⟨q', goOn t stage' s.calls⟩ := by
  have hmem := Lib.Calls.stageOf_mem ht
  have haccepting : q'.accepting = true → s.queue.accepting = true := by
    rcases advance_accepting ha with heq | ⟨-, heq⟩ <;> simp [heq]
  have hclosing : stage = .unmarking → q'.accepting = true → False := by
    rintro rfl hq
    have hc := h.closed _ hmem (Nat.le_succ 1)
    rw [haccepting hq] at hc
    cases hc
  -- a call that starts the worker is the only one to do so
  have hstarting : ∀ t', ⟨t', .starting⟩ ∈ goOn t stage' s.calls →
      ⟨t', .starting⟩ ∈ s.calls ∧ t' ≠ t ∨ t' = t ∧ stage' = some .starting := by
    intro t' h'
    rcases h.distinct.mem_goOn ht h' with h' | ⟨x, hx, heq⟩
    · exact .inl h'
    · cases heq
      exact .inr ⟨rfl, hx⟩
  have hrunning : q'.accepting = true → s.queue.workerRunning = true → q'.workerRunning = true := by
    intro hq hr
    rcases advance_running ha with heq | ⟨-, -, -, heq⟩ | heq
    · exact heq.trans hr
    · exact heq
    · exact absurd hq fun hq => hclosing heq hq
  refine ⟨h.distinct.goOn ht stage', ?_, ?_, ?_, ?_, ?_, ?_⟩
  · intro t1 t2 h1 h2
    have hnew : ∀ t', ⟨t', .starting⟩ ∈ s.calls → stage' ≠ some .starting := by
      rintro t' ht' rfl
      obtain ⟨hacc, hrun, -⟩ := advance_starting ha
      rw [(h.claimed t' ht').2 hacc] at hrun
      cases hrun
    rcases hstarting t1 h1 with ⟨hold1, -⟩ | ⟨ht1, hs1⟩ <;> rcases hstarting t2 h2 with ⟨hold2, -⟩ | ⟨ht2, hs2⟩
    · exact h.one t1 t2 hold1 hold2
    · exact absurd hs2 (hnew t1 hold1)
    · exact absurd hs1 (hnew t2 hold2)
    · exact ht1.trans ht2.symm
  · intro t' h'
    rcases hstarting t' h' with ⟨h', hne⟩ | ⟨rfl, hs⟩
    · obtain ⟨habsent, hrun⟩ := h.claimed t' h'
      refine ⟨?_, fun hq => hrunning hq (hrun (haccepting hq))⟩
      rcases advance_worker ha with heq | ⟨rfl, -⟩
      · exact heq.trans habsent
      · exact absurd (h.one t' t h' hmem) hne
    · subst hs
      obtain ⟨hacc, hrun, hrun', hworker⟩ := advance_starting ha
      refine ⟨?_, fun _ => hrun'⟩
      by_contra hpresent
      rw [h.running (hworker ▸ hpresent) hacc] at hrun
      cases hrun
  · intro hpresent hq
    rcases advance_worker ha with heq | ⟨rfl, -⟩
    · exact hrunning hq (h.running (heq ▸ hpresent) (haccepting hq))
    · exact hrunning hq ((h.claimed t hmem).2 (haccepting hq))
  · intro hstop
    by_contra hq
    rw [Bool.not_eq_false] at hq
    rcases advance_stop ha with heq | heq | heq
    · rw [h.stopped (heq ▸ hstop)] at haccepting
      exact absurd (haccepting hq) (by decide)
    · rw [heq] at hstop
      cases hstop
    · rw [heq] at hq
      cases hq
  · intro hleft
    by_contra hq
    rw [Bool.not_eq_false] at hq
    rcases advance_worker ha with heq | ⟨-, heq⟩
    · rw [h.left (heq ▸ hleft)] at haccepting
      exact absurd (haccepting hq) (by decide)
    · rw [heq] at hleft
      rcases hleft with hleft | hleft <;> cases hleft
  · intro f hf hp
    by_contra hq
    rw [Bool.not_eq_false] at hq
    have hacc := haccepting hq
    rcases h.distinct.mem_goOn ht hf with ⟨hf, -⟩ | ⟨x, rfl, rfl⟩
    · rw [h.closed f hf hp] at hacc
      cases hacc
    · rcases advance_phase ha with heq | ⟨-, -, heq⟩ | ⟨rfl, -⟩ | ⟨rfl, -⟩ | ⟨rfl, -⟩
      · rw [h.closed _ hmem (heq ▸ hp)] at hacc
        cases hacc
      · rw [heq] at hq
        cases hq
      all_goals
        rw [h.closed _ hmem (by simp [Stage.phase])] at hacc
        cases hacc

omit [DecidableEq T] in
theorem Control.worker (h : Control s) (ha : s.queue.advanceWorker = some (q', notices)) :
    Control { s with queue := q' } ∧ q'.accepting = s.queue.accepting ∧ s.queue.worker ≠ .absent ∧
      s.queue.worker ≠ .gone ∧ q'.worker ≠ .absent := by
  have hflags : q'.accepting = s.queue.accepting ∧ q'.workerStop = s.queue.workerStop ∧
      s.queue.worker ≠ .absent ∧ s.queue.worker ≠ .gone ∧ q'.worker ≠ .absent ∧
      (q'.workerRunning = s.queue.workerRunning ∨ s.queue.worker = .leaving) ∧
      (q'.worker = .leaving ∨ q'.worker = .gone → s.queue.workerStop = true ∨ s.queue.worker = .leaving) := by
    revert ha
    fun_cases CommandQueue.advanceWorker s.queue <;> intro ha <;> cases ha
    all_goals simp_all +zetaDelta
    · cases ‹Work› <;> simp [CommandQueue.execute]
  obtain ⟨hacc, hstop, hpresent, hgone, hpresent', hrun, hleft⟩ := hflags
  refine ⟨⟨h.distinct, h.one, fun t ht => absurd (h.claimed t ht).1 hpresent, fun _ hq => ?_, fun hs => ?_,
    fun hl => ?_, fun f hf hp => hacc.trans (h.closed f hf hp)⟩, hacc, hpresent, hgone, hpresent'⟩
  · rcases hrun with heq | heq
    · exact heq.trans (h.running hpresent (hacc ▸ hq))
    · rw [show q'.accepting = true from hq, h.left (.inl heq)] at hacc
      cases hacc
  · exact hacc.trans (h.stopped (hstop ▸ hs))
  · rcases hleft hl with hs | hs
    · exact hacc.trans (h.stopped hs)
    · exact hacc.trans (h.left (.inl hs))

theorem Control.fails (h : Control s) (ht : stageOf t s.calls = some .starting) :
    Control ⟨{ s.queue with workerRunning := false }, goOn t none s.calls⟩ := by
  have hmem := Lib.Calls.stageOf_mem ht
  have hold : ∀ f ∈ goOn t none s.calls, f ∈ s.calls ∧ f.thread ≠ t := by
    intro f hf
    rcases h.distinct.mem_goOn ht hf with hf | ⟨x, hx, -⟩
    · exact hf
    · cases hx
  refine ⟨h.distinct.goOn ht none, fun t1 t2 h1 h2 => h.one t1 t2 (hold _ h1).1 (hold _ h2).1, fun t' h' => ?_,
    fun hpresent => absurd (h.claimed t hmem).1 hpresent, h.stopped, h.left, fun f hf hp => h.closed f (hold f hf).1 hp⟩
  exact absurd (h.one t' t (hold _ h').1 hmem) (hold _ h').2

theorem Control.begin (h : Control s) (ht : stageOf t s.calls = none) (entry : Entry) :
    Control { s with calls := s.calls ++ [⟨t, entry.stage⟩] } := by
  have hold : ∀ f ∈ s.calls ++ [⟨t, entry.stage⟩], f ∈ s.calls ∨ f.stage ≠ .starting ∧ f.stage.phase = 0 := by
    intro f hf
    rcases List.mem_append.mp hf with hf | hf
    · exact .inl hf
    · rw [List.mem_singleton.mp hf]
      cases entry <;> exact .inr ⟨fun hs => (by cases hs), rfl⟩
  have hstarting : ∀ t', ⟨t', .starting⟩ ∈ s.calls ++ [⟨t, entry.stage⟩] → ⟨t', .starting⟩ ∈ s.calls :=
    fun t' h' => (hold _ h').resolve_right fun hn => hn.1 rfl
  refine ⟨h.distinct.begin ht, fun t1 t2 h1 h2 => h.one t1 t2 (hstarting t1 h1) (hstarting t2 h2),
    fun t' h' => h.claimed t' (hstarting t' h'), h.running, h.stopped, h.left, fun f hf hp => ?_⟩
  rcases hold f hf with hf | ⟨-, hf⟩
  · exact h.closed f hf hp
  · omega

/-! ## Steps -/

/-- What one step does. -/
inductive Stepped (s : RecordDB T) : RecordDB.Event T → RecordDB T × List (Notice T) → Prop
  | waits (e : RecordDB.Event T) : Stepped s e (s, [])
  | begins (t : T) (entry : Entry) : stageOf t s.calls = none →
      Stepped s (.call t entry) ({ s with calls := s.calls ++ [⟨t, entry.stage⟩] }, [])
  | advances (t : T) (stage : Stage) (q' : CommandQueue) (stage' : Option Stage) (notices : List (Notice T)) :
      stageOf t s.calls = some stage → s.queue.advance t stage = some (q', stage', notices) →
      Stepped s (.advance t) (⟨q', goOn t stage' s.calls⟩, notices)
  | fails (t : T) : stageOf t s.calls = some .starting →
      Stepped s (.startFails t) (⟨{ s.queue with workerRunning := false }, goOn t none s.calls⟩, [])
  | works (q' : CommandQueue) (notices : List (Notice T)) : s.queue.advanceWorker = some (q', notices) →
      Stepped s .worker ({ s with queue := q' }, notices)

theorem stepped (s : RecordDB T) (e : RecordDB.Event T) : Stepped s e (s.step e) := by
  cases e with
  | call t entry =>
      cases ht : stageOf t s.calls with
      | none => simpa [RecordDB.step, ht] using Stepped.begins t entry ht
      | some stage => simpa [RecordDB.step, ht] using Stepped.waits (s := s) (.call t entry)
  | advance t =>
      cases ht : stageOf t s.calls with
      | none => simpa [RecordDB.step, ht] using Stepped.waits (s := s) (.advance t)
      | some stage =>
          cases ha : s.queue.advance t stage with
          | none => simpa [RecordDB.step, ht, ha] using Stepped.waits (s := s) (.advance t)
          | some r => simpa [RecordDB.step, ht, ha] using Stepped.advances t stage r.1 r.2.1 r.2.2 ht ha
  | startFails t =>
      by_cases ht : stageOf t s.calls = some .starting
      · simpa [RecordDB.step, ht] using Stepped.fails t ht
      · have hs : s.step (.startFails t) = (s, []) := by simp only [RecordDB.step]
        rw [hs]
        exact .waits _
  | worker =>
      cases ha : s.queue.advanceWorker (T := T) with
      | none => simpa [RecordDB.step, ha] using Stepped.waits (s := s) .worker
      | some r => simpa [RecordDB.step, ha] using Stepped.works r.1 r.2 ha

theorem Control.step (h : Control s) (e : RecordDB.Event T) : Control (s.step e).1 := by
  have hs := stepped s e
  generalize s.step e = r at hs ⊢
  cases hs with
  | waits => exact h
  | begins t entry ht => exact h.begin ht entry
  | advances t stage q' stage' notices ht ha => exact h.advance ht ha
  | fails t ht => exact h.fails ht
  | works q' notices ha => exact (h.worker ha).1

/-! ## The account -/

/-- The commands popped and not yet finished. -/
def RecordDB.works (s : RecordDB T) : List Work := s.queue.worker.work ++ s.calls.flatMap (·.stage.work)

/-- The callbacks taken and not yet delivered. -/
def RecordDB.taken (s : RecordDB T) : List Ticket := s.calls.flatMap (·.stage.taken)

omit [DecidableEq T] in
theorem works_begin (s : RecordDB T) (t : T) (entry : Entry) :
    ({ s with calls := s.calls ++ [⟨t, entry.stage⟩] } : RecordDB T).works = s.works ∧
      ({ s with calls := s.calls ++ [⟨t, entry.stage⟩] } : RecordDB T).taken = s.taken := by
  cases entry <;> simp [RecordDB.works, RecordDB.taken, Entry.stage, Stage.work, Stage.taken]

theorem works_fails (ht : stageOf t s.calls = some .starting) :
    (⟨{ s.queue with workerRunning := false }, goOn t none s.calls⟩ : RecordDB T).works = s.works ∧
      (⟨{ s.queue with workerRunning := false }, goOn t none s.calls⟩ : RecordDB T).taken = s.taken := by
  obtain ⟨pre, post, hcalls, hgo⟩ := Lib.Calls.split ht
  rw [RecordDB.works, RecordDB.works, RecordDB.taken, RecordDB.taken, hgo none, hcalls]
  simp [Stage.work, Stage.taken]

/-- What the other threads hold stays as it is when a call goes on. -/
theorem works_advance (hc : Control s) (ht : stageOf t s.calls = some stage)
    (ha : s.queue.advance t stage = some (q', stage', notices)) :
    ∃ pre post : List (Frame T Stage), (∀ f ∈ pre ++ post, f ∈ s.calls ∧ f.thread ≠ t) ∧
      s.works = (s.queue.worker.work ++ pre.flatMap (·.stage.work)) ++ stage.work ++ post.flatMap (·.stage.work) ∧
      (⟨q', goOn t stage' s.calls⟩ : RecordDB T).works = (s.queue.worker.work ++ pre.flatMap (·.stage.work)) ++
        stage'.toList.flatMap Stage.work ++ post.flatMap (·.stage.work) ∧
      s.taken = pre.flatMap (·.stage.taken) ++ stage.taken ++ post.flatMap (·.stage.taken) ∧
      (⟨q', goOn t stage' s.calls⟩ : RecordDB T).taken =
        pre.flatMap (·.stage.taken) ++ stage'.toList.flatMap Stage.taken ++ post.flatMap (·.stage.taken) := by
  have hworker : q'.worker.work = s.queue.worker.work := by
    rcases advance_worker ha with heq | ⟨rfl, heq⟩
    · rw [heq]
    · rw [heq, (hc.claimed t (Lib.Calls.stageOf_mem ht)).1]
      rfl
  obtain ⟨pre, post, hcalls, hothers, hgo⟩ := hc.distinct.split ht
  refine ⟨pre, post, fun f hf => ⟨?_, hothers f hf⟩, ?_, ?_, ?_, ?_⟩
  · rw [hcalls]
    rcases List.mem_append.mp hf with hf | hf
    · exact List.mem_append_left _ hf
    · exact List.mem_append_right _ (List.mem_cons_of_mem _ hf)
  · simp [RecordDB.works, hcalls]
  · cases stage' <;> simp [RecordDB.works, hgo, hworker]
  · simp [RecordDB.taken, hcalls]
  · cases stage' <;> simp [RecordDB.taken, hgo]

structure Accounted (ns : List (Notice T)) (s : RecordDB T) : Prop where
  accepted : ns.filterMap Notice.accepted? = List.range s.queue.nextTicket
  commands : ∀ c, (ns.filterMap Notice.executed?).count c + (s.works.flatMap Work.unexecuted).count c +
    s.queue.workQueue.count c = (ns.filterMap Notice.accepted?).count c
  callbacks : ∀ c, (ns.filterMap Notice.delivered?).count c + s.taken.count c + s.queue.callbackQueue.count c +
    (s.works.flatMap Work.unanswered).count c = (ns.filterMap Notice.executed?).count c
  popped : ∀ c, (ns.filterMap Notice.finished?).count c + (s.works.map Work.ticket).count c =
    (ns.filterMap Notice.popped?).count c
  active : s.queue.activeWork = s.works.length

omit [DecidableEq T] in
/-- A section moves the commands of one thread, and the others stay where they are. -/
theorem Accounted.move {ns : List (Notice T)} (h : Accounted ns s) {s' : RecordDB T} (pre post : List Work)
    (kpre kpost : List Ticket) {work work' : List Work} {taken taken' : List Ticket} (hw : s.works = pre ++ work ++ post)
    (hw' : s'.works = pre ++ work' ++ post) (hk : s.taken = kpre ++ taken ++ kpost)
    (hk' : s'.taken = kpre ++ taken' ++ kpost) (hm : Moves s.queue work taken s'.queue work' taken' notices) :
    Accounted (ns ++ notices) s' where
  accepted := by rw [List.filterMap_append, h.accepted, hm.accepted]
  commands c := by
    have hc := h.commands c
    have hmc := congrArg (List.count c) hm.commands
    simp only [hw, hw', List.filterMap_append, List.flatMap_append, List.count_append] at hc hmc ⊢
    omega
  callbacks c := by
    have hc := h.callbacks c
    have hmc := congrArg (List.count c) hm.callbacks
    simp only [hw, hw', hk, hk', List.filterMap_append, List.flatMap_append, List.count_append] at hc hmc ⊢
    omega
  popped c := by
    have hc := h.popped c
    have hmc := congrArg (List.count c) hm.popped
    simp only [hw, hw', List.filterMap_append, List.map_append, List.count_append] at hc hmc ⊢
    omega
  active := by
    have hc := h.active
    have hma := hm.active
    rw [hw] at hc
    rw [hw']
    simp only [List.length_append] at hc hma ⊢
    omega

theorem Accounted.step {ns : List (Notice T)} (h : Accounted ns s) (hc : Control s) (e : RecordDB.Event T) :
    Accounted (ns ++ (s.step e).2) (s.step e).1 := by
  have hs := stepped s e
  generalize s.step e = r at hs ⊢
  cases hs with
  | waits => simpa using h
  | begins t entry ht =>
      rw [List.append_nil]
      obtain ⟨hworks, htaken⟩ := works_begin s t entry
      exact ⟨h.accepted, hworks.symm ▸ h.commands, hworks.symm ▸ htaken.symm ▸ h.callbacks,
        hworks.symm ▸ h.popped, hworks.symm ▸ h.active⟩
  | advances t stage q' stage' notices ht ha =>
      obtain ⟨pre, post, -, hw, hw', hk, hk'⟩ := works_advance hc ht ha
      exact h.move _ _ _ _ hw hw' hk hk' (advance_moves ha)
  | fails t ht =>
      rw [List.append_nil]
      obtain ⟨hworks, htaken⟩ := works_fails ht
      exact ⟨h.accepted, hworks.symm ▸ h.commands, hworks.symm ▸ htaken.symm ▸ h.callbacks,
        hworks.symm ▸ h.popped, hworks.symm ▸ h.active⟩
  | works q' notices ha =>
      exact h.move [] (s.calls.flatMap (·.stage.work)) [] s.taken rfl rfl rfl rfl (advanceWorker_moves ha)

end

end OptionX.Storage
