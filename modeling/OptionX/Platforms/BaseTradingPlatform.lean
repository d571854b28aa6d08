import OptionX.Lib.Run
import OptionX.Utils.TaskManager

/-!
# The lifecycle of a trading platform

`BaseTradingPlatform.hpp` on its `TaskManager`. One access to a flag, one section under a mutex and one task's turn
with its callback are one step each. `process` may be called by any thread, also while another call of it is in
progress: a call first takes over the pending tasks, under the mutex, and then works through all running tasks. That
list has no lock, so two calls at work on it at once have no meaning and are left out here; a call that has taken
tasks over may wait for any time before it goes on. Clock readings are milliseconds of Unix time.
-/

namespace OptionX.Platforms

open Utils (Task TaskType Worker)

namespace BaseTradingPlatform

/-- What the callback of a task does. -/
inductive TaskKind where
  | initialization
  | loop
  | external
  deriving DecidableEq

structure PlatformTask where
  kind : TaskKind
  task : Task
  deriving DecidableEq

/-- Who has called `TaskManager::process`. -/
inductive Owner where
  | caller
  | worker
  /-- `TaskManager::shutdown`, where there is no worker. -/
  | shutdown
  deriving DecidableEq

/-- A call of `TaskManager::process` that has taken over the pending tasks. -/
structure Taken where
  owner : Owner
  tasks : List PlatformTask
  deriving DecidableEq

/-- The call at work on the running tasks: those that have had their turn and those that wait for it. -/
structure Cycle where
  owner : Owner
  nowMs : Nat
  passed : List PlatformTask := []
  todo : List PlatformTask
  deriving DecidableEq

/-- What `run` does next under the lifecycle mutex. -/
inductive RunStage where
  | scheduleInitialize
  | scheduleLoop
  | startWorker
  deriving DecidableEq

/-- Where the call of `shutdown` stands. -/
inductive ShutdownStage where
  | idle
  /-- `m_stopping` is set. -/
  | entered
  /-- The task manager shuts down and waits for the worker. -/
  | joining
  /-- The task manager shuts down and is to process itself. -/
  | draining
  | processing
  | processed
  /-- The task manager is open again. -/
  | drained
  | returned
  deriving DecidableEq

inductive Notice where
  /-- `post_task` has accepted work, known by its task. -/
  | accepted (id : Nat)
  | refused
  /-- The components are initialised. -/
  | initialized
  /-- The components are processed and the loop hook is called. -/
  | looped
  | worked (id : Nat)
  | cancelled (id : Nat)
  deriving DecidableEq

end BaseTradingPlatform

open BaseTradingPlatform in
structure BaseTradingPlatform where
  pendingTasks : List PlatformTask := []
  tasks : List PlatformTask := []
  /-- The shutdown flag of the task manager. -/
  taskShutdown : Bool := false
  worker : Worker := .absent
  taken : List Taken := []
  cycle : Option Cycle := none
  nextId : Nat := 0
  running : Bool := false
  stopping : Bool := false
  stopped : Bool := false
  /-- A call of `run` that holds the lifecycle mutex, and whether it is to start a worker. -/
  runCall : Option (RunStage × Bool) := none
  shutdownStage : ShutdownStage := .idle
  deriving DecidableEq

namespace BaseTradingPlatform

inductive Event where
  | run (startWorkerThread : Bool)
  /-- The next step of the call of `run` that holds the lifecycle mutex. -/
  | runAdvance (nowMs : Nat)
  | postTask (nowMs : Nat)
  | shutdown
  | shutdownAdvance
  /-- A call of `process` takes over the pending tasks. -/
  | process
  /-- So does the worker. -/
  | workerTake
  /-- The worker finds the shutdown flag and leaves its loop. -/
  | workerLeave
  /-- The call with this number among those that have taken tasks over goes to work on the running tasks. -/
  | begin (call : Nat) (nowMs : Nat)
  /-- The next turn of the cycle, or its end. -/
  | advance
  deriving DecidableEq

/-- `add_single_task` and `add_periodic_task` with a period of 1 ms; they refuse while the task manager shuts down. -/
def addTask (s : BaseTradingPlatform) (kind : TaskKind) (nowMs : Nat) : Option BaseTradingPlatform :=
  if s.taskShutdown then none
  else
    let task :=
      match kind with
      | .initialization | .external => Task.create s.nextId .single nowMs 0 0 0
      | .loop => Task.create s.nextId .periodic nowMs 0 1 0
    some { s with pendingTasks := s.pendingTasks ++ [⟨kind, task⟩], nextId := s.nextId + 1 }

def run (s : BaseTradingPlatform) (startWorkerThread : Bool) : BaseTradingPlatform :=
  if s.runCall ≠ none then s
  else if s.stopping || s.stopped then s
  else if s.running then s
  else { s with runCall := some (.scheduleInitialize, startWorkerThread) }

/-- The task manager refuses a task only after `m_stopping` is set, which the mutex keeps from happening here. -/
def runAdvance (s : BaseTradingPlatform) (nowMs : Nat) : BaseTradingPlatform :=
  match s.runCall with
  | none => s
  | some (.scheduleInitialize, w) =>
      match s.addTask .initialization nowMs with
      | some s => { s with runCall := some (.scheduleLoop, w) }
      | none => { s with runCall := none }
  | some (.scheduleLoop, w) =>
      match s.addTask .loop nowMs with
      | some s => { s with runCall := some (.startWorker, w) }
      | none => { s with runCall := none }
  | some (.startWorker, w) =>
      { s with
        worker := if w && s.worker = .absent then .looping else s.worker
        running := true
        runCall := none }

def postTask (s : BaseTradingPlatform) (nowMs : Nat) : BaseTradingPlatform × List Notice :=
  if s.runCall ≠ none then (s, [])
  else if s.stopping || s.stopped then (s, [.refused])
  else
    match s.addTask .external nowMs with
    | some s' => (s', [.accepted s.nextId])
    | none => (s, [.refused])

def shutdown (s : BaseTradingPlatform) : BaseTradingPlatform :=
  if s.runCall ≠ none then s
  else if s.stopped then s
  else if s.stopping then s
  else { s with stopping := true, shutdownStage := .entered }

/-- The section of `TaskManager::process`. -/
def take (s : BaseTradingPlatform) (owner : Owner) : BaseTradingPlatform :=
  { s with taken := s.taken ++ [⟨owner, s.pendingTasks⟩], pendingTasks := [] }

def shutdownAdvance (s : BaseTradingPlatform) : BaseTradingPlatform :=
  match s.shutdownStage with
  | .entered =>
      { s with taskShutdown := true, shutdownStage := if s.worker = .absent then .draining else .joining }
  | .joining =>
      if s.worker = .gone then { s with worker := .absent, taskShutdown := false, shutdownStage := .drained } else s
  | .draining => { s.take .shutdown with shutdownStage := .processing }
  | .processed => { s with taskShutdown := false, shutdownStage := .drained }
  | .drained =>
      if s.runCall ≠ none then s else { s with running := false, stopped := true, shutdownStage := .returned }
  | .idle | .processing | .returned => s

/-- The worker is in a call of `TaskManager::process`. -/
def workerBusy (s : BaseTradingPlatform) : Bool :=
  s.taken.any (·.owner = .worker) || s.cycle.any (·.owner = .worker)

def workerTake (s : BaseTradingPlatform) : BaseTradingPlatform :=
  if (s.worker = .looping ∨ s.worker = .last) ∧ s.workerBusy = false then s.take .worker else s

def workerLeave (s : BaseTradingPlatform) : BaseTradingPlatform :=
  if s.worker = .looping ∧ s.taskShutdown = true ∧ s.workerBusy = false then { s with worker := .last } else s

/-- One call at a time works on the running tasks. -/
def begin (s : BaseTradingPlatform) (call nowMs : Nat) : BaseTradingPlatform :=
  match s.cycle, s.taken[call]? with
  | none, some t =>
      { s with
        taken := s.taken.eraseIdx call
        tasks := []
        cycle := some { owner := t.owner, nowMs, todo := s.tasks ++ t.tasks } }
  | _, _ => s

/-- What the callback of a task does in its turn. -/
def callback (t : PlatformTask) (isShutdown : Bool) : List Notice :=
  match t.kind with
  | .initialization => if isShutdown then [] else [.initialized]
  | .loop => if isShutdown then [] else [.looped]
  | .external => if isShutdown then [.cancelled t.task.id] else [.worked t.task.id]

/-- A task's turn. -/
def turn (t : PlatformTask) (nowMs : Nat) (taskShutdown : Bool) : PlatformTask × List Notice :=
  let task := if taskShutdown then { t.task with shutdown := true } else t.task
  let r := task.process nowMs
  ({ t with task := r.1 }, if r.2 then callback t task.shutdown else [])

def advance (s : BaseTradingPlatform) : BaseTradingPlatform × List Notice :=
  match s.cycle with
  | none => (s, [])
  | some c =>
      match c.todo with
      | t :: todo =>
          let r := turn t c.nowMs s.taskShutdown
          ({ s with cycle := some { c with passed := c.passed ++ [r.1], todo } }, r.2)
      | [] =>
          ({ s with
            tasks := c.passed.filter (!·.task.completed)
            cycle := none
            worker := if c.owner = .worker ∧ s.worker = .last then .gone else s.worker
            shutdownStage := if c.owner = .shutdown then .processed else s.shutdownStage }, [])

def step (s : BaseTradingPlatform) : Event → BaseTradingPlatform × List Notice
  | .run startWorkerThread => (s.run startWorkerThread, [])
  | .runAdvance nowMs => (s.runAdvance nowMs, [])
  | .postTask nowMs => s.postTask nowMs
  | .shutdown => (s.shutdown, [])
  | .shutdownAdvance => (s.shutdownAdvance, [])
  | .process => (s.take .caller, [])
  | .workerTake => (s.workerTake, [])
  | .workerLeave => (s.workerLeave, [])
  | .begin call nowMs => (s.begin call nowMs, [])
  | .advance => s.advance

end BaseTradingPlatform

end OptionX.Platforms
