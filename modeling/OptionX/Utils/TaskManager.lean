import OptionX.Lib.Run

/-!
# Tasks and their manager

`Task.hpp` and `TaskManager.hpp`. Times are milliseconds. One section under the mutex, one access to an atomic flag
and one task's turn in a cycle are one step each. The list of running tasks has no protection of its own: it belongs
to the one thread that processes, which is the worker when there is one, and cycles do not overlap.
-/

namespace OptionX.Utils

inductive TaskType where
  | single | delayedSingle | periodic | delayedPeriodic | onDate | periodicOnDate
  deriving DecidableEq

/-- `is_periodic`. -/
def TaskType.isPeriodic : TaskType → Bool
  | .periodic | .delayedPeriodic | .periodicOnDate => true
  | .single | .delayedSingle | .onDate => false

/-- A task, known by its place in the order in which the manager has accepted tasks. -/
structure Task where
  id : Nat
  type : TaskType
  periodMs : Int
  timestampMs : Int
  startTime : Int
  nextExecutionTime : Int
  rescheduleTime : Int := 0
  executionTime : Int
  completed : Bool := false
  forceExecute : Bool := false
  shutdown : Bool := false
  deriving DecidableEq

namespace Task

def create (id : Nat) (type : TaskType) (nowMs delayMs periodMs timestampMs : Int) : Task where
  id := id
  type := type
  periodMs := periodMs
  timestampMs := timestampMs
  startTime := nowMs + periodMs
  nextExecutionTime := nowMs + delayMs
  executionTime :=
    match type with
    | .single | .periodic => nowMs + periodMs
    | .delayedSingle | .delayedPeriodic => nowMs + delayMs
    | .onDate | .periodicOnDate => timestampMs

def isValidPeriod (periodMs : Int) : Bool := 0 < periodMs

def rescheduleAt (newTimeMs : Int) (t : Task) : Task :=
  if t.shutdown then t
  else
    { t with
      nextExecutionTime := newTimeMs
      startTime := newTimeMs
      timestampMs := newTimeMs
      rescheduleTime := newTimeMs
      executionTime := newTimeMs
      completed := false }

def setPeriod (newPeriodMs : Int) (t : Task) : Task :=
  if !isValidPeriod newPeriodMs then t
  else
    let startTime := t.startTime - t.periodMs + newPeriodMs
    { t with
      startTime
      periodMs := newPeriodMs
      executionTime := if t.type = .periodic then startTime else t.executionTime }

def resetTimer (t : Task) : Task :=
  { t with
    nextExecutionTime := t.nextExecutionTime + t.periodMs
    startTime := t.startTime + t.periodMs
    timestampMs := t.timestampMs + t.periodMs
    rescheduleTime := 0 }

/-- The loop that adds periods to a time until it has passed. -/
def catchUp (nowMs periodMs timeMs : Int) : Int :=
  if 0 < periodMs ∧ timeMs ≤ nowMs then catchUp nowMs periodMs (timeMs + periodMs) else timeMs
termination_by (nowMs + 1 - timeMs).toNat

/-- The time from which a task is due. -/
def dueTime (t : Task) : Int :=
  match t.type with
  | .single => t.rescheduleTime
  | .delayedSingle | .delayedPeriodic => t.nextExecutionTime
  | .periodic => t.startTime
  | .onDate | .periodicOnDate => t.timestampMs

def isDue (nowMs : Int) (t : Task) : Bool := t.dueTime ≤ nowMs

/-- A due, forced or shut down task runs its callback. -/
def runs (nowMs : Int) (t : Task) : Bool := t.isDue nowMs || t.forceExecute || t.shutdown

/-- `process`: the task after its turn, and whether its callback was run. -/
def process (nowMs : Int) (t : Task) : Task × Bool :=
  if t.completed then (t, false)
  else
    let r : Task × Bool :=
      match t.type with
      | .single =>
          let t := { t with executionTime := if t.rescheduleTime ≠ 0 then t.rescheduleTime else t.startTime }
          if t.runs nowMs then ({ t with rescheduleTime := 0, completed := true }, true) else (t, false)
      | .delayedSingle =>
          let t := { t with executionTime := t.nextExecutionTime }
          if t.runs nowMs then ({ t with completed := true }, true) else (t, false)
      | .periodic =>
          if !isValidPeriod t.periodMs then ({ t with completed := true }, false)
          else
            let t := { t with executionTime := t.startTime }
            if t.runs nowMs then ({ t with startTime := catchUp nowMs t.periodMs t.startTime }, true) else (t, false)
      | .delayedPeriodic =>
          if !isValidPeriod t.periodMs then ({ t with completed := true }, false)
          else
            let t := { t with executionTime := t.nextExecutionTime }
            if t.runs nowMs then
              ({ t with nextExecutionTime := catchUp nowMs t.periodMs t.nextExecutionTime }, true)
            else (t, false)
      | .onDate =>
          let t := { t with executionTime := t.timestampMs }
          if t.runs nowMs then ({ t with completed := true }, true) else (t, false)
      | .periodicOnDate =>
          if !isValidPeriod t.periodMs then ({ t with completed := true }, false)
          else
            let t := { t with executionTime := t.timestampMs }
            if t.runs nowMs then ({ t with timestampMs := catchUp nowMs t.periodMs t.timestampMs }, true)
            else (t, false)
    ({ r.1 with forceExecute := false, completed := r.1.completed || r.1.shutdown }, r.2)

end Task

/-- What a callback, or any other holder of a task, may do to it. -/
inductive Touch where
  | rescheduleAt (newTimeMs : Int)
  | setPeriod (newPeriodMs : Int)
  | resetTimer
  deriving DecidableEq

def Touch.apply (touch : Touch) (t : Task) : Task :=
  match touch with
  | .rescheduleAt newTimeMs => t.rescheduleAt newTimeMs
  | .setPeriod newPeriodMs => t.setPeriod newPeriodMs
  | .resetTimer => t.resetTimer

/-- The worker thread of `run`. -/
inductive Worker where
  | absent
  | looping
  /-- Out of the loop: one cycle is left. -/
  | last
  | gone
  deriving DecidableEq

/-- Where a call of `shutdown` stands. -/
inductive Stopping where
  | no
  | joining
  | draining
  | drained
  deriving DecidableEq

/-- A cycle in progress: the running tasks that have had their turn and those that wait for it. -/
structure Cycle where
  index : Nat
  /-- The tasks accepted before the cycle began. -/
  accepted : Nat
  nowMs : Int
  passed : List Task := []
  todo : List Task
  /-- The force flag has been cleared. -/
  cleared : Bool := false
  deriving DecidableEq

structure TaskManager where
  pendingTasks : List Task := []
  tasks : List Task := []
  forceExecute : Bool := false
  shutdown : Bool := false
  cycle : Option Cycle := none
  worker : Worker := .absent
  stopping : Stopping := .no
  nextId : Nat := 0
  cycles : Nat := 0
  deriving DecidableEq

/-- A task's turn in a cycle. -/
structure Pass where
  cycle : Nat
  nowMs : Int
  /-- The force flag of the manager as the turn has read it. -/
  forced : Bool
  /-- Its shutdown flag, likewise. -/
  shutDown : Bool
  before : Task
  after : Task
  ran : Bool
  deriving DecidableEq

inductive Notice where
  | accepted (task : Task)
  | rejected
  | passed (pass : Pass)
  /-- The cycle has cleared the force flag. -/
  | cleared
  /-- `shutdown` returns. -/
  | drained
  deriving DecidableEq

namespace TaskManager

inductive Event where
  /-- `add_*`; the clock is read by the constructor of the task. -/
  | add (type : TaskType) (nowMs delayMs periodMs timestampMs : Int)
  /-- The thread that processes takes over the pending tasks and reads the clock. -/
  | begin (nowMs : Int)
  /-- The next step of the cycle in progress. -/
  | advance
  /-- The worker finds the shutdown flag and leaves its loop. -/
  | leaveLoop
  /-- The store that ends `force_execute`; the wait before it only delays it. -/
  | forceExecute
  | run
  | shutdown
  /-- `shutdown` has waited for the worker, or ended its own cycle. -/
  | shutdownReturns
  | touch (id : Nat) (touch : Touch)

/-- Somebody may begin a cycle: a caller of `process`, the worker, or `shutdown`. -/
def mayProcess (s : TaskManager) : Bool :=
  match s.worker, s.stopping with
  | .absent, .no | .absent, .draining | .looping, _ | .last, _ => true
  | _, _ => false

/-- A task's turn. -/
def turn (s : TaskManager) (nowMs : Int) (t : Task) : Task × Bool :=
  let t := if s.forceExecute then { t with forceExecute := true } else t
  let t := if s.shutdown then { t with shutdown := true } else t
  t.process nowMs

/-- The next step of a cycle: the turn of a task, the end of the turns, or the removal of the completed tasks. -/
def advance (s : TaskManager) (c : Cycle) : TaskManager × List Notice :=
  match c.todo with
  | t :: todo =>
      let r := s.turn c.nowMs t
      ({ s with cycle := some { c with passed := c.passed ++ [r.1], todo } },
        if t.completed then [] else [.passed ⟨c.index, c.nowMs, s.forceExecute, s.shutdown, t, r.1, r.2⟩])
  | [] =>
      if !c.cleared then ({ s with forceExecute := false, cycle := some { c with cleared := true } }, [.cleared])
      else
        ({ s with
          tasks := c.passed.filter (!·.completed)
          cycle := none
          worker := if s.worker = .last then .gone else s.worker
          stopping := if s.worker = .absent ∧ s.stopping = .draining then .drained else s.stopping }, [])

def mapTasks (f : Task → Task) (s : TaskManager) : TaskManager :=
  { s with
    pendingTasks := s.pendingTasks.map f
    tasks := s.tasks.map f
    cycle := s.cycle.map fun c => { c with passed := c.passed.map f, todo := c.todo.map f } }

def step (s : TaskManager) : Event → TaskManager × List Notice
  | .add type nowMs delayMs periodMs timestampMs =>
      if s.shutdown || type.isPeriodic && !Task.isValidPeriod periodMs then (s, [.rejected])
      else
        let t := Task.create s.nextId type nowMs delayMs periodMs timestampMs
        ({ s with pendingTasks := s.pendingTasks ++ [t], nextId := s.nextId + 1 }, [.accepted t])
  | .begin nowMs =>
      if s.cycle.isNone && s.mayProcess then
        ({ s with
          pendingTasks := []
          tasks := []
          cycle := some
            { index := s.cycles, accepted := s.nextId, nowMs, todo := s.tasks ++ s.pendingTasks }
          cycles := s.cycles + 1 }, [])
      else (s, [])
  | .advance =>
      match s.cycle with
      | none => (s, [])
      | some c => s.advance c
  | .leaveLoop =>
      if s.worker = .looping ∧ s.cycle = none ∧ s.shutdown = true then ({ s with worker := .last }, []) else (s, [])
  | .forceExecute => ({ s with forceExecute := true }, [])
  | .run =>
      if s.worker = .absent ∧ s.stopping = .no ∧ s.cycle = none then ({ s with worker := .looping }, []) else (s, [])
  | .shutdown =>
      if s.stopping ≠ .no then (s, [])
      else if s.worker ≠ .absent then ({ s with shutdown := true, stopping := .joining }, [])
      else if s.cycle = none then ({ s with shutdown := true, stopping := .draining }, [])
      else (s, [])
  | .shutdownReturns =>
      if s.stopping = .joining ∧ s.worker = .gone ∨ s.stopping = .drained then
        ({ s with shutdown := false, stopping := .no, worker := .absent }, [.drained])
      else (s, [])
  | .touch id touch => (s.mapTasks fun t => if t.id = id then touch.apply t else t, [])

end TaskManager

end OptionX.Utils
