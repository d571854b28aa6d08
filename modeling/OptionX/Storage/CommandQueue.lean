import OptionX.Lib.Calls
import OptionX.Lib.Run

/-!
# The command queue of a record database

The buffered half of `TradeRecordDB` and of `SignalRecordDB`, whose queue helpers are the same: `enqueue_*` puts
commands into a queue, and the worker, `process`, `flush` and `shutdown` take them out, execute them and deliver
their callbacks. One section under a mutex is one step, and so is what happens between two sections.
-/

namespace OptionX.Storage

open Lib (Frame)
open Lib.Calls (stageOf goOn)

/-- Commands are known by the order in which the queue has accepted them. -/
abbrev Ticket := Nat

/-- A command that a thread has popped: `execute_command` runs it, which ends with its callback put into the
callback queue, and finishes it. -/
inductive Work where
  | popped (c : Ticket)
  | executed (c : Ticket)
  | answered (c : Ticket)
  deriving DecidableEq

inductive Worker where
  | absent
  | waiting
  | working (work : Work)
  /-- Out of the loop, before its last section. -/
  | leaving
  | gone
  deriving DecidableEq

/-- The calls that drain the queue or deliver callbacks. -/
inductive Call where
  | process | flush | shutdown
  deriving DecidableEq

/-- Where a call stands: before the section that its next step takes. -/
inductive Stage where
  | enqueuing
  | opening | claiming | starting
  | processing | flushing
  | awaiting
  | closing | joining | unmarking
  | draining (call : Call)
  | working (call : Call) (work : Work)
  | delivering (call : Call)
  | invoking (call : Call) (c : Ticket)
  | unloading
  deriving DecidableEq

inductive Party (T : Type) where
  | worker
  | caller (thread : T)
  deriving DecidableEq

inductive Notice (T : Type) where
  | accepted (c : Ticket)
  /-- `QUEUE_CLOSED`. -/
  | refused
  | popped (party : Party T) (c : Ticket)
  | executed (c : Ticket)
  | finished (c : Ticket)
  | taken (thread : T) (c : Ticket)
  | delivered (c : Ticket)
  /-- `shutdown` has closed the database and returns. -/
  | shutDown
  deriving DecidableEq

/-- The members of the database that the sections read and write. -/
structure CommandQueue where
  workQueue : List Ticket := []
  nextTicket : Ticket := 0
  activeWork : Nat := 0
  accepting : Bool := true
  workerStop : Bool := false
  workerRunning : Bool := false
  callbackQueue : List Ticket := []
  isOpen : Bool
  /-- The worker thread; `joinable` when it is not absent. -/
  worker : Worker := .absent
  deriving DecidableEq

namespace CommandQueue

variable {T : Type}

/-- `execute_command`. -/
def execute (q : CommandQueue) : Work → CommandQueue × Option Work × List (Notice T)
  | .popped c => (q, some (.executed c), [.executed c])
  | .executed c => ({ q with callbackQueue := q.callbackQueue ++ [c] }, some (.answered c), [])
  | .answered c => ({ q with activeWork := q.activeWork - 1 }, none, [.finished c])

/-- The next section of a call of thread `t`, and the stage it leaves the call in, or none when it returns. The
call waits when there is no section to take. -/
def advance (q : CommandQueue) (t : T) : Stage → Option (CommandQueue × Option Stage × List (Notice T))
  | .enqueuing =>
      if q.accepting then
        some ({ q with workQueue := q.workQueue ++ [q.nextTicket], nextTicket := q.nextTicket + 1 }, none,
          [.accepted q.nextTicket])
      else some (q, none, [.refused])
  | .opening => some (q, if q.isOpen then some .claiming else none, [])
  | .claiming =>
      if !q.accepting || q.workerRunning then some (q, none, [])
      else some ({ q with workerStop := false, workerRunning := true }, some .starting, [])
  | .starting => some ({ q with worker := .waiting }, none, [])
  | .processing => some (q, some (if !q.workerRunning then .draining .process else .delivering .process), [])
  | .flushing => some (q, some (if !q.workerRunning then .draining .flush else .awaiting), [])
  | .awaiting =>
      if q.workQueue = [] ∧ q.activeWork = 0 then some (q, some (.delivering .flush), []) else none
  | .closing =>
      if !q.accepting && !q.workerRunning && !q.isOpen then some (q, none, [])
      else some ({ q with accepting := false, workerStop := true }, some .joining, [])
  | .joining => if q.worker = .absent ∨ q.worker = .gone then some (q, some .unmarking, []) else none
  | .unmarking => some ({ q with workerRunning := false }, some (.draining .shutdown), [])
  | .draining call =>
      match q.workQueue with
      | [] => some (q, some (.delivering call), [])
      | c :: rest =>
          some ({ q with workQueue := rest, activeWork := q.activeWork + 1 }, some (.working call (.popped c)),
            [.popped (.caller t) c])
  | .working call work =>
      let r := q.execute work
      some (r.1, some ((r.2.1.map (Stage.working call)).getD (.draining call)), r.2.2)
  | .delivering call =>
      match q.callbackQueue with
      | [] => some (q, if call = .shutdown then some .unloading else none, [])
      | c :: rest => some ({ q with callbackQueue := rest }, some (.invoking call c), [.taken t c])
  | .invoking call c => some (q, some (.delivering call), [.delivered c])
  | .unloading => some ({ q with isOpen := false }, none, [.shutDown])

/-- The next section of the worker's loop. -/
def advanceWorker (q : CommandQueue) : Option (CommandQueue × List (Notice T)) :=
  match q.worker with
  | .absent => none
  | .waiting =>
      match q.workQueue with
      | [] => if q.workerStop then some ({ q with worker := .leaving }, []) else none
      | c :: rest =>
          some ({ q with workQueue := rest, activeWork := q.activeWork + 1, worker := .working (.popped c) },
            [.popped .worker c])
  | .working work =>
      let r := q.execute work
      some ({ r.1 with worker := (r.2.1.map Worker.working).getD .waiting }, r.2.2)
  | .leaving => some ({ q with workerRunning := false, worker := .gone }, [])
  | .gone => none

end CommandQueue

inductive Entry where
  | enqueue | run | process | flush | shutdown
  deriving DecidableEq

def Entry.stage : Entry → Stage
  | .enqueue => .enqueuing
  | .run => .opening
  | .process => .processing
  | .flush => .flushing
  | .shutdown => .closing

/-- A database and the calls in progress. -/
structure RecordDB (T : Type) where
  queue : CommandQueue
  calls : List (Frame T Stage) := []
  deriving DecidableEq

inductive RecordDB.Event (T : Type) where
  /-- A thread outside calls begins one. -/
  | call (thread : T) (entry : Entry)
  /-- A thread takes the next section of its call. -/
  | advance (thread : T)
  /-- The worker thread of `run` cannot be created. -/
  | startFails (thread : T)
  /-- The worker takes its next section. -/
  | worker

namespace RecordDB

variable {T : Type}

def create (isOpen : Bool) : RecordDB T := { queue := { isOpen } }

def step [DecidableEq T] (s : RecordDB T) : Event T → RecordDB T × List (Notice T)
  | .call t entry =>
      match stageOf t s.calls with
      | some _ => (s, [])
      | none => ({ s with calls := s.calls ++ [⟨t, entry.stage⟩] }, [])
  | .advance t =>
      match stageOf t s.calls with
      | none => (s, [])
      | some stage =>
          match s.queue.advance t stage with
          | none => (s, [])
          | some (queue, stage', notices) => (⟨queue, goOn t stage' s.calls⟩, notices)
  | .startFails t =>
      match stageOf t s.calls with
      | some .starting => (⟨{ s.queue with workerRunning := false }, goOn t none s.calls⟩, [])
      | _ => (s, [])
  | .worker =>
      match s.queue.advanceWorker with
      | none => (s, [])
      | some (queue, notices) => ({ s with queue }, notices)

end RecordDB

end OptionX.Storage
