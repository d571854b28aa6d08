import OptionX.MarketData.BarRoute
import OptionX.MarketData.TickRoute

/-!
# History operations of the market-data router

The router's routes with what they share: the count of history operations in flight, and the tasks that wait for the
owner. A provider's first completion of an operation is recorded at once and posted; the owner runs the posted tasks
one at a time, in any order. A router without a dispatcher runs a task as soon as it is posted.
-/

namespace OptionX.MarketData

/-- The continuity of an entry, by the type of its stream. -/
inductive Route (P : Type) where
  | bars (route : BarRoute)
  | ticks (route : TickRoute P)

inductive Request where
  | bars (pending : PendingContinuityRequest)
  | ticks (pending : PendingTickContinuityRequest)

inductive HistoryResult (P : Type) where
  | bars (result : BarHistoryResult)
  | ticks (result : TickHistoryResult P)

/-- The task that a completed operation posts. -/
inductive Completion (P : Type) where
  | bars (operation : ContinuityOperation) (result : BarHistoryResult)
  | ticks (operation : TickContinuityOperation) (result : TickHistoryResult P)

inductive Notice (P : Type) where
  | bars (notice : BarNotice)
  | ticks (notice : TickNotice P)

/-- What the router does to one of its routes, completions apart. -/
inductive RouteEvent (P : Type) where
  | subscribed (replay : Option StreamStatus) (clock : RouteClock)
  | bars (batch : BarDataBatch)
  | ticks (batch : TickDataBatch P)
  | status (status : StreamStatus) (clock : RouteClock)
  | process (clock : RouteClock)
  | unsubscribe
  | subscriberGone

def Notice.isRequest {P : Type} : Notice P → Bool
  | .bars (.request _) => true
  | .ticks (.request _) => true
  | _ => false

def Completion.id {P : Type} : Completion P → Nat
  | .bars operation _ => operation.id
  | .ticks operation _ => operation.id

namespace Route

variable {P : Type}

def operationIds : Route P → List Nat
  | .bars s => s.operations.map (·.id)
  | .ticks s => s.operations.map (·.id)

/-- The attempts that the retry policy allows. -/
def maxAttempts : Route P → Nat
  | .bars s => s.retry.maxAttempts
  | .ticks s => s.retry.maxAttempts

/-- `record_continuity_completion`: the operation is no longer in flight. -/
def answered : Route P → Nat → Route P
  | .bars s, id => .bars { s with operations := s.operations.filter (·.id != id) }
  | .ticks s, id => .ticks { s with operations := s.operations.filter (·.id != id) }

/-- The completion of an operation that is still in flight. -/
def completion : Route P → Nat → HistoryResult P → Option (Completion P)
  | .bars s, id, .bars result => (s.operations.find? (·.id == id)).map (.bars · result)
  | .ticks s, id, .ticks result => (s.operations.find? (·.id == id)).map (.ticks · result)
  | _, _, _ => none

/-- Whether a completion counts for the route. -/
def current : Route P → Completion P → Bool
  | .bars s, .bars operation _ => s.current operation
  | .ticks s, .ticks operation _ => s.current operation
  | _, _ => false

variable [BEq P]

/-- `complete_continuity` and `complete_tick_continuity`. -/
def complete : Route P → Completion P → RouteClock → Route P × List (Notice P)
  | .bars s, .bars operation result, clock =>
      let next := s.completeContinuity operation result clock
      (.bars next.1, next.2.map .bars)
  | .ticks s, .ticks operation result, clock =>
      let next := s.completeContinuity operation result clock
      (.ticks next.1, next.2.map .ticks)
  | r, _, _ => (r, [])

def handle (r : Route P) (e : RouteEvent P) : Route P × List (Notice P) :=
  let onBars (s : BarRoute) (e : BarRoute.Event) : Route P × List (Notice P) :=
    (.bars (s.step e).1, (s.step e).2.map .bars)
  let onTicks (s : TickRoute P) (e : TickRoute.Event P) : Route P × List (Notice P) :=
    (.ticks (s.step e).1, (s.step e).2.map .ticks)
  match r, e with
  | .bars s, .subscribed replay clock => onBars s (.subscribed replay clock)
  | .bars s, .bars batch => onBars s (.bars batch)
  | .bars s, .status status clock => onBars s (.status status clock)
  | .bars s, .process clock => onBars s (.process clock)
  | .bars s, .unsubscribe => onBars s .unsubscribe
  | .bars s, .subscriberGone => onBars s .subscriberGone
  | .bars s, .ticks _ => (.bars s, [])
  | .ticks s, .subscribed replay clock => onTicks s (.subscribed replay clock)
  | .ticks s, .ticks batch => onTicks s (.ticks batch)
  | .ticks s, .status status clock => onTicks s (.status status clock)
  | .ticks s, .process clock => onTicks s (.process clock)
  | .ticks s, .unsubscribe => onTicks s .unsubscribe
  | .ticks s, .subscriberGone => onTicks s .subscriberGone
  | .ticks s, .bars _ => (.ticks s, [])

end Route

/-- The completions of one route among the posted tasks. -/
def postedFor {P : Type} (posted : List (Nat × Completion P)) (i : Nat) : List (Completion P) :=
  (posted.filter (·.1 == i)).map (·.2)

/-- The routes by their ids, `m_continuity_operations_in_flight`, and the tasks that wait for the owner. -/
structure Router (P : Type) where
  routes : List (Route P) := []
  operationsInFlight : Nat := 0
  posted : List (Nat × Completion P) := []

namespace Router

variable {P : Type}

inductive Event (P : Type) where
  | subscribeBars (symbol : String) (timeframe : Nat) (options : ContinuityOptions)
  | subscribeTicks (symbol : String) (options : TickContinuityOptions)
  /-- The router handles an event of one route. -/
  | route (i : Nat) (e : RouteEvent P)
  /-- The provider completes an operation; the dispatcher takes the task or refuses it. -/
  | completed (i id : Nat) (result : HistoryResult P) (accepted : Bool)
  /-- The owner runs a posted task. -/
  | run (k : Nat) (clock : RouteClock)

/-- A route has handled something: it goes on as `next`, and its requests are in flight. -/
def sends (r : Router P) (i : Nat) (next : Route P × List (Notice P)) :
    Router P × List (Nat × Notice P) :=
  ({ r with
      routes := r.routes.set i next.1
      operationsInFlight := r.operationsInFlight + next.2.countP Notice.isRequest },
    next.2.map (i, ·))

/-- Records the first completion of an operation and posts its task. -/
def record (r : Router P) (i id : Nat) (result : HistoryResult P) (accepted : Bool) : Router P :=
  match r.routes[i]? with
  | none => r
  | some route =>
      match route.completion id result with
      | none => r
      | some completion =>
          { routes := r.routes.set i (route.answered id)
            operationsInFlight := r.operationsInFlight - 1
            posted := if accepted then r.posted ++ [(i, completion)] else r.posted }

variable [BEq P]

/-- Runs the task at place `k`. -/
def runTask (r : Router P) (k : Nat) (clock : RouteClock) : Router P × List (Nat × Notice P) :=
  match r.posted[k]? with
  | none => (r, [])
  | some (i, completion) =>
      let r := { r with posted := r.posted.eraseIdx k }
      match r.routes[i]? with
      | none => (r, [])
      | some route => r.sends i (route.complete completion clock)

def step (r : Router P) : Event P → Router P × List (Nat × Notice P)
  | .subscribeBars symbol timeframe options =>
      if symbol != "" && 0 < timeframe && options.valid then
        ({ r with routes := r.routes ++ [.bars (.create symbol timeframe options)] }, [])
      else (r, [])
  | .subscribeTicks symbol options =>
      if symbol != "" && options.valid then
        ({ r with routes := r.routes ++ [.ticks (.create symbol options)] }, [])
      else (r, [])
  | .route i e =>
      match r.routes[i]? with
      | none => (r, [])
      | some route => r.sends i (route.handle e)
  | .completed i id result accepted => (r.record i id result accepted, [])
  | .run k clock => r.runTask k clock

end Router

end OptionX.MarketData
