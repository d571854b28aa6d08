import OptionX.Lib.Run

/-!
# The event bus

`EventBus.hpp` and `EventBus.ipp`. One thread pumps the bus and makes all calls but `notify_async`, which comes from
any thread at any time. Handlers are user code: while one runs, or while the thread is outside of the bus, calls may
be made, and a handler ends by returning or by throwing. Dispatch holds no lock, so each handler is one step.
-/

namespace OptionX.Utils

namespace EventBus

/-- A subscription with a callback. Callbacks are known by the order in which they were subscribed; a null owner is
`none`. -/
structure CallbackRecord (ι : Type) where
  id : Nat
  owner : Option ι
  deriving DecidableEq

/-- What a dispatch calls. -/
inductive Handler (ι : Type) where
  | callback (record : CallbackRecord ι)
  | listener (owner : ι)
  deriving DecidableEq

def Handler.owner {ι : Type} : Handler ι → Option ι
  | .callback record => record.owner
  | .listener owner => some owner

/-- A queued event, known by the order of acceptance, with its dynamic type. -/
structure QueuedEvent (κ : Type) where
  id : Nat
  type : κ
  deriving DecidableEq

/-- What runs on the pumping thread. -/
inductive Frame (ι κ : Type) where
  /-- A handler, that is user code. -/
  | handler (handler : Handler ι)
  /-- A call of `notify` with the handlers it has yet to call. -/
  | dispatch (id : Nat) (type : κ) (todo : List (Handler ι))
  /-- A call of `process` or `drain`: the events of its batch whose dispatch has not begun, and the batches it may
  still take. -/
  | pump (batch : List (QueuedEvent κ)) (rounds : Nat)
  deriving DecidableEq

inductive Notice (ι κ : Type) where
  | began (dispatch : Nat) (type : κ) (handlers : List (Handler ι))
  | started (dispatch : Nat) (type : κ) (handler : Handler ι)
  /-- The dispatch returns to its caller. -/
  | ended (dispatch : Nat)
  deriving DecidableEq

end EventBus

open EventBus in
structure EventBus (ι κ : Type) where
  eventCallbacks : κ → List (CallbackRecord ι) := fun _ => []
  eventListeners : κ → List (Option ι) := fun _ => []
  eventQueue : List (QueuedEvent κ) := []
  /-- The calls in progress, the innermost first. -/
  stack : List (Frame ι κ) := []
  /-- All events accepted so far, and those of them whose dispatch has begun. -/
  accepted : List (QueuedEvent κ) := []
  dispatched : List (QueuedEvent κ) := []
  callbackCount : Nat := 0
  dispatchCount : Nat := 0

namespace EventBus

variable {ι κ : Type} [DecidableEq ι] [DecidableEq κ]

inductive Event (ι κ : Type) where
  /-- `subscribe` with a callback of either form. -/
  | subscribe (type : κ) (owner : Option ι)
  | subscribeListener (type : κ) (listener : Option ι)
  | unsubscribe (type : κ) (owner : Option ι)
  | unsubscribeAll (owner : Option ι)
  /-- A null event is `none`. -/
  | notify (type : Option κ)
  | notifyAsync (type : Option κ)
  | process
  | drain (maxRounds : Nat)
  /-- The loop of the innermost call of the bus goes on. -/
  | advance
  | handlerReturns
  /-- The handler throws: the exception leaves the dispatch, and the pumping call if that made it. -/
  | handlerThrows

/-- User code runs and may call the bus. -/
def userCode (s : EventBus ι κ) : Bool :=
  match s.stack with
  | [] | .handler _ :: _ => true
  | .dispatch .. :: _ | .pump .. :: _ => false

/-- The handlers that `notify` calls for an event: its copies of the callbacks and of the listeners, but no null
listener. -/
def handlers (s : EventBus ι κ) (type : κ) : List (Handler ι) :=
  (s.eventCallbacks type).map .callback ++ (s.eventListeners type).filterMap fun l => l.map .listener

def subscribe (s : EventBus ι κ) (type : κ) (owner : Option ι) : EventBus ι κ :=
  { s with
    eventCallbacks := Function.update s.eventCallbacks type (s.eventCallbacks type ++ [⟨s.callbackCount, owner⟩])
    callbackCount := s.callbackCount + 1 }

def subscribeListener (s : EventBus ι κ) (type : κ) (listener : Option ι) : EventBus ι κ :=
  if listener ∈ s.eventListeners type then s
  else { s with eventListeners := Function.update s.eventListeners type (s.eventListeners type ++ [listener]) }

def unsubscribe (s : EventBus ι κ) (type : κ) (owner : Option ι) : EventBus ι κ :=
  { s with
    eventCallbacks :=
      Function.update s.eventCallbacks type ((s.eventCallbacks type).filter fun record => record.owner ≠ owner)
    eventListeners :=
      Function.update s.eventListeners type ((s.eventListeners type).filter fun listener => listener ≠ owner) }

def unsubscribeAll (s : EventBus ι κ) (owner : Option ι) : EventBus ι κ :=
  { s with
    eventCallbacks := fun type => (s.eventCallbacks type).filter fun record => record.owner ≠ owner
    eventListeners := fun type => (s.eventListeners type).filter fun listener => listener ≠ owner }

/-- `notify`, up to its first handler. -/
def notify (s : EventBus ι κ) (type : κ) : EventBus ι κ × List (Notice ι κ) :=
  ({ s with
    stack := .dispatch s.dispatchCount type (s.handlers type) :: s.stack
    dispatchCount := s.dispatchCount + 1 }, [.began s.dispatchCount type (s.handlers type)])

def notifyAsync (s : EventBus ι κ) (type : κ) : EventBus ι κ :=
  let event := ⟨s.accepted.length, type⟩
  { s with eventQueue := s.eventQueue ++ [event], accepted := s.accepted ++ [event] }

def advance (s : EventBus ι κ) : EventBus ι κ × List (Notice ι κ) :=
  match s.stack with
  | .dispatch id type (handler :: todo) :: rest =>
      ({ s with stack := .handler handler :: .dispatch id type todo :: rest }, [.started id type handler])
  | .dispatch id _ [] :: rest => ({ s with stack := rest }, [.ended id])
  | .pump (event :: batch) rounds :: rest =>
      { s with stack := .pump batch rounds :: rest, dispatched := s.dispatched ++ [event] }.notify event.type
  | .pump [] 0 :: rest => ({ s with stack := rest }, [])
  | .pump [] (rounds + 1) :: rest =>
      if s.eventQueue = [] then ({ s with stack := rest }, [])
      else ({ s with stack := .pump s.eventQueue rounds :: rest, eventQueue := [] }, [])
  | [] | .handler _ :: _ => (s, [])

/-- The call stack after the innermost handler has thrown. -/
def unwind : List (Frame ι κ) → List (Frame ι κ)
  | .handler _ :: .dispatch .. :: .pump .. :: rest => rest
  | .handler _ :: .dispatch .. :: rest => rest
  | stack => stack

def step (s : EventBus ι κ) : Event ι κ → EventBus ι κ × List (Notice ι κ)
  | .subscribe type owner => (if s.userCode then s.subscribe type owner else s, [])
  | .subscribeListener type listener => (if s.userCode then s.subscribeListener type listener else s, [])
  | .unsubscribe type owner => (if s.userCode then s.unsubscribe type owner else s, [])
  | .unsubscribeAll owner => (if s.userCode then s.unsubscribeAll owner else s, [])
  | .notify none | .notifyAsync none => (s, [])
  | .notify (some type) => if s.userCode then s.notify type else (s, [])
  | .notifyAsync (some type) => (s.notifyAsync type, [])
  | .process => (if s.userCode then { s with stack := .pump [] 1 :: s.stack } else s, [])
  | .drain maxRounds => (if s.userCode then { s with stack := .pump [] maxRounds :: s.stack } else s, [])
  | .advance => s.advance
  | .handlerReturns =>
      (match s.stack with
      | .handler _ :: rest => { s with stack := rest }
      | _ => s, [])
  | .handlerThrows => ({ s with stack := unwind s.stack }, [])

end EventBus

end OptionX.Utils
