import OptionX.Lib.Run

/-!
# The event awaiter

`EventAwaiter.hpp`. An awaiter is subscribed to the bus by a callback that holds a weak pointer, and a single-shot one
keeps itself alive until it is cancelled. Events are delivered and `cancel` is called by any number of threads, and
also from inside the predicate or the match callback; each atomic operation and each call of user code is one step of
the call that makes it.
-/

namespace OptionX.Utils

namespace EventAwaiter

/-- Where a call of `cancel` stands: before its compare-exchange, its `unsubscribe` or its reset of the reference. -/
inductive CancelStage where
  | entered | unsubscribing | resetting
  deriving DecidableEq

inductive Call where
  /-- A dispatch of the bus has copied the subscription and has yet to call it. -/
  | dispatched
  /-- The weak pointer is locked and `handle_event` entered. -/
  | locked
  /-- The predicate runs. -/
  | predicate
  | cancelling (stage : CancelStage)
  /-- The callback is next. -/
  | calling
  /-- The callback runs. -/
  | running
  | handled
  /-- A call of `cancel` by another party. -/
  | cancel (stage : CancelStage)
  | cancelReturned
  deriving DecidableEq

/-- The call is inside `handle_event` and holds a reference. -/
def Call.holds : Call → Bool
  | .locked | .predicate | .cancelling _ | .calling | .running => true
  | .dispatched | .handled | .cancel _ | .cancelReturned => false

inductive Event where
  /-- A dispatch of an event of the awaited type copies the list of subscriptions. -/
  | notify
  /-- A call of `cancel` begins. The destructor makes one too. -/
  | cancel
  /-- The call with this number takes its next atomic step. -/
  | advance (call : Nat)
  /-- A predicate that throws does not match. -/
  | predicateEnds (call : Nat) (matched : Bool)
  /-- The callback returns or throws. -/
  | callbackEnds (call : Nat)
  /-- A shared pointer to the awaiter is made, from another one or from a weak one. -/
  | hold
  | release

inductive Notice where
  | invoked (call : Nat)
  deriving DecidableEq

end EventAwaiter

open EventAwaiter in
structure EventAwaiter where
  singleShot : Bool
  hasPredicate : Bool
  hasOnMatch : Bool
  cancelled : Bool
  subscribed : Bool
  retainSelf : Bool
  /-- Shared pointers besides the awaiter's own and those of `handle_event`. -/
  holders : Nat
  /-- All calls that have begun. -/
  calls : List Call
  /-- How often the callback has been called. -/
  invocations : Nat

namespace EventAwaiter

/-- An awaiter when `create` has subscribed it. -/
def create (singleShot hasPredicate hasOnMatch : Bool) : EventAwaiter :=
  { singleShot, hasPredicate, hasOnMatch
    cancelled := false
    subscribed := true
    retainSelf := singleShot
    holders := 1
    calls := []
    invocations := 0 }

/-- Some shared pointer keeps the awaiter. -/
def alive (s : EventAwaiter) : Bool := s.retainSelf || 0 < s.holders || s.calls.any (·.holds)

/-- What `handle_event` goes on to when it has passed `cancel`. -/
def onMatch (s : EventAwaiter) : Call := if s.hasOnMatch then .calling else .handled

/-- What `handle_event` goes on to when the predicate is true. -/
def matched (s : EventAwaiter) : Call := if s.singleShot then .cancelling .entered else s.onMatch

/-- The next atomic operation of `cancel`, and where it leaves the call: `none` when it returns. -/
def cancelStep (s : EventAwaiter) : CancelStage → EventAwaiter × Option CancelStage
  | .entered => if s.cancelled then (s, none) else ({ s with cancelled := true }, some .unsubscribing)
  | .unsubscribing => ({ s with subscribed := false }, some .resetting)
  | .resetting => ({ s with retainSelf := false }, none)

def goOn (s : EventAwaiter) (i : Nat) (call : Call) : EventAwaiter := { s with calls := s.calls.set i call }

def advance (s : EventAwaiter) (i : Nat) : EventAwaiter × List Notice :=
  match s.calls[i]? with
  | some .dispatched => (s.goOn i (if s.alive then .locked else .handled), [])
  | some .locked =>
      (s.goOn i (if s.cancelled then .handled else if s.hasPredicate then .predicate else s.matched), [])
  | some (.cancelling stage) =>
      ((s.cancelStep stage).1.goOn i (((s.cancelStep stage).2.map .cancelling).getD s.onMatch), [])
  | some .calling => ({ s with invocations := s.invocations + 1 }.goOn i .running, [.invoked i])
  | some (.cancel stage) =>
      ((s.cancelStep stage).1.goOn i (((s.cancelStep stage).2.map .cancel).getD .cancelReturned), [])
  | some .predicate | some .running | some .handled | some .cancelReturned | none => (s, [])

def step (s : EventAwaiter) : Event → EventAwaiter × List Notice
  | .notify => (if s.subscribed then { s with calls := s.calls ++ [.dispatched] } else s, [])
  | .cancel => ({ s with calls := s.calls ++ [.cancel .entered] }, [])
  | .advance i => s.advance i
  | .predicateEnds i matched =>
      (if s.calls[i]? = some .predicate then s.goOn i (if matched then s.matched else .handled) else s, [])
  | .callbackEnds i => (if s.calls[i]? = some .running then s.goOn i .handled else s, [])
  | .hold => (if s.alive then { s with holders := s.holders + 1 } else s, [])
  | .release => ({ s with holders := s.holders - 1 }, [])

end EventAwaiter

end OptionX.Utils
