import OptionX.Components.TradingConditionUpdate
import OptionX.Lib.Run

/-!
# The account info hub and the trading condition hub

`AccountInfoHub.hpp` and `TradingConditionHub.hpp` are one hub that keeps different things of the updates. A call
that adds a subscriber or publishes has one section under the mutex, which lists the callbacks to invoke; they are
invoked afterwards, each in a step of its own, with sections and callbacks of other calls in between. A call made from
inside a callback is a further call.
-/

namespace OptionX.Components

namespace Hub

/-- What a hub keeps of the updates and what a new subscriber is told. -/
structure Retention (σ υ : Type) where
  empty : σ
  keep : σ → υ → σ
  replay : σ → List υ

/-- A callback to invoke. -/
structure Delivery (ι υ : Type) where
  subscriber : ι
  update : υ
  deriving DecidableEq

inductive Event (ι υ : Type) where
  /-- `add_subscriber` or `add_weak_subscriber`, up to the end of its section. -/
  | addSubscriber (subscriber : ι)
  | removeSubscriber (subscriber : ι)
  | clearSubscribers
  /-- `publish`, up to the end of its section. -/
  | publish (update : υ)
  /-- `clear_last_update` or `clear_cached_updates`. -/
  | clearCache
  /-- The call with this number invokes its next callback. -/
  | deliver (call : Nat)
  /-- The last owner of a subscriber gives it up. -/
  | expire (subscriber : ι)

inductive Notice (ι υ : Type) where
  /-- The section of a call has listed its callbacks. -/
  | listed (call : Nat) (deliveries : List (Delivery ι υ))
  | delivered (call : Nat) (delivery : Delivery ι υ)
  deriving DecidableEq

end Hub

open Hub in
structure Hub (ι σ υ : Type) where
  replayToNewSubscribers : Bool
  cache : σ
  subscribers : List ι := []
  /-- Subscribers that no longer exist. -/
  expired : List ι := []
  /-- The callbacks that each call has yet to invoke. -/
  calls : List (List (Delivery ι υ)) := []
  /-- What each subscriber has been told since it was last registered. -/
  received : ι → List υ := fun _ => []

namespace Hub

variable {ι σ υ : Type} [DecidableEq ι] (R : Retention σ υ)

/-- `prune_expired_no_lock`. -/
def pruned (s : Hub ι σ υ) : List ι := s.subscribers.filter (· ∉ s.expired)

def addSubscriber (s : Hub ι σ υ) (i : ι) : Hub ι σ υ × List (Notice ι υ) :=
  if i ∈ s.expired then (s, [])
  else if i ∈ s.pruned then ({ s with subscribers := s.pruned }, [])
  else
    let replayed := if s.replayToNewSubscribers then (R.replay s.cache).map (Delivery.mk i) else []
    ({ s with
      subscribers := s.pruned ++ [i]
      calls := s.calls ++ [replayed]
      received := Function.update s.received i [] }, [.listed s.calls.length replayed])

def publish (s : Hub ι σ υ) (update : υ) : Hub ι σ υ × List (Notice ι υ) :=
  let deliveries := s.pruned.map (Delivery.mk · update)
  ({ s with
    cache := R.keep s.cache update
    subscribers := s.pruned
    calls := s.calls ++ [deliveries] }, [.listed s.calls.length deliveries])

def deliver (s : Hub ι σ υ) (call : Nat) : Hub ι σ υ × List (Notice ι υ) :=
  match s.calls[call]? with
  | some (delivery :: rest) =>
      ({ s with
        calls := s.calls.set call rest
        received := Function.update s.received delivery.subscriber
          (s.received delivery.subscriber ++ [delivery.update]) }, [.delivered call delivery])
  | some [] | none => (s, [])

def step (s : Hub ι σ υ) : Event ι υ → Hub ι σ υ × List (Notice ι υ)
  | .addSubscriber i => s.addSubscriber R i
  | .removeSubscriber i => ({ s with subscribers := s.pruned.filter (· ≠ i) }, [])
  | .clearSubscribers => ({ s with subscribers := [] }, [])
  | .publish update => s.publish R update
  | .clearCache => ({ s with cache := R.empty }, [])
  | .deliver call => s.deliver call
  -- a call that has yet to invoke it owns it too
  | .expire i =>
      (if ∃ d ∈ s.calls.flatten, d.subscriber = i then s else { s with expired := i :: s.expired }, [])

/-- A new hub. -/
def create (replayToNewSubscribers : Bool) : Hub ι σ υ := { replayToNewSubscribers, cache := R.empty }

/-- All calls have returned. -/
def Returned (s : Hub ι σ υ) : Prop := ∀ call ∈ s.calls, call = []

end Hub

/-- `AccountInfoHub` keeps the last update. -/
def AccountInfoHub.retention (υ : Type) : Hub.Retention (Option υ) υ where
  empty := none
  keep _ update := some update
  replay := Option.toList

abbrev AccountInfoHub (ι υ : Type) := Hub ι (Option υ) υ

/-- `TradingConditionHub` keeps the merged update of each scope. -/
def TradingConditionHub.retention (F : Type) :
    Hub.Retention (List (TradingConditionUpdate F)) (TradingConditionUpdate F) where
  empty := []
  keep := TradingConditionUpdate.upsertCachedUpdate
  replay := id

abbrev TradingConditionHub (ι F : Type) := Hub ι (List (TradingConditionUpdate F)) (TradingConditionUpdate F)

end OptionX.Components
