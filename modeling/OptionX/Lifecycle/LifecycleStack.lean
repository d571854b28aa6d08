import OptionX.Lib.Run

/-!
# The lifecycle stack

`ILifecycleModule.hpp` and `LifecycleStack.hpp`. The stack knows modules by reference; the modules themselves, with
whatever they share, are one joint state on which the calls of a module act.
-/

namespace OptionX.Lifecycle

/-- The modules of an application. A call of one may change all of them, and so may the time between two calls on the
stack; a module that has stopped stays stopped. -/
structure Modules (ι σ : Type) where
  process : ι → σ → σ
  shutdown : ι → σ → σ
  elapse : σ → σ
  isStopped : ι → σ → Bool
  process_stopped : ∀ i j w, isStopped j w = true → isStopped j (process i w) = true
  shutdown_stopped : ∀ i j w, isStopped j w = true → isStopped j (shutdown i w) = true
  elapse_stopped : ∀ j w, isStopped j w = true → isStopped j (elapse w) = true

/-- A call of the stack to a module, and the state of the modules at the time. -/
inductive Call (ι σ : Type) where
  | process (module : ι) (at_ : σ)
  | shutdown (module : ι) (at_ : σ)

structure LifecycleStack (ι : Type) where
  modules : List ι := []
  shutdownCursor : Nat := 0
  shutdownRequested : Bool := false
  currentShutdownRequested : Bool := false
  stopped : Bool := false

namespace LifecycleStack

variable {ι σ : Type}

/-- `add_module`; `self` is the reference to the stack. -/
def addModule [DecidableEq ι] (self module : ι) (s : LifecycleStack ι) : LifecycleStack ι × Bool :=
  if s.shutdownRequested || module = self then (s, false)
  else if module ∈ s.modules then (s, false)
  else ({ s with modules := s.modules ++ [module] }, true)

/-- The loop of `process` over the modules. -/
def processModules (M : Modules ι σ) : List ι → σ → σ × List (Call ι σ)
  | [], w => (w, [])
  | i :: is, w =>
      if M.isStopped i w then processModules M is w
      else
        let r := processModules M is (M.process i w)
        (r.1, .process i w :: r.2)

/-- `advance_shutdown`. Where the current module has already been asked, it is still the state in which it was found
running that its second question is about. -/
def advanceShutdown (M : Modules ι σ) (s : LifecycleStack ι) (w : σ) : LifecycleStack ι × σ × List (Call ι σ) :=
  match _hcursor : s.shutdownCursor with
  | 0 => ({ s with stopped := true }, w, [])
  | n + 1 =>
      let next := { s with shutdownCursor := n, currentShutdownRequested := false }
      match s.modules[n]? with
      | none => advanceShutdown M next w
      | some i =>
          if M.isStopped i w then advanceShutdown M next w
          else if s.currentShutdownRequested then (s, w, [])
          else
            let asked := M.shutdown i w
            let r :=
              if M.isStopped i asked then advanceShutdown M next asked
              else ({ s with currentShutdownRequested := true }, asked, [])
            (r.1, r.2.1, .shutdown i w :: r.2.2)
termination_by s.shutdownCursor

/-- The modules that `process` goes through. -/
def turn (s : LifecycleStack ι) : List ι :=
  s.modules.take (if s.shutdownRequested then s.shutdownCursor else s.modules.length)

def process (M : Modules ι σ) (s : LifecycleStack ι) (w : σ) : LifecycleStack ι × σ × List (Call ι σ) :=
  if s.stopped then (s, w, [])
  else
    let p := processModules M s.turn w
    if s.shutdownRequested then
      let r := s.advanceShutdown M p.1
      (r.1, r.2.1, p.2 ++ r.2.2)
    else (s, p)

def shutdown (M : Modules ι σ) (s : LifecycleStack ι) (w : σ) : LifecycleStack ι × σ × List (Call ι σ) :=
  if s.stopped || s.shutdownRequested then (s, w, [])
  else advanceShutdown M { s with shutdownRequested := true, shutdownCursor := s.modules.length } w

inductive Event (ι : Type) where
  | addModule (module : ι)
  | process
  | shutdown
  /-- The modules go on by themselves. -/
  | elapse
  deriving DecidableEq

/-- The stack and its modules. -/
structure Run (ι σ : Type) where
  stack : LifecycleStack ι
  world : σ

def step [DecidableEq ι] (M : Modules ι σ) (self : ι) (s : Run ι σ) : Event ι → Run ι σ × List (Call ι σ)
  | .addModule module => (⟨(s.stack.addModule self module).1, s.world⟩, [])
  | .process =>
      let r := s.stack.process M s.world
      (⟨r.1, r.2.1⟩, r.2.2)
  | .shutdown =>
      let r := s.stack.shutdown M s.world
      (⟨r.1, r.2.1⟩, r.2.2)
  | .elapse => (⟨s.stack, M.elapse s.world⟩, [])

end LifecycleStack

end OptionX.Lifecycle
