import Mathlib

/-!
# Runs of a state machine

A machine is a function `step` from a state and an event to the next state and an answer. A run is a list
of events; `exec` is the state after it and `trace` the steps it takes.
-/

namespace Lib

/-- One executed step. -/
structure Step (σ ε ρ : Type) where
  before : σ
  event : ε
  answer : ρ
  after : σ

namespace Run

variable {σ ε ρ : Type}

/-- The step that `step` takes in state `s` at event `e`. -/
def stepOf (step : σ → ε → σ × ρ) (s : σ) (e : ε) : Step σ ε ρ :=
  ⟨s, e, (step s e).2, (step s e).1⟩

def exec (step : σ → ε → σ × ρ) (s : σ) : List ε → σ
  | [] => s
  | e :: es => exec step (step s e).1 es

def trace (step : σ → ε → σ × ρ) (s : σ) : List ε → List (Step σ ε ρ)
  | [] => []
  | e :: es => stepOf step s e :: trace step (step s e).1 es

variable {step : σ → ε → σ × ρ} {s : σ} {e : ε} {es : List ε}

@[simp] theorem stepOf_before : (stepOf step s e).before = s := rfl
@[simp] theorem stepOf_event : (stepOf step s e).event = e := rfl
@[simp] theorem stepOf_answer : (stepOf step s e).answer = (step s e).2 := rfl
@[simp] theorem stepOf_after : (stepOf step s e).after = (step s e).1 := rfl

@[simp] theorem exec_nil : exec step s [] = s := rfl
@[simp] theorem exec_cons : exec step s (e :: es) = exec step (step s e).1 es := rfl
@[simp] theorem trace_nil : trace step s [] = [] := rfl
@[simp] theorem trace_cons :
    trace step s (e :: es) = stepOf step s e :: trace step (step s e).1 es := rfl

theorem exec_append (es es' : List ε) : exec step s (es ++ es') = exec step (exec step s es) es' := by
  induction es generalizing s with
  | nil => rfl
  | cons e es ih => exact ih

theorem trace_append (es es' : List ε) :
    trace step s (es ++ es') = trace step s es ++ trace step (exec step s es) es' := by
  induction es generalizing s with
  | nil => rfl
  | cons e es ih => simp [ih]

/-- A step of a trace is taken in the state that the events before it lead to. -/
theorem mem_trace {t : Step σ ε ρ} (h : t ∈ trace step s es) :
    ∃ pre e post, es = pre ++ e :: post ∧ t = stepOf step (exec step s pre) e := by
  induction es generalizing s with
  | nil => simp at h
  | cons e es ih =>
      rcases List.mem_cons.mp h with rfl | h
      · exact ⟨[], e, es, rfl, rfl⟩
      · obtain ⟨pre, e', post, rfl, ht⟩ := ih h
        exact ⟨e :: pre, e', post, rfl, ht⟩

/-- A property that every step keeps holds after every run. -/
theorem exec_induct {I : σ → Prop} (hstep : ∀ s e, I s → I (step s e).1) (h : I s)
    (es : List ε) : I (exec step s es) := by
  induction es generalizing s with
  | nil => exact h
  | cons e es ih => exact ih (hstep s e h)

/-- The induction rule for properties of the whole history: `H` relates the steps taken so far to the
state they lead to, and each step that meets `C` extends it. -/
theorem history_induct {H : List (Step σ ε ρ) → σ → Prop} {C : Step σ ε ρ → Prop}
    (hstep : ∀ ts s e, H ts s → C (stepOf step s e) → H (ts ++ [stepOf step s e]) (step s e).1)
    (h : H [] s) {es : List ε} (hc : ∀ t ∈ trace step s es, C t) :
    H (trace step s es) (exec step s es) := by
  suffices ∀ ts, H ts s → H (ts ++ trace step s es) (exec step s es) from this [] h
  clear h
  induction es generalizing s with
  | nil => intro ts h; simpa using h
  | cons e es ih =>
      intro ts h
      have hs := hstep ts s e h (hc _ (by simp))
      have := ih (fun t ht => hc t (by simp [ht])) _ hs
      simpa using this

/-- `history_induct` for runs without a condition on their steps. -/
theorem history_induct' {H : List (Step σ ε ρ) → σ → Prop}
    (hstep : ∀ ts s e, H ts s → H (ts ++ [stepOf step s e]) (step s e).1)
    (h : H [] s) (es : List ε) : H (trace step s es) (exec step s es) :=
  history_induct (C := fun _ => True) (fun ts s e hh _ => hstep ts s e hh) h (fun _ _ => trivial)

/-- What holds of each step taken in a state with an inductive invariant holds of every step of a run. -/
theorem forall_trace {I : σ → Prop} {P : Step σ ε ρ → Prop}
    (hstep : ∀ s e, I s → I (step s e).1) (hP : ∀ s e, I s → P (stepOf step s e))
    (h : I s) (es : List ε) : ∀ t ∈ trace step s es, P t := by
  intro t ht
  obtain ⟨pre, e, _, _, rfl⟩ := mem_trace ht
  exact hP _ _ (exec_induct hstep h pre)

/-- Where a condition keeps an invariant in which it decides a property of the step, the property holds of every step
of a run exactly when the condition does. -/
theorem forall_trace_iff {I : σ → Prop} {P C : Step σ ε ρ → Prop}
    (hiff : ∀ s e, I s → (P (stepOf step s e) ↔ C (stepOf step s e)))
    (hstep : ∀ s e, I s → C (stepOf step s e) → I (step s e).1) (h : I s) (es : List ε) :
    (∀ t ∈ trace step s es, P t) ↔ ∀ t ∈ trace step s es, C t := by
  induction es generalizing s with
  | nil => simp
  | cons e es ih =>
      rw [trace_cons, List.forall_mem_cons, List.forall_mem_cons, hiff s e h]
      exact and_congr_right fun hc => ih (hstep s e h hc)

/-- An invariant that the condition on a step, which may look at the events before it, keeps holds all the way. -/
theorem exec_before {I : σ → Prop} {C : List ε → ε → Prop}
    (hstep : ∀ before e, I (exec step s before) → C before e → I (step (exec step s before) e).1) (h : I s)
    (hc : ∀ before e later, es = before ++ e :: later → I (exec step s before) → C before e) {before later : List ε}
    (hes : es = before ++ later) : I (exec step s before) := by
  induction before using List.reverseRecOn generalizing later with
  | nil => exact h
  | append_singleton before e ih =>
      have hes' : es = before ++ e :: later := by simpa using hes
      have hbefore := ih hes'
      rw [exec_append]
      exact hstep before e hbefore (hc before e later hes' hbefore)

/-- `forall_trace_iff` for a property and a condition that look at the events before the step. -/
theorem forall_before_iff {I : σ → Prop} {P C : List ε → ε → Prop}
    (hiff : ∀ before e, I (exec step s before) → (P before e ↔ C before e))
    (hstep : ∀ before e, I (exec step s before) → C before e → I (step (exec step s before) e).1) (h : I s) (es : List ε) :
    (∀ before e later, es = before ++ e :: later → P before e) ↔
      ∀ before e later, es = before ++ e :: later → C before e := by
  constructor
  · intro hp before e later hes
    have hbefore := exec_before hstep h (fun pre e' post hes' hpre => (hiff pre e' hpre).mp (hp pre e' post hes')) hes
    exact (hiff before e hbefore).mp (hp before e later hes)
  · intro hc before e later hes
    have hbefore := exec_before hstep h (fun pre e' post hes' _ => hc pre e' post hes') hes
    exact (hiff before e hbefore).mpr (hc before e later hes)

/-- The first `n` events of an endless run. -/
def first (es : Nat → ε) (n : Nat) : List ε := (List.range n).map es

@[simp] theorem first_zero (es : Nat → ε) : first es 0 = [] := rfl

theorem first_succ (es : Nat → ε) (n : Nat) : first es (n + 1) = first es n ++ [es n] := by
  simp [first, List.range_succ]

end Run

end Lib
