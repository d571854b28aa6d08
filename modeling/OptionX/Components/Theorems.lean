import OptionX.Components.Lemmas.Hub

/-!
# The hubs

What the subscribers of a hub have been told when all calls have returned.
-/

namespace OptionX.Components

open Lib.Run (exec trace)
open TradingConditionUpdate (cachedUpdates)

namespace Hub

variable {ι σ υ : Type} [DecidableEq ι] (R : Retention σ υ)

/-- All that a hub says in a run. -/
def notices (es : List (Event ι υ)) : List (Notice ι υ) := (trace (step R) (create R true) es).flatMap (·.answer)

/-- Every step of a run finds the calls marshalled. -/
def MarshalledRun (es : List (Event ι υ)) : Prop :=
  ∀ t ∈ trace (step R) (create R true) es, Marshalled t.before t.event

theorem nodup_run (es : List (Event ι υ)) : (exec (step R) (create R true) es).subscribers.Nodup :=
  Lib.Run.exec_induct (I := fun s : Hub ι σ υ => s.subscribers.Nodup) (fun _ e h => step_nodup h e)
    (show (create R true : Hub ι σ υ).subscribers.Nodup from .nil) es

theorem invokes_run (es : List (Event ι υ)) : Invokes (notices R es) (exec (step R) (create R true) es) := by
  induction es using List.reverseRecOn with
  | nil => exact ⟨fun _ _ h => (by cases h), fun _ _ => ⟨rfl, fun _ h => (by cases h)⟩⟩
  | append_singleton es e ih =>
      have hns : notices R (es ++ [e]) = notices R es ++ (step R (exec (step R) (create R true) es) e).2 := by
        simp [notices, Lib.Run.trace_append]
      rw [hns, Lib.Run.exec_append es [e]]
      exact ih.step e

theorem orderly_run (hR : R.Faithful) {es : List (Event ι υ)} (h : MarshalledRun R es) :
    Orderly R (exec (step R) (create R true) es) := by
  suffices hs : (exec (step R) (create R true) es).subscribers.Nodup ∧ Orderly R (exec (step R) (create R true) es)
    from hs.2
  refine Lib.Run.history_induct (H := fun _ s => s.subscribers.Nodup ∧ Orderly R s)
    (C := fun t => Marshalled t.before t.event) (fun _ s e hs hc => ⟨step_nodup hs.1 e, hs.2.step hR hs.1 hc⟩) ?_ h
  exact ⟨.nil, rfl, ⟨[], rfl⟩, fun _ hi => by cases hi⟩

/-- A subscriber that is registered when all calls have returned has been told what the hub keeps. -/
theorem told_run (hR : R.Faithful) {es : List (Event ι υ)} (h : MarshalledRun R es)
    (hreturned : (exec (step R) (create R true) es).Returned) {i : ι}
    (hi : i ∈ (exec (step R) (create R true) es).subscribers) :
    ((exec (step R) (create R true) es).received i).foldl R.keep R.empty =
      (exec (step R) (create R true) es).cache := by
  have hdue : (exec (step R) (create R true) es).due i = [] :=
    List.flatMap_eq_nil_iff.mpr fun c hc => by rw [hreturned c hc, dueIn_nil]
  have hview := ((orderly_run R hR h).followed i hi).view
  rwa [hdue, List.append_nil] at hview

/-- What a call of `publish` lists. -/
theorem published_step {s : Hub ι σ υ} (hs : s.subscribers.Nodup) {u : υ} {call : Nat} {ds : List (Delivery ι υ)}
    (h : .listed call ds ∈ (step R s (.publish u)).2) :
    (ds.map (·.subscriber)).Nodup ∧ ∀ d ∈ ds, d.update = u := by
  simp only [step, publish, List.mem_singleton, Notice.listed.injEq] at h
  obtain ⟨-, rfl⟩ := h
  refine ⟨?_, fun d hd => ?_⟩
  · rw [List.map_map]
    simpa [Function.comp_def] using pruned_nodup hs
  · obtain ⟨i, -, rfl⟩ := List.mem_map.mp hd
    rfl

end Hub

theorem AccountInfoHub.faithful (υ : Type) : (AccountInfoHub.retention υ).Faithful := by
  intro us
  cases us.foldl (AccountInfoHub.retention υ).keep (AccountInfoHub.retention υ).empty <;> rfl

theorem AccountInfoHub.foldl_keep {υ : Type} (us : List υ) :
    us.foldl (AccountInfoHub.retention υ).keep (AccountInfoHub.retention υ).empty = us.getLast? := by
  induction us using List.reverseRecOn with
  | nil => rfl
  | append_singleton us u ih => simp [AccountInfoHub.retention]

theorem TradingConditionHub.faithful (F : Type) : (TradingConditionHub.retention F).Faithful :=
  TradingConditionUpdate.cachedUpdates_idem

open Hub in
/-- The first of two subscribers publishes from inside its callback. -/
def nestedRun : List (Event Nat Nat) :=
  [.addSubscriber 1, .addSubscriber 2, .publish 10, .deliver 2, .publish 20, .deliver 3, .deliver 3, .deliver 2]

open Hub in
/-- A subscriber is removed and added again. -/
def returningRun : List (Event Nat Nat) :=
  [.addSubscriber 1, .publish 10, .deliver 1, .removeSubscriber 1, .addSubscriber 1, .deliver 2]

end OptionX.Components
