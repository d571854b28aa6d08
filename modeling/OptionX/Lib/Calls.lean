import Mathlib.Data.List.Basic

/-!
# Calls in progress

The calls that threads have begun and not yet returned from: at most one for each thread, each at a stage of its
own. A step of one thread changes the stage of its call, or ends it, and leaves the others.
-/

namespace Lib

structure Frame (T α : Type) where
  thread : T
  stage : α
  deriving DecidableEq

namespace Calls

variable {T α : Type}

/-- Where a numbered call stands among the others, and what becomes of them all when it goes on. -/
theorem getElem?_split {calls : List α} {i : Nat} {a : α} (h : calls[i]? = some a) :
    ∃ pre post, calls = pre ++ [a] ++ post ∧ ∀ b, calls.set i b = pre ++ [b] ++ post := by
  obtain ⟨hi, ha⟩ := List.getElem?_eq_some_iff.mp h
  refine ⟨calls.take i, calls.drop (i + 1), ?_, fun b => ?_⟩
  · rw [← List.append_cons, ← ha, List.getElem_cons_drop, List.take_append_drop]
  · rw [← List.append_cons, List.set_eq_take_append_cons_drop, if_pos hi]

/-- Each thread has one call at most. -/
def Distinct (calls : List (Frame T α)) : Prop := (calls.map (·.thread)).Nodup

variable [DecidableEq T]

/-- The stage of a thread's call. -/
def stageOf (t : T) : List (Frame T α) → Option α
  | [] => none
  | f :: fs => if f.thread = t then some f.stage else stageOf t fs

/-- A thread's call goes on to a stage, or returns. -/
def goOn (t : T) (stage : Option α) : List (Frame T α) → List (Frame T α)
  | [] => []
  | f :: fs => if f.thread = t then (stage.map (Frame.mk t)).toList ++ fs else f :: goOn t stage fs

variable {t : T} {calls : List (Frame T α)} {stage : α}

/-- Where a thread's call stands among the others, and what becomes of them all. -/
theorem split (h : stageOf t calls = some stage) :
    ∃ pre post, calls = pre ++ ⟨t, stage⟩ :: post ∧
      ∀ stage' : Option α, goOn t stage' calls = pre ++ (stage'.map (Frame.mk t)).toList ++ post := by
  induction calls with
  | nil => cases h
  | cons f fs ih =>
      rw [stageOf] at h
      by_cases ht : f.thread = t
      · rw [if_pos ht] at h
        refine ⟨[], fs, ?_, fun stage' => by simp [goOn, ht]⟩
        obtain ⟨thread, s⟩ := f
        cases ht
        cases h
        rfl
      · rw [if_neg ht] at h
        obtain ⟨pre, post, rfl, hgo⟩ := ih h
        exact ⟨f :: pre, post, rfl, fun stage' => by simp [goOn, ht, hgo]⟩

theorem stageOf_eq_none : stageOf t calls = none ↔ ∀ f ∈ calls, f.thread ≠ t := by
  induction calls with
  | nil => simp [stageOf]
  | cons f fs ih => by_cases ht : f.thread = t <;> simp [stageOf, ht, ih]

theorem stageOf_mem (h : stageOf t calls = some stage) : ⟨t, stage⟩ ∈ calls := by
  obtain ⟨pre, post, rfl, -⟩ := split h
  exact List.mem_append_right _ List.mem_cons_self

/-- The calls of the other threads go on as they were. -/
theorem mem_goOn (h : stageOf t calls = some stage) {stage' : Option α} {f : Frame T α}
    (hf : f ∈ goOn t stage' calls) : f ∈ calls ∨ ∃ s, stage' = some s ∧ f = ⟨t, s⟩ := by
  obtain ⟨pre, post, rfl, hgo⟩ := split h
  rw [hgo] at hf
  cases stage' with
  | none => exact .inl (by simpa using (by simpa using hf : f ∈ pre ∨ f ∈ post).imp_right .inr)
  | some s =>
      rcases (by simpa using hf : f ∈ pre ∨ f = ⟨t, s⟩ ∨ f ∈ post) with hf | rfl | hf
      · exact .inl (by simp [hf])
      · exact .inr ⟨s, rfl, rfl⟩
      · exact .inl (by simp [hf])

theorem Distinct.begin (h : Distinct calls) (ht : stageOf t calls = none) :
    Distinct (calls ++ [⟨t, stage⟩]) := by
  rw [Distinct, List.map_append, List.nodup_append]
  refine ⟨h, by simp, fun a ha b hb => ?_⟩
  obtain ⟨f, hf, rfl⟩ := List.mem_map.mp ha
  rw [List.mem_singleton.mp hb]
  exact stageOf_eq_none.mp ht f hf

theorem Distinct.goOn (h : Distinct calls) (ht : stageOf t calls = some stage) (stage' : Option α) :
    Distinct (Calls.goOn t stage' calls) := by
  obtain ⟨pre, post, rfl, hgo⟩ := split ht
  rw [hgo]
  cases stage' <;> simp_all [Distinct, List.nodup_append]

/-- The calls of the other threads, before a thread's call and after it. -/
theorem Distinct.split (h : Distinct calls) (ht : stageOf t calls = some stage) :
    ∃ pre post, calls = pre ++ ⟨t, stage⟩ :: post ∧ (∀ f ∈ pre ++ post, f.thread ≠ t) ∧
      ∀ stage' : Option α, Calls.goOn t stage' calls = pre ++ (stage'.map (Frame.mk t)).toList ++ post := by
  obtain ⟨pre, post, rfl, hgo⟩ := Calls.split ht
  refine ⟨pre, post, rfl, fun f hf heq => ?_, hgo⟩
  rw [Distinct, List.map_append, List.map_cons] at h
  refine (List.nodup_cons.mp (List.perm_middle.nodup_iff.mp h)).1 ?_
  rw [← List.map_append]
  exact List.mem_map.mpr ⟨f, hf, heq⟩

/-- After a step the other calls are those of the other threads. -/
theorem Distinct.mem_goOn (h : Distinct calls) (ht : stageOf t calls = some stage) {stage' : Option α} {f : Frame T α}
    (hf : f ∈ Calls.goOn t stage' calls) : f ∈ calls ∧ f.thread ≠ t ∨ ∃ s, stage' = some s ∧ f = ⟨t, s⟩ := by
  obtain ⟨pre, post, rfl, hothers, hgo⟩ := h.split ht
  have hold : f ∈ pre ++ post → f ∈ pre ++ ⟨t, stage⟩ :: post ∧ f.thread ≠ t := by
    intro hmem
    refine ⟨?_, hothers f hmem⟩
    rcases List.mem_append.mp hmem with hmem | hmem
    · exact List.mem_append_left _ hmem
    · exact List.mem_append_right _ (List.mem_cons_of_mem _ hmem)
  rw [hgo] at hf
  cases stage' with
  | none => exact .inl (hold (by simpa using hf))
  | some s =>
      rcases (by simpa using hf : f ∈ pre ∨ f = ⟨t, s⟩ ∨ f ∈ post) with hf | hf | hf
      · exact .inl (hold (List.mem_append_left _ hf))
      · exact .inr ⟨s, rfl, hf⟩
      · exact .inl (hold (List.mem_append_right _ hf))

theorem mem_goOn_self (h : stageOf t calls = some stage) {s : α} : ⟨t, s⟩ ∈ goOn t (some s) calls := by
  obtain ⟨pre, post, rfl, hgo⟩ := split h
  rw [hgo]
  simp

theorem mem_goOn_of_ne (h : stageOf t calls = some stage) {stage' : Option α} {f : Frame T α} (hf : f ∈ calls)
    (hne : f ≠ ⟨t, stage⟩) : f ∈ goOn t stage' calls := by
  obtain ⟨pre, post, rfl, hgo⟩ := split h
  rw [hgo]
  rcases (by simpa using hf : f ∈ pre ∨ f = ⟨t, stage⟩ ∨ f ∈ post) with hf | hf | hf
  · simp [hf]
  · exact absurd hf hne
  · simp [hf]

end Calls

end Lib
