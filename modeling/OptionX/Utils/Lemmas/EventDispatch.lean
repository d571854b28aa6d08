import OptionX.Utils.Lemmas.EventBus

/-!
# Dispatches of the event bus

Each dispatch works on the copy it has taken: what it has started and what it has yet to call are that copy.
-/

namespace OptionX.Utils

namespace EventBus

variable {ι κ : Type} {s : EventBus ι κ} {e : Event ι κ} {type : κ} {ns : List (Notice ι κ)}

def Notice.startedBy? (d : Nat) : Notice ι κ → Option (Handler ι)
  | .started d' _ h => if d' = d then some h else none
  | .began .. | .ended _ => none

/-- The handlers that a dispatch has started, in order. -/
def startedBy (d : Nat) (ns : List (Notice ι κ)) : List (Handler ι) := ns.filterMap (Notice.startedBy? d)

def Frame.dispatch? : Frame ι κ → Option Nat
  | .dispatch d _ _ => some d
  | .handler _ | .pump .. => none

/-- What the notices `ns` of a run and the calls in progress say of each other. -/
structure Dispatches (ns : List (Notice ι κ)) (s : EventBus ι κ) : Prop where
  known : ∀ d type hs, .began d type hs ∈ ns → d < s.dispatchCount
  unique : ∀ d type hs type' hs', .began d type hs ∈ ns → .began d type' hs' ∈ ns → type = type' ∧ hs = hs'
  started : ∀ d type h, .started d type h ∈ ns → ∃ hs, .began d type hs ∈ ns ∧ h ∈ hs
  ended : ∀ d, .ended d ∈ ns → ∀ type hs, .began d type hs ∈ ns → startedBy d ns = hs
  endedKnown : ∀ d, .ended d ∈ ns → d < s.dispatchCount
  inOrder : ∀ d type hs, .began d type hs ∈ ns → startedBy d ns <+: hs
  running : ∀ d type todo, .dispatch d type todo ∈ s.stack →
    .ended d ∉ ns ∧ ∃ hs, .began d type hs ∈ ns ∧ hs = startedBy d ns ++ todo
  distinct : (s.stack.filterMap Frame.dispatch?).Nodup

theorem Dispatches.empty : Dispatches [] ({} : EventBus ι κ) :=
  ⟨fun _ _ _ h => (by cases h), fun _ _ _ _ _ h => (by cases h), fun _ _ _ h => (by cases h), fun _ h => (by cases h),
    fun _ h => (by cases h), fun _ _ _ h => (by cases h), fun _ _ _ h => (by cases h), .nil⟩

/-- Calls of other kinds may come and go. -/
theorem Dispatches.congr (h : Dispatches ns s) {s' : EventBus ι κ}
    (hs : ∀ f ∈ s'.stack, f.dispatch? = none ∨ f ∈ s.stack)
    (hd : (s'.stack.filterMap Frame.dispatch?).Sublist (s.stack.filterMap Frame.dispatch?))
    (hc : s'.dispatchCount = s.dispatchCount) : Dispatches ns s' := by
  refine { h with
    known := fun d type hs hb => hc ▸ h.known d type hs hb
    endedKnown := fun d he => hc ▸ h.endedKnown d he
    running := fun d type todo hmem => ?_
    distinct := h.distinct.sublist hd }
  rcases hs _ hmem with hnone | hmem
  · cases hnone
  · exact h.running d type todo hmem

theorem Dispatches.shrink (h : Dispatches ns s) {s' : EventBus ι κ} (hs : s'.stack.Sublist s.stack)
    (hc : s'.dispatchCount = s.dispatchCount) : Dispatches ns s' :=
  h.congr (fun _ hf => .inr (hs.subset hf)) (hs.filterMap _) hc

@[simp] theorem startedBy_append (d : Nat) (ns ns' : List (Notice ι κ)) :
    startedBy d (ns ++ ns') = startedBy d ns ++ startedBy d ns' := List.filterMap_append

@[simp] theorem startedBy_began (d d' : Nat) (type : κ) (hs : List (Handler ι)) :
    startedBy d [.began d' type hs] = [] := rfl

@[simp] theorem startedBy_ended (d d' : Nat) : startedBy d [(.ended d' : Notice ι κ)] = [] := rfl

@[simp] theorem startedBy_self (d : Nat) (type : κ) (h : Handler ι) : startedBy d [.started d type h] = [h] := by
  simp [startedBy, Notice.startedBy?]

theorem startedBy_of_ne {d d' : Nat} (hne : d' ≠ d) (type : κ) (h : Handler ι) :
    startedBy d [.started d' type h] = [] := by
  simp [startedBy, Notice.startedBy?, hne]

/-- A dispatch that has not begun has started nothing. -/
theorem Dispatches.not_started (h : Dispatches ns s) {d : Nat} (hd : s.dispatchCount ≤ d) : startedBy d ns = [] := by
  refine List.filterMap_eq_nil_iff.mpr fun n hn => ?_
  cases n with
  | began | ended => rfl
  | started d' type handler =>
      obtain ⟨hs, hb, -⟩ := h.started d' type handler hn
      have := h.known d' type hs hb
      exact if_neg (by omega)

theorem Dispatches.notify (h : Dispatches ns s) (type : κ) :
    Dispatches (ns ++ (s.notify type).2) (s.notify type).1 := by
  have hfresh := h.not_started (Nat.le_refl s.dispatchCount)
  simp only [EventBus.notify]
  constructor
  · intro d type' hs hb
    rcases List.mem_append.mp hb with hb | hb
    · exact Nat.lt_succ_of_lt (h.known d type' hs hb)
    · cases List.mem_singleton.mp hb
      exact Nat.lt_succ_self _
  · intro d type' hs type'' hs' hb hb'
    rcases List.mem_append.mp hb with hb | hb <;> rcases List.mem_append.mp hb' with hb' | hb'
    · exact h.unique d type' hs type'' hs' hb hb'
    · cases List.mem_singleton.mp hb'
      exact absurd (h.known _ _ _ hb) (Nat.lt_irrefl _)
    · cases List.mem_singleton.mp hb
      exact absurd (h.known _ _ _ hb') (Nat.lt_irrefl _)
    · cases List.mem_singleton.mp hb
      cases List.mem_singleton.mp hb'
      exact ⟨rfl, rfl⟩
  · intro d type' handler hst
    simp only [List.mem_append, List.mem_singleton, reduceCtorEq, or_false] at hst
    obtain ⟨hs, hb, hmem⟩ := h.started d type' handler hst
    exact ⟨hs, List.mem_append_left _ hb, hmem⟩
  · intro d he type' hs hb
    simp only [List.mem_append, List.mem_singleton, reduceCtorEq, or_false] at he
    rcases List.mem_append.mp hb with hb | hb
    · simpa using h.ended d he type' hs hb
    · cases List.mem_singleton.mp hb
      exact absurd (h.endedKnown _ he) (Nat.lt_irrefl _)
  · intro d he
    simp only [List.mem_append, List.mem_singleton, reduceCtorEq, or_false] at he
    exact Nat.lt_succ_of_lt (h.endedKnown d he)
  · intro d type' hs hb
    rcases List.mem_append.mp hb with hb | hb
    · simpa using h.inOrder d type' hs hb
    · cases List.mem_singleton.mp hb
      simp [hfresh]
  · intro d type' todo hmem
    rcases List.mem_cons.mp hmem with heq | hmem
    · cases heq
      refine ⟨fun he => ?_, _, List.mem_append_right _ (List.mem_singleton_self _), by simp [hfresh]⟩
      simp only [List.mem_append, List.mem_singleton, reduceCtorEq, or_false] at he
      exact absurd (h.endedKnown _ he) (Nat.lt_irrefl _)
    · obtain ⟨hne, hs, hb, heq⟩ := h.running d type' todo hmem
      exact ⟨by simpa using hne, hs, List.mem_append_left _ hb, by simpa using heq⟩
  · refine List.nodup_cons.mpr ⟨fun hmem => ?_, h.distinct⟩
    obtain ⟨f, hf, hd⟩ := List.mem_filterMap.mp hmem
    cases f with
    | handler | pump => cases hd
    | dispatch d type' todo =>
        cases hd
        obtain ⟨-, hs, hb, -⟩ := h.running _ _ _ hf
        exact absurd (h.known _ _ _ hb) (Nat.lt_irrefl _)

theorem Dispatches.start (h : Dispatches ns s) {d : Nat} {handler : Handler ι} {todo : List (Handler ι)}
    {rest : List (Frame ι κ)} (hs : s.stack = .dispatch d type (handler :: todo) :: rest) :
    Dispatches (ns ++ [.started d type handler])
      { s with stack := .handler handler :: .dispatch d type todo :: rest } := by
  have hmem : .dispatch d type (handler :: todo) ∈ s.stack := by
    rw [hs]
    exact List.mem_cons_self
  obtain ⟨hrun, hs₀, hb₀, heq₀⟩ := h.running d type _ hmem
  have hdistinct := h.distinct
  rw [hs] at hdistinct
  constructor
  · intro d' type' hs' hb
    exact h.known d' type' hs' (by simpa using hb)
  · intro d' type' hs' type'' hs'' hb hb'
    exact h.unique d' type' hs' type'' hs'' (by simpa using hb) (by simpa using hb')
  · intro d' type' handler' hst
    rcases List.mem_append.mp hst with hst | hst
    · obtain ⟨hs', hb, hin⟩ := h.started d' type' handler' hst
      exact ⟨hs', List.mem_append_left _ hb, hin⟩
    · cases List.mem_singleton.mp hst
      exact ⟨hs₀, List.mem_append_left _ hb₀, by simp [heq₀]⟩
  · intro d' he type' hs' hb
    have he : .ended d' ∈ ns := by simpa using he
    have hne : d ≠ d' := by
      rintro rfl
      exact hrun he
    rw [startedBy_append, startedBy_of_ne hne, List.append_nil]
    exact h.ended d' he type' hs' (by simpa using hb)
  · intro d' he
    exact h.endedKnown d' (by simpa using he)
  · intro d' type' hs' hb
    have hb : .began d' type' hs' ∈ ns := by simpa using hb
    by_cases hne : d = d'
    · subst hne
      obtain ⟨-, rfl⟩ := h.unique d _ _ _ _ hb₀ hb
      rw [startedBy_append, startedBy_self, heq₀]
      exact ⟨todo, by simp⟩
    · rw [startedBy_append, startedBy_of_ne hne, List.append_nil]
      exact h.inOrder d' type' hs' hb
  · intro d' type' todo' hf
    simp only [List.mem_cons, reduceCtorEq, Frame.dispatch.injEq, false_or] at hf
    rcases hf with ⟨rfl, rfl, rfl⟩ | hf
    · exact ⟨by simpa using hrun, hs₀, List.mem_append_left _ hb₀, by simp [heq₀]⟩
    · obtain ⟨hne, hs', hb, heq⟩ := h.running d' type' todo' (by rw [hs]; exact List.mem_cons_of_mem _ hf)
      have hdd : d ≠ d' := by
        rintro rfl
        exact (List.nodup_cons.mp hdistinct).1 (List.mem_filterMap.mpr ⟨_, hf, rfl⟩)
      refine ⟨by simpa using hne, hs', List.mem_append_left _ hb, ?_⟩
      rw [startedBy_append, startedBy_of_ne hdd, List.append_nil]
      exact heq
  · exact hdistinct

theorem Dispatches.finish (h : Dispatches ns s) {d : Nat} {rest : List (Frame ι κ)}
    (hs : s.stack = .dispatch d type [] :: rest) : Dispatches (ns ++ [.ended d]) { s with stack := rest } := by
  obtain ⟨hrun, hs₀, hb₀, heq₀⟩ := h.running d type _ (by rw [hs]; exact List.mem_cons_self)
  have hdistinct := h.distinct
  rw [hs] at hdistinct
  constructor
  · intro d' type' hs' hb
    exact h.known d' type' hs' (by simpa using hb)
  · intro d' type' hs' type'' hs'' hb hb'
    exact h.unique d' type' hs' type'' hs'' (by simpa using hb) (by simpa using hb')
  · intro d' type' handler' hst
    obtain ⟨hs', hb, hin⟩ := h.started d' type' handler' (by simpa using hst)
    exact ⟨hs', List.mem_append_left _ hb, hin⟩
  · intro d' he type' hs' hb
    have hb : .began d' type' hs' ∈ ns := by simpa using hb
    rw [startedBy_append, startedBy_ended, List.append_nil]
    rcases List.mem_append.mp he with he | he
    · exact h.ended d' he type' hs' hb
    · cases List.mem_singleton.mp he
      obtain ⟨-, rfl⟩ := h.unique d _ _ _ _ hb₀ hb
      simpa using heq₀.symm
  · intro d' he
    rcases List.mem_append.mp he with he | he
    · exact h.endedKnown d' he
    · cases List.mem_singleton.mp he
      exact h.known d type hs₀ hb₀
  · intro d' type' hs' hb
    simpa using h.inOrder d' type' hs' (by simpa using hb)
  · intro d' type' todo' hf
    obtain ⟨hne, hs', hb, heq⟩ := h.running d' type' todo' (by rw [hs]; exact List.mem_cons_of_mem _ hf)
    refine ⟨fun he => ?_, hs', List.mem_append_left _ hb, by simpa using heq⟩
    rcases List.mem_append.mp he with he | he
    · exact hne he
    · cases List.mem_singleton.mp he
      exact (List.nodup_cons.mp hdistinct).1 (List.mem_filterMap.mpr ⟨_, hf, rfl⟩)
  · exact (List.nodup_cons.mp hdistinct).2

theorem Dispatches.advance (h : Dispatches ns s) : Dispatches (ns ++ s.advance.2) s.advance.1 := by
  unfold EventBus.advance
  cases hs : s.stack with
  | nil => simpa using h
  | cons f rest =>
      cases f with
      | handler handler => simpa using h
      | dispatch d type todo =>
          cases todo with
          | nil => exact h.finish hs
          | cons handler todo => exact h.start hs
      | pump batch rounds =>
          have hpump : ∀ {s' : EventBus ι κ} {batch' rounds'}, s'.stack = .pump batch' rounds' :: rest →
              s'.dispatchCount = s.dispatchCount → Dispatches ns s' := by
            intro s' batch' rounds' hs' hc
            refine h.congr (fun f hf => ?_) (by rw [hs, hs']; exact .refl _) hc
            rw [hs'] at hf
            rcases List.mem_cons.mp hf with rfl | hf
            · exact .inl rfl
            · exact .inr (by rw [hs]; exact List.mem_cons_of_mem _ hf)
          have hshrink : ∀ {s' : EventBus ι κ}, s'.stack = rest → s'.dispatchCount = s.dispatchCount →
              Dispatches ns s' := by
            intro s' hs' hc
            refine h.shrink ?_ hc
            rw [hs, hs']
            exact List.sublist_cons_self _ _
          cases batch with
          | cons event batch =>
              have hbegun : Dispatches ns
                  { s with stack := .pump batch rounds :: rest, dispatched := s.dispatched ++ [event] } := hpump rfl rfl
              exact hbegun.notify event.type
          | nil =>
              cases rounds with
              | zero =>
                  rw [List.append_nil]
                  exact hshrink rfl rfl
              | succ rounds =>
                  dsimp only
                  split <;> rw [List.append_nil]
                  · exact hshrink rfl rfl
                  · exact hpump rfl rfl

theorem Dispatches.step [DecidableEq ι] [DecidableEq κ] (h : Dispatches ns s) (e : Event ι κ) :
    Dispatches (ns ++ (s.step e).2) (s.step e).1 := by
  have hsame : ∀ {s' : EventBus ι κ}, s'.stack = s.stack → s'.dispatchCount = s.dispatchCount →
      Dispatches (ns ++ []) s' := by
    intro s' hs hc
    rw [List.append_nil]
    exact h.shrink (by rw [hs]) hc
  cases e with
  | subscribe | unsubscribe | unsubscribeAll =>
      simp only [EventBus.step]
      split <;> exact hsame rfl rfl
  | subscribeListener type listener =>
      simp only [EventBus.step, subscribeListener]
      split
      · split <;> exact hsame rfl rfl
      · exact hsame rfl rfl
  | notify event =>
      cases event with
      | none => exact hsame rfl rfl
      | some type =>
          simp only [EventBus.step]
          split
          · exact h.notify type
          · exact hsame rfl rfl
  | notifyAsync event => cases event <;> exact hsame rfl rfl
  | process | drain =>
      simp only [EventBus.step]
      split
      · rw [List.append_nil]
        refine h.congr (fun f hf => ?_) (.refl _) rfl
        rcases List.mem_cons.mp hf with rfl | hf
        · exact .inl rfl
        · exact .inr hf
      · exact hsame rfl rfl
  | advance => exact h.advance
  | handlerReturns =>
      simp only [EventBus.step, List.append_nil]
      split
      · next hs => exact h.shrink (by simp [hs]) rfl
      · exact h
  | handlerThrows =>
      rw [EventBus.step, List.append_nil]
      exact h.shrink (unwind_sublist s.stack) rfl

end EventBus

end OptionX.Utils
