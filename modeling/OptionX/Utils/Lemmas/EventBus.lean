import OptionX.Utils.EventBus

/-!
# What the event bus holds

The events between acceptance and dispatch, the handlers that dispatches in progress have yet to call, and the
handlers that are subscribed.
-/

namespace OptionX.Utils

namespace EventBus

variable {ι κ : Type} {s : EventBus ι κ} {e : Event ι κ} {type : κ}

/-! ## Queued events -/

def Frame.batch : Frame ι κ → List (QueuedEvent κ)
  | .pump batch _ => batch
  | .handler _ | .dispatch .. => []

/-- The events of all batches in progress, the innermost batch first. -/
def waitingIn (stack : List (Frame ι κ)) : List (QueuedEvent κ) := stack.flatMap Frame.batch

/-- The events accepted so far are those dispatched and those that wait, in this order. -/
def InOrder (s : EventBus ι κ) : Prop := s.accepted = s.dispatched ++ (waitingIn s.stack ++ s.eventQueue)

/-- A handler that throws leaves no pumping call with events in its batch, and no pumping call takes events while
another one, further out, has events in its batch. -/
def KeepsBatch (s : EventBus ι κ) (e : Event ι κ) : Prop :=
  match e, s.stack with
  | .handlerThrows, .handler _ :: .dispatch .. :: .pump batch _ :: _ => batch = []
  | .advance, .pump [] (_ + 1) :: rest => s.eventQueue = [] ∨ waitingIn rest = []
  | _, _ => True

@[simp] theorem waitingIn_nil : waitingIn ([] : List (Frame ι κ)) = [] := rfl

@[simp] theorem waitingIn_handler (h : Handler ι) (stack : List (Frame ι κ)) :
    waitingIn (.handler h :: stack) = waitingIn stack := rfl

@[simp] theorem waitingIn_dispatch (id : Nat) (type : κ) (todo : List (Handler ι)) (stack : List (Frame ι κ)) :
    waitingIn (.dispatch id type todo :: stack) = waitingIn stack := rfl

@[simp] theorem waitingIn_pump (batch : List (QueuedEvent κ)) (rounds : Nat) (stack : List (Frame ι κ)) :
    waitingIn (.pump batch rounds :: stack) = batch ++ waitingIn stack := rfl

/-- Events are numbered in the order of acceptance. -/
def Numbered (s : EventBus ι κ) : Prop := s.accepted.map QueuedEvent.id = List.range s.accepted.length

theorem Numbered.nodup (h : Numbered s) : s.accepted.Nodup :=
  .of_map QueuedEvent.id (by rw [h]; exact List.nodup_range)

theorem append_comm_iff {α : Type} {a b : List α} (h : (a ++ b).Nodup) : a ++ b = b ++ a ↔ b = [] ∨ a = [] := by
  refine ⟨fun heq => ?_, ?_⟩
  · cases a with
    | nil => exact .inr rfl
    | cons x a =>
        cases b with
        | nil => exact .inl rfl
        | cons y b =>
            obtain rfl : x = y := (List.cons.inj heq).1
            exact absurd rfl ((List.nodup_append.mp h).2.2 x List.mem_cons_self x List.mem_cons_self)
  · rintro (rfl | rfl) <;> simp

/-- A step that leaves the events alone. -/
theorem inOrder_congr {s' : EventBus ι κ} (ha : s'.accepted = s.accepted) (hd : s'.dispatched = s.dispatched)
    (hw : waitingIn s'.stack = waitingIn s.stack) (hq : s'.eventQueue = s.eventQueue) : InOrder s' ↔ InOrder s := by
  rw [InOrder, InOrder, ha, hd, hw, hq]

theorem advance_inOrder (h : InOrder s) (hn : Numbered s) : InOrder s.advance.1 ↔ KeepsBatch s .advance := by
  unfold advance
  unfold KeepsBatch
  unfold InOrder at *
  cases hs : s.stack with
  | nil => simp [hs] at h ⊢; exact h
  | cons f rest =>
      rw [hs] at h
      cases f with
      | handler handler => simpa [hs] using h
      | dispatch id type todo => cases todo <;> simpa using h
      | pump batch rounds =>
          cases batch with
          | cons event batch => simpa [notify] using h
          | nil =>
              cases rounds with
              | zero => simpa using h
              | succ rounds =>
                  have hnd := hn.nodup
                  rw [h] at hnd
                  simp only [waitingIn_pump, List.nil_append] at h hnd ⊢
                  split
                  · next hq => simpa [hq] using h
                  · rw [waitingIn_pump, List.append_nil, h, List.append_cancel_left_eq]
                    exact append_comm_iff (List.nodup_append.mp hnd).2.1

/-! ## The call stack -/

theorem unwind_sublist (stack : List (Frame ι κ)) : (unwind stack).Sublist stack := by
  unfold unwind
  split
  · exact .cons _ (.cons _ (List.sublist_cons_self _ _))
  · exact .cons _ (List.sublist_cons_self _ _)
  · exact .refl _

/-- A dispatch in progress has yet to call the handler. -/
def Due (s : EventBus ι κ) (type : κ) (h : Handler ι) : Prop := ∃ id todo, .dispatch id type todo ∈ s.stack ∧ h ∈ todo

theorem Due.of_subset {s' : EventBus ι κ} {h : Handler ι} (hd : Due s' type h) (hsub : s'.stack ⊆ s.stack) :
    Due s type h := by
  obtain ⟨id, todo, hmem, hh⟩ := hd
  exact ⟨id, todo, hsub hmem, hh⟩

theorem Due.of_notify {type' : κ} {h : Handler ι} (hd : Due (s.notify type').1 type h) :
    Due s type h ∨ h ∈ s.handlers type := by
  obtain ⟨id, todo, hmem, hh⟩ := hd
  rcases List.mem_cons.mp hmem with heq | hmem
  · cases heq
    exact .inr hh
  · exact .inl ⟨id, todo, hmem, hh⟩

/-- A handler that is due after the next step of the bus was due before it, or its dispatch has just begun. -/
theorem Due.of_advance {h : Handler ι} (hd : Due s.advance.1 type h) : Due s type h ∨ h ∈ s.handlers type := by
  unfold advance at hd
  cases hs : s.stack with
  | nil =>
      rw [hs] at hd
      exact .inl hd
  | cons f rest =>
      rw [hs] at hd
      cases f with
      | handler handler => exact .inl hd
      | dispatch id type' todo =>
          cases todo with
          | nil => exact .inl (hd.of_subset (by simp [hs]))
          | cons handler todo =>
              obtain ⟨id', todo', hmem, hh⟩ := hd
              left
              simp only [List.mem_cons, reduceCtorEq, Frame.dispatch.injEq, false_or] at hmem
              rcases hmem with ⟨rfl, rfl, rfl⟩ | hmem
              · exact ⟨id', _, by rw [hs]; exact List.mem_cons_self, List.mem_cons_of_mem _ hh⟩
              · exact ⟨id', todo', by rw [hs]; exact List.mem_cons_of_mem _ hmem, hh⟩
      | pump batch rounds =>
          have hpump : ∀ {s' : EventBus ι κ} {batch' rounds'}, s'.stack = .pump batch' rounds' :: rest → Due s' type h →
              Due s type h := by
            rintro s' batch' rounds' hs' ⟨id, todo, hmem, hh⟩
            rw [hs'] at hmem
            simp only [List.mem_cons, reduceCtorEq, false_or] at hmem
            exact ⟨id, todo, by rw [hs]; exact List.mem_cons_of_mem _ hmem, hh⟩
          cases batch with
          | cons event batch =>
              rcases hd.of_notify with hd | hh
              · exact .inl (hpump rfl hd)
              · exact .inr hh
          | nil =>
              cases rounds with
              | zero => exact .inl (hd.of_subset (by simp [hs]))
              | succ rounds =>
                  dsimp only at hd
                  split at hd
                  · exact .inl (hd.of_subset (by simp [hs]))
                  · exact .inl (hpump rfl hd)

/-! ## Subscriptions -/

/-- The callbacks of a type are in the order of subscription, and a listener is in a list once. -/
structure Registry (s : EventBus ι κ) : Prop where
  ordered : ∀ type, (s.eventCallbacks type).Pairwise fun r r' => r.id < r'.id
  known : ∀ type, ∀ r ∈ s.eventCallbacks type, r.id < s.callbackCount
  once : ∀ type, (s.eventListeners type).Nodup

theorem Registry.handlers_nodup (h : Registry s) (type : κ) : (s.handlers type).Nodup := by
  refine List.nodup_append.mpr ⟨?_, ?_, ?_⟩
  · refine (List.nodup_map_iff fun r r' hr => by simpa using hr).mpr ?_
    exact (h.ordered type).imp fun hlt heq => by simp [heq] at hlt
  · refine (h.once type).filterMap fun l l' handler hl hl' => ?_
    cases l <;> cases l' <;> simp at hl hl' ⊢
    rw [← hl'] at hl
    simpa using hl
  · intro a ha b hb hab
    obtain ⟨r, -, rfl⟩ := List.mem_map.mp ha
    obtain ⟨l, -, hl⟩ := List.mem_filterMap.mp hb
    subst hab
    cases l <;> simp at hl

@[simp] theorem callback_mem_handlers {record : CallbackRecord ι} :
    .callback record ∈ s.handlers type ↔ record ∈ s.eventCallbacks type := by
  simp [handlers]

@[simp] theorem listener_mem_handlers {listener : ι} :
    .listener listener ∈ s.handlers type ↔ some listener ∈ s.eventListeners type := by
  simp [handlers]

theorem unsubscribeAll_handlers [DecidableEq ι] {owner : Option ι} {h : Handler ι} :
    h ∈ (s.unsubscribeAll owner).handlers type ↔ h ∈ s.handlers type ∧ h.owner ≠ owner := by
  cases h <;> simp [unsubscribeAll, Handler.owner]

theorem subscribe_handlers [DecidableEq κ] {type' : κ} {owner : Option ι} {h : Handler ι} (hh : h ∈ s.handlers type') :
    h ∈ (s.subscribe type owner).handlers type' := by
  cases h <;> by_cases ht : type' = type <;> simp_all [subscribe, Function.update]

variable [DecidableEq ι] [DecidableEq κ]

theorem handlerReturns_inOrder : InOrder (s.step .handlerReturns).1 ↔ InOrder s := by
  simp only [step]
  split
  · next h => exact inOrder_congr rfl rfl (by simp [h]) rfl
  · rfl

theorem handlerThrows_inOrder (h : InOrder s) : InOrder (s.step .handlerThrows).1 ↔ KeepsBatch s .handlerThrows := by
  simp only [step, KeepsBatch]
  cases hs : s.stack with
  | nil => exact iff_of_true (by simpa [InOrder, unwind, hs] using h) trivial
  | cons f rest =>
      cases f with
      | dispatch | pump => exact iff_of_true (by simpa [InOrder, unwind, hs] using h) trivial
      | handler handler =>
          cases rest with
          | nil => exact iff_of_true (by simpa [InOrder, unwind, hs] using h) trivial
          | cons g rest =>
              cases g with
              | handler | pump => exact iff_of_true (by simpa [InOrder, unwind, hs] using h) trivial
              | dispatch id type todo =>
                  cases rest with
                  | nil => exact iff_of_true (by simpa [InOrder, unwind, hs] using h) trivial
                  | cons p rest =>
                      cases p with
                      | handler | dispatch => exact iff_of_true (by simpa [InOrder, unwind, hs] using h) trivial
                      | pump batch rounds =>
                          simp only [InOrder, hs, waitingIn_handler, waitingIn_dispatch, waitingIn_pump, unwind] at h ⊢
                          rw [h, List.append_cancel_left_eq, List.append_assoc, List.append_left_eq_self]

/-- A step keeps the events in order exactly when it keeps the batches. -/
theorem step_inOrder (h : InOrder s) (hn : Numbered s) (e : Event ι κ) : InOrder (s.step e).1 ↔ KeepsBatch s e := by
  cases e with
  | subscribe | subscribeListener | unsubscribe | unsubscribeAll =>
      refine iff_of_true ?_ trivial
      simp only [step]
      split
      · first | exact h | (unfold subscribeListener; split <;> exact h)
      · exact h
  | notify event =>
      refine iff_of_true ?_ trivial
      cases event with
      | none => exact h
      | some type =>
          simp only [step]
          split <;> exact h
  | notifyAsync event =>
      refine iff_of_true ?_ trivial
      cases event with
      | none => exact h
      | some type =>
          unfold InOrder at h ⊢
          simp only [step, notifyAsync]
          rw [h]
          simp
  | process | drain =>
      refine iff_of_true ?_ trivial
      simp only [step]
      split <;> exact h
  | advance => exact advance_inOrder h hn
  | handlerReturns => exact iff_of_true (handlerReturns_inOrder.mpr h) trivial
  | handlerThrows => exact handlerThrows_inOrder h

/-- Only `notify_async` accepts. -/
theorem step_accepted (e : Event ι κ) :
    (s.step e).1.accepted = s.accepted ∨ ∃ type, (s.step e).1.accepted = s.accepted ++ [⟨s.accepted.length, type⟩] := by
  cases e with
  | subscribe | unsubscribe | unsubscribeAll | process | drain =>
      simp only [step]
      split <;> exact .inl rfl
  | subscribeListener =>
      simp only [step, subscribeListener]
      split
      · split <;> exact .inl rfl
      · exact .inl rfl
  | notify event =>
      cases event with
      | none => exact .inl rfl
      | some type =>
          simp only [step]
          split <;> exact .inl rfl
  | notifyAsync event =>
      cases event with
      | none => exact .inl rfl
      | some type => exact .inr ⟨type, rfl⟩
  | advance =>
      simp only [step, advance]
      (repeat' split) <;> exact .inl rfl
  | handlerReturns =>
      simp only [step]
      split <;> exact .inl rfl
  | handlerThrows => exact .inl rfl

theorem Numbered.step (h : Numbered s) (e : Event ι κ) : Numbered (s.step e).1 := by
  unfold Numbered at h ⊢
  rcases step_accepted (s := s) e with heq | ⟨type, heq⟩ <;> rw [heq]
  · exact h
  · simp [h, List.range_succ]

/-- What `unsubscribe` leaves. -/
theorem unsubscribe_handlers {type' : κ} {owner : Option ι} {h : Handler ι} :
    h ∈ (s.unsubscribe type owner).handlers type' ↔ h ∈ s.handlers type' ∧ (type' = type → h.owner ≠ owner) := by
  cases h <;> by_cases ht : type' = type <;> simp [unsubscribe, Handler.owner, Function.update, ht]

theorem subscribeListener_handlers {type' : κ} {listener : Option ι} {h : Handler ι} (hh : h ∈ s.handlers type') :
    h ∈ (s.subscribeListener type listener).handlers type' := by
  unfold subscribeListener
  split
  · exact hh
  · cases h <;> by_cases ht : type' = type <;> simp_all [Function.update]

theorem Registry.step (h : Registry s) (e : Event ι κ) : Registry (s.step e).1 := by
  cases e with
  | subscribe type owner =>
      simp only [EventBus.step]
      split
      · refine ⟨fun type' => ?_, fun type' r hr => ?_, h.once⟩
        · by_cases ht : type' = type
          · subst ht
            simp only [subscribe, Function.update_self]
            exact List.pairwise_append.mpr ⟨h.ordered type', List.pairwise_singleton _ _, fun r hr r' hr' => by
              rw [List.mem_singleton.mp hr']
              exact h.known type' r hr⟩
          · simpa [subscribe, ht] using h.ordered type'
        · by_cases ht : type' = type
          · subst ht
            simp only [subscribe, Function.update_self, List.mem_append, List.mem_singleton] at hr ⊢
            rcases hr with hr | rfl
            · exact Nat.lt_succ_of_lt (h.known type' r hr)
            · exact Nat.lt_succ_self _
          · simp only [subscribe, Function.update_of_ne ht] at hr ⊢
            exact Nat.lt_succ_of_lt (h.known type' r hr)
      · exact h
  | subscribeListener type listener =>
      simp only [EventBus.step]
      split
      · unfold subscribeListener
        split
        · exact h
        · next hnew =>
          refine ⟨h.ordered, h.known, fun type' => ?_⟩
          by_cases ht : type' = type
          · subst ht
            simp only [Function.update_self]
            exact List.nodup_append.mpr ⟨h.once type', List.nodup_singleton _, fun l hl l' hl' => by
              rw [List.mem_singleton.mp hl']
              rintro rfl
              exact hnew hl⟩
          · simpa [ht] using h.once type'
      · exact h
  | unsubscribe type owner =>
      simp only [EventBus.step]
      split
      · refine ⟨fun type' => ?_, fun type' r hr => ?_, fun type' => ?_⟩
        · by_cases ht : type' = type
          · subst ht
            simpa [unsubscribe] using (h.ordered type').filter _
          · simpa [unsubscribe, ht] using h.ordered type'
        · by_cases ht : type' = type
          · subst ht
            simp only [unsubscribe, Function.update_self] at hr
            exact h.known type' r (List.mem_filter.mp hr).1
          · exact h.known type' r (by simpa [unsubscribe, ht] using hr)
        · by_cases ht : type' = type
          · subst ht
            simpa [unsubscribe] using (h.once type').filter _
          · simpa [unsubscribe, ht] using h.once type'
      · exact h
  | unsubscribeAll owner =>
      simp only [EventBus.step]
      split
      · exact ⟨fun type' => (h.ordered type').filter _, fun type' r hr => h.known type' r (List.mem_filter.mp hr).1,
          fun type' => (h.once type').filter _⟩
      · exact h
  | notify event | notifyAsync event =>
      cases event with
      | none => exact h
      | some type =>
          simp only [EventBus.step]
          try split
          all_goals exact ⟨h.ordered, h.known, h.once⟩
  | process | drain =>
      simp only [EventBus.step]
      split <;> exact ⟨h.ordered, h.known, h.once⟩
  | advance =>
      simp only [EventBus.step, EventBus.advance]
      (repeat' split) <;> exact ⟨h.ordered, h.known, h.once⟩
  | handlerReturns =>
      simp only [EventBus.step]
      split <;> exact ⟨h.ordered, h.known, h.once⟩
  | handlerThrows => exact ⟨h.ordered, h.known, h.once⟩

/-! ## Handlers that are due -/

/-- No handler of the owner that is unsubscribed is due. -/
def Undisturbed (s : EventBus ι κ) (e : Event ι κ) : Prop :=
  match e with
  | .unsubscribe type owner => s.userCode = true → ∀ h, Due s type h → h.owner ≠ owner
  | .unsubscribeAll owner => s.userCode = true → ∀ type h, Due s type h → h.owner ≠ owner
  | _ => True

/-- Every handler that is due is subscribed. -/
def Current (s : EventBus ι κ) : Prop := ∀ type h, Due s type h → h ∈ s.handlers type

theorem Current.step (h : Current s) (he : Undisturbed s e) : Current (s.step e).1 := by
  intro type handler hd
  cases e with
  | subscribe type' owner =>
      simp only [EventBus.step] at hd ⊢
      split at hd
      · next hu =>
        rw [if_pos hu]
        exact subscribe_handlers (h type handler hd)
      · next hu =>
        rw [if_neg hu]
        exact h type handler hd
  | subscribeListener type' listener =>
      simp only [EventBus.step] at hd ⊢
      split at hd
      · next hu =>
        rw [if_pos hu]
        refine subscribeListener_handlers (h type handler (hd.of_subset ?_))
        unfold subscribeListener
        split <;> exact List.Subset.refl _
      · next hu =>
        rw [if_neg hu]
        exact h type handler hd
  | unsubscribe type' owner =>
      simp only [EventBus.step] at hd ⊢
      split at hd
      · next hu =>
        rw [if_pos hu, unsubscribe_handlers]
        refine ⟨h type handler hd, ?_⟩
        rintro rfl
        exact he hu handler hd
      · next hu =>
        rw [if_neg hu]
        exact h type handler hd
  | unsubscribeAll owner =>
      simp only [EventBus.step] at hd ⊢
      split at hd
      · next hu =>
        rw [if_pos hu, unsubscribeAll_handlers]
        exact ⟨h type handler hd, he hu type handler hd⟩
      · next hu =>
        rw [if_neg hu]
        exact h type handler hd
  | notify event =>
      cases event with
      | none => exact h type handler hd
      | some type' =>
          simp only [EventBus.step] at hd ⊢
          split at hd
          · next hu =>
            rw [if_pos hu]
            exact hd.of_notify.elim (h type handler) id
          · next hu =>
            rw [if_neg hu]
            exact h type handler hd
  | notifyAsync event => cases event <;> exact h type handler hd
  | process | drain =>
      simp only [EventBus.step] at hd ⊢
      split at hd
      · next hu =>
        rw [if_pos hu]
        obtain ⟨id, todo, hmem, hh⟩ := hd
        simp only [List.mem_cons, reduceCtorEq, false_or] at hmem
        exact h type handler ⟨id, todo, hmem, hh⟩
      · next hu =>
        rw [if_neg hu]
        exact h type handler hd
  | advance =>
      have hhandlers : (s.advance.1).handlers type = s.handlers type := by
        unfold advance
        (repeat' split) <;> rfl
      rw [EventBus.step, hhandlers]
      exact (Due.of_advance hd).elim (h type handler) id
  | handlerReturns =>
      simp only [EventBus.step] at hd ⊢
      split at hd
      · next hs => exact h type handler (hd.of_subset (by simp [hs]))
      · exact h type handler hd
  | handlerThrows => exact h type handler (hd.of_subset (unwind_sublist s.stack).subset)

end EventBus

end OptionX.Utils
