import OptionX.Lib.Calls
import OptionX.Utils.EventAwaiter

/-!
# What one step of an awaiter keeps

The call whose compare-exchange succeeds is the winner. As long as no call of the handler has missed it, there is one
winner at most between its compare-exchange and its end, and nothing is called or returned meanwhile.
-/

namespace OptionX.Utils.EventAwaiter

/-- A delivery that matches comes to `cancel` before the awaiter is cancelled, and a call of `cancel` that finds it
cancelled finds the cancellation complete. -/
def Undisturbed (s : EventAwaiter) : Event → Prop
  | .advance i =>
      (s.calls[i]? = some (.cancelling .entered) → s.hasOnMatch = true → s.cancelled = false) ∧
      (s.calls[i]? = some (.cancel .entered) → s.cancelled = true →
        s.subscribed = false ∧ s.retainSelf = false ∧ .calling ∉ s.calls)
  | _ => True

instance (s : EventAwaiter) (e : Event) : Decidable (Undisturbed s e) := by
  cases e <;> unfold Undisturbed <;> infer_instance

/-- The call has won and is still inside `cancel`. -/
def Call.cancels : Call → Bool
  | .cancelling .unsubscribing | .cancelling .resetting | .cancel .unsubscribing | .cancel .resetting => true
  | _ => false

/-- The call has won and is not yet done: a delivery that has won goes on to the callback. -/
def Call.busy (call : Call) : Bool := call.cancels || call = .calling

/-- A single-shot awaiter in a run that nothing disturbs. -/
structure Sound (s : EventAwaiter) : Prop where
  shot : s.singleShot = true
  fresh : s.cancelled = false → s.retainSelf = true
  winner : s.calls.countP (·.busy) + (if s.cancelled then 0 else 1) ≤ 1
  retained : ∀ c ∈ s.calls, c.cancels = true → s.retainSelf = true
  resetting : ∀ c ∈ s.calls, c = .cancelling .resetting ∨ c = .cancel .resetting → s.subscribed = false
  kept : s.cancelled = true → s.subscribed = true ∨ s.retainSelf = true → ∃ c ∈ s.calls, c.cancels = true
  quiet : s.cancelled = false ∨ (∃ c ∈ s.calls, c.busy = true) → s.invocations = 0 ∧ .cancelReturned ∉ s.calls
  once : s.invocations ≤ 1

theorem Sound.create (hasPredicate hasOnMatch : Bool) : Sound (create true hasPredicate hasOnMatch) where
  shot := rfl
  fresh := fun _ => rfl
  winner := by simp [EventAwaiter.create]
  retained := fun _ h => by cases h
  resetting := fun _ h => by cases h
  kept := fun h => by cases h
  quiet := fun _ => ⟨rfl, by simp [EventAwaiter.create]⟩
  once := Nat.zero_le 1

theorem Call.cancels_of_not_busy {c : Call} (h : c.busy = false) : c.cancels = false := by
  cases hc : c.cancels
  · rfl
  · simp [Call.busy, hc] at h

/-- Calls that have not won take the place of others that have not won. -/
theorem Sound.idle {s : EventAwaiter} {pre cs cs' post : List Call} (h : Sound s) (hcalls : s.calls = pre ++ cs ++ post)
    (hc : ∀ c ∈ cs, c.busy = false) (hc' : ∀ c ∈ cs', c.busy = false)
    (hr : .cancelReturned ∈ cs' → s.cancelled = true ∧ ∀ c ∈ s.calls, c.busy = false) :
    Sound { s with calls := pre ++ cs' ++ post } := by
  have hcount : cs.countP (·.busy) = 0 := List.countP_eq_zero.mpr fun c hmem => by simp [hc c hmem]
  have hcount' : cs'.countP (·.busy) = 0 := List.countP_eq_zero.mpr fun c hmem => by simp [hc' c hmem]
  have hback : ∀ c ∈ pre ++ cs' ++ post, c.busy = true → c ∈ s.calls := by
    intro c hmem hb
    rw [hcalls]
    rcases List.mem_append.mp hmem with hmem | hmem
    · rcases List.mem_append.mp hmem with hmem | hmem
      · simp [hmem]
      · simp [hc' c hmem] at hb
    · simp [hmem]
  have hforth : ∀ c ∈ s.calls, c.busy = true → c ∈ pre ++ cs' ++ post := by
    intro c hmem hb
    rw [hcalls] at hmem
    rcases List.mem_append.mp hmem with hmem | hmem
    · rcases List.mem_append.mp hmem with hmem | hmem
      · simp [hmem]
      · simp [hc c hmem] at hb
    · simp [hmem]
  have hbusy : ∀ {c : Call}, c.cancels = true → c.busy = true := fun hcc => by simp [Call.busy, hcc]
  exact {
    shot := h.shot
    fresh := h.fresh
    winner := by
      have := h.winner
      simp only [hcalls, List.countP_append, hcount, hcount'] at this ⊢
      exact this
    retained := fun c hmem hcc => h.retained c (hback c hmem (hbusy hcc)) hcc
    resetting := fun c hmem hcc => h.resetting c (hback c hmem (by rcases hcc with rfl | rfl <;> rfl)) hcc
    kept := fun hca hs => by
      obtain ⟨c, hmem, hcc⟩ := h.kept hca hs
      exact ⟨c, hforth c hmem (hbusy hcc), hcc⟩
    quiet := fun hp => by
      have hp' : s.cancelled = false ∨ ∃ c ∈ s.calls, c.busy = true :=
        hp.imp_right fun ⟨c, hmem, hb⟩ => ⟨c, hback c hmem hb, hb⟩
      obtain ⟨hinv, hret⟩ := h.quiet hp'
      refine ⟨hinv, fun hmem => ?_⟩
      have hnew : .cancelReturned ∈ cs' := by
        simp only [hcalls, List.mem_append] at hret hmem
        tauto
      obtain ⟨hca, hnone⟩ := hr hnew
      rcases hp' with hp' | ⟨c, hmem, hb⟩
      · rw [hca] at hp'
        cases hp'
      · rw [hnone c hmem] at hb
        cases hb
    once := h.once }

/-- While one call is busy the awaiter is cancelled and no other call is busy. -/
theorem Sound.others {s : EventAwaiter} {pre post : List Call} {c : Call} (h : Sound s)
    (hcalls : s.calls = pre ++ [c] ++ post) (hc : c.busy = true) :
    s.cancelled = true ∧ ∀ d ∈ pre ++ post, d.busy = false := by
  have hw := h.winner
  simp only [hcalls, List.countP_append, List.countP_singleton, hc, if_true] at hw
  refine ⟨?_, fun d hd => ?_⟩
  · cases hca : s.cancelled
    · simp [hca] at hw
    · rfl
  · have hzero : (pre ++ post).countP (·.busy) = 0 := by
      rw [List.countP_append]
      omega
    simpa using List.countP_eq_zero.mp hzero d hd

theorem Sound.win {s : EventAwaiter} {pre post : List Call} {c c' : Call} (h : Sound s)
    (hcalls : s.calls = pre ++ [c] ++ post) (hopen : s.cancelled = false)
    (hc' : c' = .cancelling .unsubscribing ∨ c' = .cancel .unsubscribing) :
    Sound { s with cancelled := true, calls := pre ++ [c'] ++ post } := by
  have hcancels : c'.cancels = true := by rcases hc' with rfl | rfl <;> rfl
  have hbusy : c'.busy = true := by simp [Call.busy, hcancels]
  have hidle : ∀ d ∈ s.calls, d.busy = false := by
    have hw := h.winner
    rw [hopen] at hw
    simpa using List.countP_eq_zero.mp (by simpa using hw)
  obtain ⟨hinv, hret⟩ := h.quiet (.inl hopen)
  have hzero : ∀ l : List Call, (∀ d ∈ l, d ∈ s.calls) → l.countP (·.busy) = 0 := fun l hl =>
    List.countP_eq_zero.mpr fun d hd => by simp [hidle d (hl d hd)]
  have hmem : ∀ d ∈ pre ++ [c'] ++ post, d = c' ∨ d ∈ s.calls := by
    rw [hcalls]
    intro d hd
    simp only [List.mem_append, List.mem_singleton] at hd ⊢
    tauto
  exact {
    shot := h.shot
    fresh := fun hf => by cases hf
    winner := by
      rw [List.countP_append, List.countP_append, hzero pre fun d hd => by simp [hcalls, hd],
        hzero post fun d hd => by simp [hcalls, hd]]
      simp [hbusy]
    retained := fun _ _ _ => h.fresh hopen
    resetting := fun d hd hcd => by
      rcases hmem d hd with rfl | hd
      · rcases hc' with rfl | rfl <;> simp at hcd
      · have := hidle d hd
        rcases hcd with rfl | rfl <;> cases this
    kept := fun _ _ => ⟨c', by simp, hcancels⟩
    quiet := fun _ => ⟨hinv, fun hd => by
      rcases hmem _ hd with rfl | hd
      · cases hcancels
      · exact hret hd⟩
    once := h.once }

theorem Sound.unsubscribe {s : EventAwaiter} {pre post : List Call} {c c' : Call} (h : Sound s)
    (hcalls : s.calls = pre ++ [c] ++ post)
    (hc : c = .cancelling .unsubscribing ∧ c' = .cancelling .resetting ∨
      c = .cancel .unsubscribing ∧ c' = .cancel .resetting) :
    Sound { s with subscribed := false, calls := pre ++ [c'] ++ post } := by
  have hcancels : c.cancels = true ∧ c'.cancels = true := by rcases hc with ⟨rfl, rfl⟩ | ⟨rfl, rfl⟩ <;> exact ⟨rfl, rfl⟩
  have hbusy : c.busy = true ∧ c'.busy = true := by simp [Call.busy, hcancels]
  obtain ⟨hcancelled, -⟩ := h.others hcalls hbusy.1
  obtain ⟨hinv, hret⟩ := h.quiet (.inr ⟨c, by simp [hcalls], hbusy.1⟩)
  exact {
    shot := h.shot
    fresh := h.fresh
    winner := by
      have hw := h.winner
      simp only [hcalls, List.countP_append, List.countP_singleton, hbusy] at hw ⊢
      exact hw
    retained := fun _ _ _ => h.retained c (by simp [hcalls]) hcancels.1
    resetting := fun _ _ _ => rfl
    kept := fun _ _ => ⟨c', by simp, hcancels.2⟩
    quiet := fun _ => ⟨hinv, fun hd => by
      simp only [hcalls, List.mem_append, List.mem_singleton] at hret hd
      rcases hd with (hd | rfl) | hd
      · exact hret (.inl (.inl hd))
      · cases hcancels.2
      · exact hret (.inr hd)⟩
    once := h.once }

theorem Sound.reset {s : EventAwaiter} {pre post : List Call} {c c' : Call} (h : Sound s)
    (hcalls : s.calls = pre ++ [c] ++ post) (hc : c = .cancelling .resetting ∨ c = .cancel .resetting)
    (hc' : c' = .calling ∨ c' = .handled ∨ c' = .cancelReturned) :
    Sound { s with retainSelf := false, calls := pre ++ [c'] ++ post } := by
  have hbusy : c.busy = true := by rcases hc with rfl | rfl <;> rfl
  have hcancels : c'.cancels = false := by rcases hc' with rfl | rfl | rfl <;> rfl
  obtain ⟨hcancelled, hothers⟩ := h.others hcalls hbusy
  obtain ⟨hinv, hret⟩ := h.quiet (.inr ⟨c, by simp [hcalls], hbusy⟩)
  have hunsub := h.resetting c (by simp [hcalls]) hc
  have hnone : ∀ d ∈ pre ++ [c'] ++ post, d.cancels = false := by
    intro d hd
    simp only [List.mem_append, List.mem_singleton] at hd
    rcases hd with (hd | rfl) | hd
    · exact Call.cancels_of_not_busy (hothers d (by simp [hd]))
    · exact hcancels
    · exact Call.cancels_of_not_busy (hothers d (by simp [hd]))
  exact {
    shot := h.shot
    fresh := fun hf => by
      rw [hcancelled] at hf
      cases hf
    winner := by
      have hw := h.winner
      simp only [hcalls, List.countP_append, List.countP_singleton, hbusy, if_true] at hw ⊢
      split <;> omega
    retained := fun d hd hcd => by
      rw [hnone d hd] at hcd
      cases hcd
    resetting := fun _ _ _ => hunsub
    kept := fun _ hs => by
      rcases hs with hs | hs
      · rw [hunsub] at hs
        cases hs
      · cases hs
    quiet := fun hp => by
      obtain ⟨d, hd, hbd⟩ := hp.resolve_left (by simp [hcancelled])
      refine ⟨hinv, fun hdr => ?_⟩
      simp only [hcalls, List.mem_append, List.mem_singleton] at hret hd hdr
      have hc'' : c' = .cancelReturned := by tauto
      rcases hd with (hd | rfl) | hd
      · simp [hothers d (by simp [hd])] at hbd
      · rw [hc''] at hbd
        cases hbd
      · simp [hothers d (by simp [hd])] at hbd
    once := h.once }

theorem Sound.invoke {s : EventAwaiter} {pre post : List Call} (h : Sound s)
    (hcalls : s.calls = pre ++ [.calling] ++ post) :
    Sound { s with invocations := s.invocations + 1, calls := pre ++ [.running] ++ post } := by
  obtain ⟨hcancelled, hothers⟩ := h.others hcalls rfl
  obtain ⟨hinv, hret⟩ := h.quiet (.inr ⟨.calling, by simp [hcalls], rfl⟩)
  have hidle : ∀ d ∈ pre ++ [.running] ++ post, d.busy = false := by
    intro d hd
    simp only [List.mem_append, List.mem_singleton] at hd
    rcases hd with (hd | rfl) | hd
    · exact hothers d (by simp [hd])
    · rfl
    · exact hothers d (by simp [hd])
  exact {
    shot := h.shot
    fresh := h.fresh
    winner := by
      have hw := h.winner
      simp only [hcalls, List.countP_append, List.countP_singleton] at hw ⊢
      split <;> simp [Call.busy, Call.cancels] at hw ⊢ <;> omega
    retained := fun d hd hcd => by
      have := Call.cancels_of_not_busy (hidle d hd)
      rw [this] at hcd
      cases hcd
    resetting := fun d hd hcd => by
      have := hidle d hd
      rcases hcd with rfl | rfl <;> cases this
    kept := fun hca hs => by
      obtain ⟨d, hd, hcd⟩ := h.kept hca hs
      refine ⟨d, ?_, hcd⟩
      simp only [hcalls, List.mem_append, List.mem_singleton] at hd ⊢
      rcases hd with (hd | rfl) | hd
      · exact .inl (.inl hd)
      · cases hcd
      · exact .inr hd
    quiet := fun hp => by
      obtain ⟨d, hd, hbd⟩ := hp.resolve_left (by simp [hcancelled])
      rw [hidle d hd] at hbd
      cases hbd
    once := by
      show s.invocations + 1 ≤ 1
      omega }

theorem Sound.goOn {s : EventAwaiter} (h : Sound s) {i : Nat} {c c' : Call} (hi : s.calls[i]? = some c)
    (hc : c.busy = false) (hc' : c'.busy = false)
    (hr : c' = .cancelReturned → s.cancelled = true ∧ ∀ c ∈ s.calls, c.busy = false) : Sound (s.goOn i c') := by
  obtain ⟨pre, post, hcalls, hset⟩ := Lib.Calls.getElem?_split hi
  rw [EventAwaiter.goOn, hset]
  exact h.idle hcalls (by simpa using hc) (by simpa using hc') fun hmem => hr (List.mem_singleton.mp hmem).symm

theorem matched_eq {s : EventAwaiter} (h : Sound s) : s.matched = .cancelling .entered := by
  simp [matched, h.shot]

theorem onMatch_eq (s : EventAwaiter) : s.onMatch = .calling ∧ s.hasOnMatch = true ∨
    s.onMatch = .handled ∧ s.hasOnMatch = false := by
  cases h : s.hasOnMatch <;> simp [onMatch, h]

theorem Sound.advance {s : EventAwaiter} (h : Sound s) (i : Nat) (hd : Undisturbed s (.advance i)) :
    Sound (s.advance i).1 := by
  unfold EventAwaiter.advance
  obtain ⟨hwins, hlate⟩ := hd
  cases hi : s.calls[i]? with
  | none => exact h
  | some c =>
      obtain ⟨pre, post, hcalls, hset⟩ := Lib.Calls.getElem?_split hi
      cases c with
      | dispatched => exact h.goOn hi rfl (by cases s.alive <;> rfl) (by cases s.alive <;> simp)
      | locked =>
          refine h.goOn hi rfl ?_ ?_
          · rw [matched_eq h]
            (repeat' split) <;> rfl
          · rw [matched_eq h]
            (repeat' split) <;> simp
      | cancelling stage =>
          cases stage with
          | entered =>
              cases hopen : s.cancelled with
              | false =>
                  have := h.win hcalls hopen (.inl rfl)
                  simpa [cancelStep, hopen, EventAwaiter.goOn, hset] using this
              | true =>
                  have hno : s.hasOnMatch = false := by
                    cases hm : s.hasOnMatch
                    · rfl
                    · simp [hwins hi hm] at hopen
                  have : Sound (s.goOn i s.onMatch) := h.goOn hi rfl (by simp [onMatch, hno]; rfl) (by simp [onMatch, hno])
                  simpa [cancelStep, hopen] using this
          | unsubscribing =>
              have := h.unsubscribe hcalls (.inl ⟨rfl, rfl⟩)
              simpa [cancelStep, EventAwaiter.goOn, hset] using this
          | resetting =>
              have := h.reset hcalls (.inl rfl) ((onMatch_eq s).imp And.left fun hm => .inl hm.1)
              simpa [cancelStep, EventAwaiter.goOn, hset, onMatch] using this
      | calling =>
          have := h.invoke hcalls
          simpa [EventAwaiter.goOn, hset] using this
      | cancel stage =>
          cases stage with
          | entered =>
              cases hopen : s.cancelled with
              | false =>
                  have := h.win hcalls hopen (.inr rfl)
                  simpa [cancelStep, hopen, EventAwaiter.goOn, hset] using this
              | true =>
                  obtain ⟨hunsub, hretain, hcalling⟩ := hlate hi hopen
                  have : Sound (s.goOn i .cancelReturned) := h.goOn hi rfl rfl fun _ => ⟨hopen, fun c hc => ?_⟩
                  · simpa [cancelStep, hopen] using this
                  · cases hb : c.busy
                    · rfl
                    · simp only [Call.busy, Bool.or_eq_true, decide_eq_true_eq] at hb
                      rcases hb with hb | rfl
                      · rw [h.retained c hc hb] at hretain
                        cases hretain
                      · exact absurd hc hcalling
          | unsubscribing =>
              have := h.unsubscribe hcalls (.inr ⟨rfl, rfl⟩)
              simpa [cancelStep, EventAwaiter.goOn, hset] using this
          | resetting =>
              have := h.reset hcalls (.inr rfl) (.inr (.inr rfl))
              simpa [cancelStep, EventAwaiter.goOn, hset] using this
      | predicate | running | handled | cancelReturned => exact h

theorem Sound.step {s : EventAwaiter} (h : Sound s) (e : Event) (hd : Undisturbed s e) : Sound (s.step e).1 := by
  cases e with
  | notify =>
      simp only [EventAwaiter.step]
      split
      · have hidle : ∀ c ∈ [Call.dispatched], c.busy = false := by simp [Call.busy, Call.cancels]
        simpa using h.idle (show s.calls = s.calls ++ [] ++ [] by simp) (by simp) hidle (by simp)
      · exact h
  | cancel =>
      have hidle : ∀ c ∈ [Call.cancel .entered], c.busy = false := by simp [Call.busy, Call.cancels]
      simpa [EventAwaiter.step] using h.idle (show s.calls = s.calls ++ [] ++ [] by simp) (by simp) hidle (by simp)
  | advance i => exact h.advance i hd
  | predicateEnds i matched =>
      simp only [EventAwaiter.step]
      split
      · next hi => exact h.goOn hi rfl (by rw [matched_eq h]; cases matched <;> rfl) (by rw [matched_eq h]; split <;> simp)
      · exact h
  | callbackEnds i =>
      simp only [EventAwaiter.step]
      split
      · next hi => exact h.goOn hi rfl rfl (by simp)
      · exact h
  | hold =>
      simp only [EventAwaiter.step]
      split
      · exact { h with }
      · exact h
  | release => exact { h with }

/-- The callback is started by a call that stands before it. -/
theorem invoked_step {s : EventAwaiter} {e : Event} {i : Nat} (h : .invoked i ∈ (s.step e).2) :
    s.calls[i]? = some .calling := by
  cases e with
  | advance j =>
      simp only [step, advance] at h
      split at h
      · cases h
      · cases h
      · cases h
      · next hj =>
        cases List.mem_singleton.mp h
        exact hj
      all_goals cases h
  | notify | cancel | predicateEnds | callbackEnds | hold | release => cases h

end OptionX.Utils.EventAwaiter
