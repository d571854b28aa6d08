import OptionX.Platforms.Lemmas.BaseTradingPlatform

/-!
# The platform's lifecycle

What becomes of posted work, of the initialisation and of the loop over a whole run.
-/

namespace OptionX.Platforms.BaseTradingPlatform

open Lib.Run (exec trace)

/-- All that is said in a run. -/
def said (es : List Event) : List Notice := (trace step {} es).flatMap (·.answer)

/-- No call takes tasks over while another is in progress. -/
def AloneRun (es : List Event) : Prop := ∀ t ∈ trace step {} es, Alone t.before t.event

instance (es : List Event) : Decidable (AloneRun es) := List.decidableBAll ..

theorem orderly_run {es : List Event} (h : AloneRun es) : Orderly (said es) (exec step {} es) := by
  refine Lib.Run.history_induct (H := fun ts s => Orderly (ts.flatMap (·.answer)) s)
    (C := fun t => Alone t.before t.event) (fun ts s e hs hc => ?_) .empty h
  simpa using hs.step e hc

theorem AloneRun.of_append {es es' : List Event} (h : AloneRun (es ++ es')) : AloneRun es := fun t ht =>
  h t (by
    rw [Lib.Run.trace_append]
    exact List.mem_append_left _ ht)

theorem said_append (es : List Event) (e : Event) : said (es ++ [e]) = said es ++ (step (exec step {} es) e).2 := by
  simp [said, Lib.Run.trace_append]

/-- Every accepted post is known by a number of its own. -/
theorem accepted_once {es : List Event} (h : AloneRun es) (id : Nat) : (said es).count (.accepted id) ≤ 1 := by
  induction es using List.reverseRecOn with
  | nil => exact Nat.zero_le 1
  | append_singleton es e ih =>
      have hs := orderly_run h.of_append
      have hih := ih h.of_append
      rw [said_append, List.count_append]
      by_cases hid : .accepted id ∈ ((exec step {} es).step e).2
      · rcases step_said hid with rfl | ⟨⟨nowMs, rfl⟩, ⟨hn, -⟩ | ⟨hn, -⟩⟩
        · obtain ⟨t, -, ht, -⟩ := hs.turn_said hid
          rcases mem_callback ht with ⟨-, hn | ⟨hn, -⟩ | hn⟩ | ⟨-, hn⟩ <;> cases hn
        · cases hn
        · -- the number is new
          obtain rfl := Notice.accepted.inj hn
          have hnew : .accepted (exec step {} es).nextId ∉ said es := fun hmem => lt_irrefl _ (hs.tasks.posted _ hmem)
          rw [List.count_eq_zero.mpr hnew, Nat.zero_add]
          exact (List.count_le_length).trans (postTask_length _ _)
      · rw [List.count_eq_zero.mpr hid]
        exact hih

/-- What the callbacks do otherwise than cancel is done before the shutdown, -/
theorem Orderly.works {ns : List Notice} {s : BaseTradingPlatform} (h : Orderly ns s) {e : Event} {n : Notice}
    (hn : n ∈ (s.step e).2) (hrefused : n ≠ .refused) (haccepted : ∀ id, n ≠ .accepted id)
    (hcancelled : ∀ id, n ≠ .cancelled id) : s.shutdownStage = .idle ∨ s.shutdownStage = .entered := by
  rcases step_said hn with rfl | ⟨-, ⟨hn, -⟩ | ⟨hn, -⟩⟩
  · obtain ⟨t, ht, hsaid, -⟩ := h.turn_said hn
    rcases mem_callback hsaid with ⟨hflag, -⟩ | ⟨-, hn⟩
    · exact h.open_of_turn ht hflag
    · exact absurd hn (hcancelled _)
  · exact absurd hn hrefused
  · exact absurd hn (haccepted _)

/-- and what they cancel during it. -/
theorem Orderly.cancels {ns : List Notice} {s : BaseTradingPlatform} (h : Orderly ns s) {e : Event} {id : Nat}
    (hn : .cancelled id ∈ (s.step e).2) : s.taskShutdown = true := by
  rcases step_said hn with rfl | ⟨-, ⟨hn, -⟩ | ⟨hn, -⟩⟩
  · obtain ⟨t, -, hsaid, -⟩ := h.turn_said hn
    rcases mem_callback hsaid with ⟨-, hn | ⟨hn, -⟩ | hn⟩ | ⟨hflag, -⟩
    · cases hn
    · cases hn
    · cases hn
    · exact hflag
  · cases hn
  · cases hn

/-- Work posted in a run is resolved at most once, as soon as `shutdown` has returned exactly once, and never if it was
refused; the components are initialised at most once, and before they are processed; once `shutdown` has returned
nothing starts any more. -/
theorem lifecycle_exact {es : List Event} (h : AloneRun es) :
    (∀ id, (said es).count (.accepted id) ≤ 1 ∧ resolved (said es) id ≤ (said es).count (.accepted id) ∧
      ((exec step {} es).shutdownStage = .returned → resolved (said es) id = (said es).count (.accepted id))) ∧
    (said es).count .initialized ≤ 1 ∧
    ∀ pre e post, es = pre ++ e :: post →
      let s := exec step {} pre
      let r := step s e
      (.looped ∈ r.2 → .initialized ∈ said pre) ∧
      ((.initialized ∈ r.2 ∨ .looped ∈ r.2 ∨ ∃ id, .worked id ∈ r.2) →
        s.shutdownStage = .idle ∨ s.shutdownStage = .entered) ∧
      ((∃ id, .cancelled id ∈ r.2) → s.taskShutdown = true) ∧
      (.refused ∈ r.2 → r.1 = s) ∧
      (s.shutdownStage = .returned →
        (∀ n ∈ r.2, n = .refused) ∧
        ((∃ w, e = .run w) ∨ (∃ nowMs, e = .runAdvance nowMs) ∨ (∃ nowMs, e = .postTask nowMs) → r.1 = s)) := by
  have hs := orderly_run h
  refine ⟨fun id => ⟨accepted_once h id, ?_⟩, ?_, ?_⟩
  · have honce := accepted_once h id
    by_cases hid : .accepted id ∈ said es
    · have hcount : (said es).count (.accepted id) = 1 := le_antisymm honce (List.count_pos_iff.mpr hid)
      rw [hcount]
      exact ⟨hs.tasks.resolved_le hid, fun hret => hs.tasks.done id hid (by
        rw [hs.emptied (.inl (by simp [hret, ShutdownStage.over]))]
        simp)⟩
    · rw [hs.tasks.unknown id hid, List.count_eq_zero.mpr hid]
      exact ⟨le_refl 0, fun _ => rfl⟩
  · have hinit := hs.tasks.initOnce
    omega
  · rintro pre e post rfl
    have hp := orderly_run h.of_append
    intro s r
    refine ⟨fun hn => ?_, fun hn => ?_, fun hn => ?_, fun hn => ?_, fun hret => ⟨fun n hn => ?_, fun he => ?_⟩⟩
    · exact hp.initialized_before hn
    · rcases hn with hn | hn | ⟨id, hn⟩ <;> exact hp.works hn (by simp) (by simp) (by simp)
    · obtain ⟨id, hn⟩ := hn
      exact hp.cancels hn
    · rcases step_said hn with rfl | ⟨-, ⟨-, hsame⟩ | ⟨hacc, -⟩⟩
      · obtain ⟨t, -, ht, -⟩ := hp.turn_said hn
        rcases mem_callback ht with ⟨-, hn | ⟨hn, -⟩ | hn⟩ | ⟨-, hn⟩ <;> cases hn
      · exact hsame
      · cases hacc
    · rcases step_said hn with rfl | ⟨-, ⟨href, -⟩ | ⟨-, hstop⟩⟩
      · obtain ⟨t, ht, -⟩ := hp.turn_said hn
        rw [hp.emptied (.inl (by
          rw [hret]
          rfl))] at ht
        cases ht
      · exact href
      · rw [hp.stages.stopping.mp hstop] at hret
        cases hret
    · exact hp.stages.closed hret he

/-- A worker runs work 2; work 3 comes when it has taken over what is pending, and is cancelled by its last call. -/
def shutdownRun : List Event :=
  [.run true, .runAdvance 5, .runAdvance 5, .runAdvance 5, .postTask 5, .workerTake, .begin 0 5, .advance, .advance,
    .advance, .advance, .workerTake, .postTask 8, .shutdown, .shutdownAdvance, .begin 0 9, .advance, .advance,
    .workerLeave, .workerTake, .begin 0 10, .advance, .advance, .shutdownAdvance, .shutdownAdvance, .postTask 11]

theorem lifecycle_exact_shutdownRun :
    said shutdownRun = [.accepted 2, .initialized, .worked 2, .accepted 3, .cancelled 3, .refused] ∧
      resolved (said shutdownRun) 3 = (said shutdownRun).count (.accepted 3) :=
  ⟨by decide, ((@lifecycle_exact shutdownRun (by decide)).1 3).2.2 (by decide)⟩

/-- `process` takes work 0 over and `shutdown` runs as a whole before it goes on. -/
def overlappingRun : List Event :=
  [.postTask 5, .process, .shutdown, .shutdownAdvance, .shutdownAdvance, .begin 1 6, .advance, .shutdownAdvance,
    .shutdownAdvance, .begin 0 7, .advance]

/-- The work is neither run nor cancelled when `shutdown` returns, and is run after it. -/
theorem overlapping_process :
    (exec step {} (overlappingRun.take 9)).shutdownStage = .returned ∧ said (overlappingRun.take 9) = [.accepted 0] ∧
      said overlappingRun = [.accepted 0, .worked 0] := by
  decide

end OptionX.Platforms.BaseTradingPlatform
