import OptionX.Telegram.SignalParser

/-!
# What the overlap pass keeps

The two loops over the sorted candidates reject exactly what `Lib.Spans.kept` leaves out, in spite of the early break.
-/

namespace OptionX.Telegram

open Lib (Spanned)
open Lib.Spans (clear clear_iff kept)
open Lib.Spanned (Overlap Sorted)

variable {α : Type} {same : α → α → Bool} {c : Spanned α} {before l : List (Spanned α)}

/-- The inner loop breaks where no later candidate overlaps, so that it says the same of all later candidates. -/
theorem rejectLater_eq (hsorted : Sorted (c :: l)) (rejected : Spanned α → Bool) :
    rejectLater same c l (l.map rejected) =
      (l.any fun d => d.first < c.last && !same c.value d.value, l.map fun d => rejected d || d.first < c.last) := by
  induction l with
  | nil => rfl
  | cons d l ih =>
    obtain ⟨hc, hrest⟩ := List.pairwise_cons.mp hsorted
    have hcl : Sorted (c :: l) :=
      List.pairwise_cons.mpr ⟨fun e he => hc e (by simp [he]), (List.pairwise_cons.mp hrest).2⟩
    rw [List.map_cons, rejectLater]
    by_cases hbreak : d.first ≥ c.last
    · have hlater : ∀ e ∈ d :: l, ¬ e.first < c.last := by
        intro e he
        rcases List.mem_cons.mp he with rfl | he
        · exact hbreak.not_gt
        · exact (hbreak.trans ((List.pairwise_cons.mp hrest).1 e he).first_le).not_gt
      have hany : ((d :: l).any fun e => e.first < c.last && !same c.value e.value) = false := by
        simp only [List.any_eq_false, Bool.and_eq_true, decide_eq_true_eq]
        exact fun e he h => hlater e he h.1
      have hmap : ((d :: l).map fun e => rejected e || decide (e.first < c.last)) = (d :: l).map rejected := by
        refine List.map_congr_left fun e he => ?_
        simp [hlater e he]
      rw [hany, hmap, if_pos hbreak, List.map_cons]
    · have hlt : d.first < c.last := not_le.mp hbreak
      simp [if_neg hbreak, ih hcl, hlt, Bool.or_comm]

/-- After the candidates of `before`, the flags of which reach into the list, the sweep leaves what is kept. -/
theorem emitted_sweep (before : List (Spanned α)) (hsorted : Sorted l) (start : Spanned α → Bool) :
    emitted l (rejectOverlaps same l (l.map fun c => start c || before.any (c.first < ·.last))).2 =
      kept (fun c => !start c) same before l := by
  induction l generalizing before with
  | nil => rfl
  | cons c l ih =>
    have hflags : (l.map fun d => (start d || before.any (d.first < ·.last)) || decide (d.first < c.last)) =
        l.map fun d => start d || (c :: before).any (d.first < ·.last) := by
      refine List.map_congr_left fun d _ => ?_
      simp only [List.any_cons, Bool.or_assoc]
      rw [Bool.or_comm (decide _)]
    have hkeep : (!((start c || before.any (c.first < ·.last)) ||
        l.any fun d => d.first < c.last && !same c.value d.value)) = (!start c && clear same before c l) := by
      simp only [clear, Bool.not_or, Bool.and_assoc, List.not_any_eq_all_not, Bool.not_and, Bool.not_not,
        ← decide_not, not_lt]
    rw [List.map_cons, rejectOverlaps, rejectLater_eq hsorted, hflags, kept]
    rw [← ih (c :: before) (List.pairwise_cons.mp hsorted).2]
    simp only [emitted, List.zip_cons_cons, List.filter_cons]
    rw [hkeep]
    split <;> simp

/-- What the sweep over a sorted list of candidates emits. -/
theorem emitted_eq_kept (hsorted : Sorted l) (start : Spanned α → Bool) :
    emitted l (rejectOverlaps same l (l.map start)).2 = kept (fun c => !start c) same [] l := by
  simpa using emitted_sweep [] hsorted start

/-! ## The two scans -/

/-- The fields that `same_signal` compares. -/
structure SignalMeaning where
  symbol : Text
  orderType : TradeExecution.OrderType
  optionType : TradeExecution.OptionType
  duration : Nat
  expiryTime : Int
  signalName : Text
  martingaleStep : Option Int
  deriving DecidableEq

/-- The fields that `same_outcome` compares. -/
structure OutcomeMeaning where
  symbol : Text
  orderType : TradeExecution.OrderType
  result : TelegramOutcomeResult
  market : TelegramAssetMarket
  martingaleStep : Option Int
  deriving DecidableEq

def TelegramParsedSignal.meaning (s : TelegramParsedSignal) : SignalMeaning :=
  ⟨s.symbol, s.orderType, s.optionType, s.duration, s.expiryTime, s.signalName, s.martingaleStep⟩

def TelegramParsedOutcome.meaning (o : TelegramParsedOutcome) : OutcomeMeaning :=
  ⟨o.symbol, o.orderType, o.result, o.market, o.martingaleStep⟩

theorem sameSignal_eq (left right : TelegramParsedSignal) : sameSignal left right = (left.meaning == right.meaning) := by
  rw [Bool.eq_iff_iff, beq_iff_eq]
  simp [sameSignal, TelegramParsedSignal.meaning]

theorem sameOutcome_eq (left right : TelegramParsedOutcome) :
    sameOutcome left right = (left.meaning == right.meaning) := by
  rw [Bool.eq_iff_iff, beq_iff_eq]
  simp [sameOutcome, TelegramParsedOutcome.meaning]

@[simp] theorem sameSignal_refl (s : TelegramParsedSignal) : sameSignal s s = true := by simp [sameSignal]

@[simp] theorem sameOutcome_refl (o : TelegramParsedOutcome) : sameOutcome o o = true := by simp [sameOutcome]

theorem sameSignal_comm (left right : TelegramParsedSignal) : sameSignal left right = sameSignal right left := by
  rw [sameSignal_eq, sameSignal_eq, Bool.beq_comm]

theorem sameOutcome_comm (left right : TelegramParsedOutcome) : sameOutcome left right = sameOutcome right left := by
  rw [sameOutcome_eq, sameOutcome_eq, Bool.beq_comm]

variable {config : TelegramParserConfig} {engine : Engine} {raw : TelegramRawMessage} {spans spans' : List TextSpan}
  {sortOutcomes sortOutcomes' : SpanSort TelegramParsedOutcome} {sortSignals sortSignals' : SpanSort TelegramParsedSignal}

theorem SpanSort.mem_run (sort : SpanSort α) : c ∈ sort.run l ↔ c ∈ l := (sort.perm l).mem_iff

theorem parseOutcomes_emitted : (parseOutcomes config engine raw sortOutcomes).emitted =
    kept (fun _ => true) sameOutcome [] (sortOutcomes.run (outcomeCandidates config engine raw)) :=
  emitted_eq_kept (sortOutcomes.sorted _) fun _ => false

theorem parseSignals_emitted : (parseSignals config engine raw sortSignals spans).emitted =
    kept (fun c => !(overlapsSpan spans c.first c.last || unmatchedExpiry engine raw c)) sameSignal []
      (sortSignals.run (signalCandidates config engine raw spans)) :=
  emitted_eq_kept (sortSignals.sorted _) _

/-- Every candidate of an outcome blocks its span. -/
theorem overlapsSpan_blocking {d : Spanned TelegramParsedOutcome} (hd : d ∈ outcomeCandidates config engine raw)
    {first last : Nat} (h : first < d.last ∧ d.first < last) :
    overlapsSpan (parseOutcomes config engine raw sortOutcomes).blockingSpans first last = true := by
  have hmem : (d.first, d.last) ∈ (parseOutcomes config engine raw sortOutcomes).blockingSpans :=
    List.mem_map_of_mem (sortOutcomes.mem_run.mpr hd)
  exact List.any_eq_true.mpr ⟨_, hmem, by simp [h]⟩

/-- The kept ones of two orders have the same meanings, where the test `ok` depends on the meaning. -/
theorem kept_meaning_perm {κ : Type} [DecidableEq κ] {meaning : α → κ} {ok : Spanned α → Bool}
    {sort sort' : SpanSort α} {l l' : List (Spanned α)} (ok' : Spanned κ → Bool) (hok : ∀ c, ok c = ok' (c.map meaning))
    (hsame : ∀ a b, same a b = (meaning a == meaning b)) (h : l.Perm l') :
    ((kept ok same [] (sort.run l)).map (Spanned.map meaning)).Perm
      ((kept ok same [] (sort'.run l')).map (Spanned.map meaning)) := by
  rw [Lib.Spans.map_kept hok hsame, Lib.Spans.map_kept hok hsame]
  have hperm : (sort.run l).Perm (sort'.run l') := (sort.perm l).trans (h.trans (sort'.perm l').symm)
  exact Lib.Spans.kept_perm (Spanned.sorted_map (sort.sorted l)) (Spanned.sorted_map (sort'.sorted l')) (hperm.map _)

/-! ## Rules in another order -/

section Rules

variable {signalRules : List TelegramSignalRule} {outcomeRules : List TelegramOutcomeRule}

theorem outcomeCandidates_perm (h : config.outcomeRules.Perm outcomeRules) :
    (outcomeCandidates config engine raw).Perm (outcomeCandidates { config with signalRules, outcomeRules } engine raw) :=
  (h.flatMap_right _).filterMap _

theorem signalCandidates_perm (h : config.signalRules.Perm signalRules) :
    (signalCandidates config engine raw spans).Perm
      (signalCandidates { config with signalRules, outcomeRules } engine raw spans) :=
  (h.flatMap_right _).filterMap _

theorem overlapsSpan_perm (h : spans.Perm spans') (first last : Nat) :
    overlapsSpan spans first last = overlapsSpan spans' first last := by
  rw [Bool.eq_iff_iff]
  simp only [overlapsSpan, List.any_eq_true, h.mem_iff]

/-- The signals depend on which spans block, not on their order. -/
theorem signalCandidates_spans (h : spans.Perm spans') :
    signalCandidates config engine raw spans = signalCandidates config engine raw spans' := by
  simp only [signalCandidates, signalMatches, overlapsSpan_perm h]

theorem parseOutcomes_perm (h : config.outcomeRules.Perm outcomeRules) :
    ((parseOutcomes config engine raw sortOutcomes).emitted.map (Spanned.map (·.meaning))).Perm
      ((parseOutcomes { config with signalRules, outcomeRules } engine raw sortOutcomes').emitted.map
        (Spanned.map (·.meaning))) := by
  rw [parseOutcomes_emitted, parseOutcomes_emitted]
  exact kept_meaning_perm (fun _ => true) (fun _ => rfl) sameOutcome_eq (outcomeCandidates_perm h)

theorem blockingSpans_perm (h : config.outcomeRules.Perm outcomeRules) :
    (parseOutcomes config engine raw sortOutcomes).blockingSpans.Perm
      (parseOutcomes { config with signalRules, outcomeRules } engine raw sortOutcomes').blockingSpans :=
  ((sortOutcomes.perm _).trans ((outcomeCandidates_perm h).trans (sortOutcomes'.perm _).symm)).map _

theorem parseSignals_perm (h : config.signalRules.Perm signalRules) (hspans : spans.Perm spans') :
    ((parseSignals config engine raw sortSignals spans).emitted.map (Spanned.map (·.meaning))).Perm
      ((parseSignals { config with signalRules, outcomeRules } engine raw sortSignals' spans').emitted.map
        (Spanned.map (·.meaning))) := by
  rw [parseSignals_emitted, parseSignals_emitted]
  simp only [← overlapsSpan_perm hspans, ← signalCandidates_spans hspans]
  -- the duration is a part of the meaning
  exact kept_meaning_perm (fun v => !(overlapsSpan spans v.first v.last ||
    (v.value.duration = 0 && engine.trailingExpiry ((raw.text.drop v.last).take 48)))) (fun _ => rfl) sameSignal_eq
    (signalCandidates_perm h)

end Rules

end OptionX.Telegram
