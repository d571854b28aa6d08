import OptionX.Telegram.Lemmas.Overlap
import OptionX.Telegram.Lemmas.SignalBridge

/-!
# Theorems about the bridge for messages

- `overlaps_resolved`: the signals and outcomes of a message are disjoint, unambiguous, and the same for every order of
  the rules.
- `sourceChains_right_iff`: outcomes reach the right chains in the runs in which no message with another live chain loses its
  key.
-/

namespace OptionX.Telegram

open Lib (Spanned)
open Lib.Spanned (Overlap)

variable {config : TelegramParserConfig} {engine : Engine} {raw : TelegramRawMessage}
  {sortOutcomes sortOutcomes' : SpanSort TelegramParsedOutcome} {sortSignals sortSignals' : SpanSort TelegramParsedSignal}

/-- What is emitted is disjoint and in text order; a signal overlaps no span on which an outcome was built; of two
candidates that overlap and differ, neither is emitted; and rules in another order, sorted in another way, emit the same
up to the fields that are compared. -/
theorem overlaps_resolved {signalRules : List TelegramSignalRule} {outcomeRules : List TelegramOutcomeRule}
    (hsignals : config.signalRules.Perm signalRules) (houtcomes : config.outcomeRules.Perm outcomeRules) :
    let outcomes := (scan config engine raw sortOutcomes sortSignals).1
    let signals := (scan config engine raw sortOutcomes sortSignals).2
    let reordered := scan { config with signalRules, outcomeRules } engine raw sortOutcomes' sortSignals'
    let candidates := signalCandidates config engine raw outcomes.blockingSpans
    ((parse config engine raw sortOutcomes sortSignals).signals = signals.emitted.map (·.value) ∧
      (parse config engine raw sortOutcomes sortSignals).outcomes = outcomes.emitted.map (·.value) ∧
      (∀ c ∈ signals.emitted, c ∈ candidates) ∧ ∀ c ∈ outcomes.emitted, c ∈ outcomeCandidates config engine raw) ∧
    ((signals.emitted.Pairwise fun c d => c.last ≤ d.first) ∧ outcomes.emitted.Pairwise fun c d => c.last ≤ d.first) ∧
    (∀ c ∈ signals.emitted, ∀ d ∈ outcomeCandidates config engine raw, ¬ (c.first < d.last ∧ d.first < c.last)) ∧
    (∀ c ∈ candidates, ∀ d ∈ candidates, Overlap c d → sameSignal c.value d.value = false →
      c ∉ signals.emitted ∧ d ∉ signals.emitted) ∧
    (∀ c ∈ outcomeCandidates config engine raw, ∀ d ∈ outcomeCandidates config engine raw, Overlap c d →
      sameOutcome c.value d.value = false → c ∉ outcomes.emitted ∧ d ∉ outcomes.emitted) ∧
    ((signals.emitted.map (Spanned.map (·.meaning))).Perm (reordered.2.emitted.map (Spanned.map (·.meaning))) ∧
      (outcomes.emitted.map (Spanned.map (·.meaning))).Perm (reordered.1.emitted.map (Spanned.map (·.meaning)))) := by
  simp only [scan]
  refine ⟨⟨rfl, rfl, ?_, ?_⟩, ⟨?_, ?_⟩, ?_, ?_, ?_, ?_, ?_⟩
  · intro c hc
    rw [parseSignals_emitted] at hc
    exact sortSignals.mem_run.mp (Lib.Spans.kept_subset hc)
  · intro c hc
    rw [parseOutcomes_emitted] at hc
    exact sortOutcomes.mem_run.mp (Lib.Spans.kept_subset hc)
  · rw [parseSignals_emitted]
    exact Lib.Spans.kept_pairwise _ _
  · rw [parseOutcomes_emitted]
    exact Lib.Spans.kept_pairwise _ _
  · intro c hc d hd hoverlap
    rw [parseSignals_emitted] at hc
    have hok := Lib.Spans.ok_of_mem_kept hc
    rw [overlapsSpan_blocking hd hoverlap] at hok
    simp at hok
  · intro c hc d hd hoverlap hdiffer
    rw [parseSignals_emitted]
    refine ⟨fun hmem => ?_, fun hmem => ?_⟩
    · have hsame := Lib.Spans.same_of_overlap sameSignal_refl hmem (sortSignals.mem_run.mpr hd) hoverlap
      simp [hdiffer] at hsame
    · have hsame := Lib.Spans.same_of_overlap sameSignal_refl hmem (sortSignals.mem_run.mpr hc) hoverlap.symm
      simp [sameSignal_comm, hdiffer] at hsame
  · intro c hc d hd hoverlap hdiffer
    rw [parseOutcomes_emitted]
    refine ⟨fun hmem => ?_, fun hmem => ?_⟩
    · have hsame := Lib.Spans.same_of_overlap sameOutcome_refl hmem (sortOutcomes.mem_run.mpr hd) hoverlap
      simp [hdiffer] at hsame
    · have hsame := Lib.Spans.same_of_overlap sameOutcome_refl hmem (sortOutcomes.mem_run.mpr hc) hoverlap.symm
      simp [sameOutcome_comm, hdiffer] at hsame
  · exact parseSignals_perm hsignals (blockingSpans_perm houtcomes)
  · exact parseOutcomes_perm houtcomes

/-! ## Two rules in both orders -/

/-- The helpers on a text in capitals without expiries, martingale steps or names. -/
def plainEngine : Engine where
  normalizeSymbol := id
  classifyMarket _ _ := .unknown
  canonicalSymbol symbol _ := symbol
  resolveDirection token := .ok (if token = bytes "BUY" then some .buy else if token = bytes "SELL" then some .sell else none)
  signalNameFromTail _ _ := []
  outcomeSignalNameFromMatch _ := []
  martingaleStepFromLine _ := .ok none
  hasOtcPrefix _ _ := false
  upper := id
  stoull _ := none
  trailingExpiry _ := false
  unsupportedExpiry _ := none

/-- An expression with one match. -/
def matchAt (position length : Nat) (groups : List (Option Text)) : Expression := fun text =>
  if h : position + length ≤ text.length then [⟨position, length, h, groups⟩] else []

/-- The rule of a symbol before a direction. -/
def pairRule : TelegramSignalRule where
  name := bytes "pair"
  expression := matchAt 0 10 [some (bytes "EURUSD BUY"), some (bytes "EURUSD"), some (bytes "BUY")]

/-- A rule that finds a shorter symbol in the same place. -/
def tailRule : TelegramSignalRule where
  name := bytes "tail"
  expression := matchAt 3 7 [some (bytes "USD BUY"), some (bytes "USD"), some (bytes "BUY")]

def buyMessage : TelegramRawMessage where
  chatId := bytes "1"
  chatTitle := bytes "signals"
  topicId := []
  messageId := 1
  dateMs := 0
  replyToMessageId := 0
  text := bytes "EURUSD BUY"

theorem overlaps_resolved_swapped :
    ((scan { signalRules := [pairRule, tailRule], outcomeRules := [] } plainEngine buyMessage .insertion
      .insertion).2.emitted.map (Spanned.map (·.meaning))).Perm
    ((scan { signalRules := [tailRule, pairRule], outcomeRules := [] } plainEngine buyMessage .insertion
      .insertion).2.emitted.map (Spanned.map (·.meaning))) :=
  (overlaps_resolved (List.Perm.swap tailRule pairRule []) (List.Perm.refl [])).2.2.2.2.2.1

/-! ## Source chains -/

namespace RuntimeState

/-- In every run the keys lead to the chains and each outcome has its effect on the right chain, precisely if no chain goes or
moves on while another one is at a step of the same message, and no outcome that ends a chain names another signal of its
message. -/
theorem sourceChains_right_iff (config : TelegramSignalBridgeConfig) (actions : List Action) :
    (∀ before action later, actions = before ++ action :: later →
        StepRight config (published before) (after config before) action) ↔
      ∀ before action later, actions = before ++ action :: later →
        Fits config (published before) (after config before) action := by
  apply Lib.Run.forall_before_iff (I := fun s : RuntimeState => s.chains.Linked)
  · exact fun before action hlinked => stepRight_iff hlinked action
  · exact fun before action hlinked hfits => ((stepRight_iff hlinked action).mpr hfits).linked
  · exact SourceChains.linked_empty

/-- Losses go on to the next of three steps. -/
def cobra : TelegramSourceChainRule where
  name := bytes "cobra"
  signalName := bytes "COBRA"
  continuationResult := .loss
  maxStep := 2
  timeoutSeconds := 1

/-- A message of one chat, which may be a reply. -/
def chatMessage (messageId replyToMessageId : Int) (text : Text) : TelegramRawMessage where
  chatId := bytes "-100"
  chatTitle := bytes "signals"
  topicId := []
  messageId := messageId
  dateMs := 1000
  replyToMessageId := replyToMessageId
  text := text

def firstSteps : TelegramRawMessage :=
  chatMessage 124 0 (bytes "EURUSD BUY 5m COBRA MG-0\nGBPUSD BUY 5m COBRA MG-0")

/-- The first step of a series. -/
def firstStep (symbol : Text) : TelegramParsedSignal where
  sourceMessageIdentity := firstSteps.messageIdentity
  sourceDateMs := 1000
  symbol := symbol
  orderType := .buy
  optionType := .sprint
  duration := 300
  signalName := bytes "COBRA"
  martingaleStep := some 0
  rawText := symbol ++ bytes " BUY 5m COBRA MG-0"

def lossReply : TelegramRawMessage := chatMessage 125 124 (bytes "EURUSD LOSS")

def eurusdLoss : TelegramParsedOutcome where
  sourceMessageIdentity := lossReply.messageIdentity
  sourceDateMs := 1000
  replyToMessageIdentity := lossReply.replyToMessageIdentity
  symbol := bytes "EURUSD"
  result := .loss
  martingaleStep := none
  signalName := []
  rawText := bytes "EURUSD LOSS"

/-- Two signals come in one message and are dispatched, and the first one loses. -/
def twoSignals : List Action :=
  [.run, .receive firstSteps { signals := [firstStep (bytes "EURUSD"), firstStep (bytes "GBPUSD")] } 1000] ++
    List.replicate 8 (.intake { allocated := some 1, callback := .returns }) ++
    [.intake {}, .receive lossReply { outcomes := [eurusdLoss] } 2000]

def cobraConfig : TelegramSignalBridgeConfig where
  sourceChainRules := [cobra]

/-- The outcome ends the chain of the second signal, and the chain that it matches has no key any more. -/
theorem sourceChains_right_twoSignals :
    ¬ ∀ before action later, twoSignals ++ [.intake {}] = before ++ action :: later →
      StepRight cobraConfig (published before) (after cobraConfig before) action := by
  intro hright
  have hlast := hright twoSignals (.intake {}) [] rfl
  let chains := (step cobraConfig (after cobraConfig twoSignals) (.intake {})).1.chains
  let key := sourceChainKey firstSteps (firstStep (bytes "EURUSD")) cobra
  have hchain : (chains.groups.find? key).map SourceChainState.message = some firstSteps.messageIdentity := by
    decide +kernel
  have hkey : chains.signalGroups.find? firstSteps.messageIdentity = none := by decide +kernel
  obtain ⟨chain, hlive, hmessage⟩ := Option.map_eq_some_iff.mp hchain
  obtain ⟨key', hkey'⟩ := hlast.linked.bound key chain hlive
  rw [hmessage, hkey] at hkey'
  cases hkey'

end RuntimeState

end OptionX.Telegram
