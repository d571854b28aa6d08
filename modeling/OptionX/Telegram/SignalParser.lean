import OptionX.Lib.Spans
import OptionX.TradeExecution.Types

/-!
# Signals and outcomes of a message

`parse_outcomes` and `parse_signals` of `TelegramSignalParser.hpp`. What the regular expressions find is a parameter: a
rule gives the matches of its expression in a text, and the searches inside a match are the fields of `Engine`.
-/

namespace OptionX.Telegram

open Lib (Spanned)
open TradeExecution (OptionType)

abbrev Text := List UInt8

/-- The fields of a message that passed `validate` on which the parser depends. -/
structure TelegramRawMessage where
  chatId : Text
  chatTitle : Text
  topicId : Text
  messageId : Int
  dateMs : Int
  replyToMessageId : Int
  text : Text

inductive TelegramAssetMarket where
  | unknown | otc
  deriving DecidableEq, Repr

structure TelegramParsedSignal where
  sourceMessageIdentity : Text
  sourceDateMs : Int
  symbol : Text
  orderType : TradeExecution.OrderType := .unknown
  optionType : OptionType := .unknown
  /-- In seconds, below 2^32. -/
  duration : Nat := 0
  expiryTime : Int := 0
  signalName : Text
  martingaleStep : Option Int
  rawText : Text
  market : TelegramAssetMarket := .unknown
  deriving DecidableEq, Repr

inductive TelegramOutcomeResult where
  | unknown | win | loss | refund
  deriving DecidableEq, Repr

structure TelegramParsedOutcome where
  sourceMessageIdentity : Text
  sourceDateMs : Int
  replyToMessageIdentity : Text
  symbol : Text := []
  orderType : TradeExecution.OrderType := .unknown
  result : TelegramOutcomeResult := .unknown
  martingaleStep : Option Int
  signalName : Text
  rawText : Text
  market : TelegramAssetMarket := .unknown
  deriving DecidableEq, Repr

structure TelegramParseDiagnostic where
  code : String
  message : String
  offset : Nat
  length : Nat
  deriving DecidableEq, Repr

structure TelegramParsedMessage where
  signals : List TelegramParsedSignal := []
  outcomes : List TelegramParsedOutcome := []
  diagnostics : List TelegramParseDiagnostic := []

def bytes (s : String) : Text := s.toUTF8.toList

/-- `"telegram:" + chat_id + ":" + topic + ":" + id`. -/
def identityOf (raw : TelegramRawMessage) (id : Int) : Text :=
  bytes "telegram:" ++ raw.chatId ++ bytes ":" ++ (if raw.topicId = [] then bytes "0" else raw.topicId) ++ bytes ":" ++
    bytes (toString id)

def TelegramRawMessage.messageIdentity (raw : TelegramRawMessage) : Text := identityOf raw raw.messageId

def TelegramRawMessage.replyToMessageIdentity (raw : TelegramRawMessage) : Text :=
  if raw.replyToMessageId ≤ 0 then [] else identityOf raw raw.replyToMessageId

/-- One match of an expression in a text: where it stands, and its groups, of which the first is the match itself. -/
structure SMatch (text : Text) where
  position : Nat
  length : Nat
  inside : position + length ≤ text.length
  groups : List (Option Text)

namespace SMatch

variable {text : Text}

def str (m : SMatch text) : Text := (text.drop m.position).take m.length

/-- `has_group` with the text of the group. -/
def group? (m : SMatch text) (group : Nat) : Option Text := if group = 0 then none else (m.groups[group]?).join

end SMatch

/-- What `std::sregex_iterator` gives for the expression of a rule. -/
abbrev Expression := (text : Text) → List (SMatch text)

structure TelegramSignalRule where
  name : Text
  expression : Expression
  symbolGroup : Nat := 1
  directionGroup : Nat := 2
  expiryGroup : Nat := 3
  unitGroup : Nat := 4
  optionType : OptionType := .sprint

structure TelegramOutcomeRule where
  name : Text
  expression : Expression
  symbolGroup : Nat := 1
  resultGroup : Nat := 2
  fixedResult : TelegramOutcomeResult := .unknown
  directionGroup : Nat := 0

inductive TelegramExpiryMode where
  | unknown | timeframeDuration | barEnd | customDuration
  deriving DecidableEq, Repr

structure TelegramExpiryPolicy where
  mode : TelegramExpiryMode := .timeframeDuration
  customDurationSeconds : Nat := 0

structure TelegramParserConfig where
  expiryPolicy : TelegramExpiryPolicy := {}
  signalRules : List TelegramSignalRule
  outcomeRules : List TelegramOutcomeRule
  useChatTitleAsSignalName : Bool := true

/-- The helpers of the parser that rest on regular expressions, on the direction rules and on the martingale rules. -/
structure Engine where
  normalizeSymbol : Text → Text
  classifyMarket : Text → Text → TelegramAssetMarket
  canonicalSymbol : Text → TelegramAssetMarket → Text
  resolveDirection : Text → Except String (Option TradeExecution.OrderType)
  signalNameFromTail : Text → Nat → Text
  outcomeSignalNameFromMatch : Text → Text
  martingaleStepFromLine : Text → Except String (Option Int)
  hasOtcPrefix : Text → Nat → Bool
  upper : Text → Text
  /-- `std::stoull` with the number of characters it consumed. -/
  stoull : Text → Option (Nat × Nat)
  trailingExpiry : Text → Bool
  /-- Where the expression of an unsupported expiry matches first, and over how many characters. -/
  unsupportedExpiry : Text → Option (Nat × Nat)

def lineFeed : UInt8 := 10

/-- The line of the match: from behind the last line feed before it, up to the first one from its end on. -/
def lineText (text : Text) (first last : Nat) : Text :=
  let lineBegin := (List.range (max first 1)).reverse.find? fun i => text[i]? = some lineFeed
  let lineEnd := (List.range text.length).find? fun i => last ≤ i ∧ text[i]? = some lineFeed
  let start := lineBegin.elim 0 (· + 1)
  match lineEnd with
  | none => text.drop start
  -- the length of an empty match on a leading line feed wraps, and the text goes on to its end
  | some stop => if stop < start then text.drop start else (text.drop start).take (stop - start)

def parseDuration (engine : Engine) (value unit : Text) : Except String Nat :=
  match engine.stoull value with
  | none => .error "expiry amount is invalid"
  | some (amount, consumed) =>
    if consumed ≠ value.length ∨ amount = 0 then .error "expiry amount is invalid"
    else
      let normalizedUnit := engine.upper unit
      let multiplier :=
        if [bytes "S", bytes "SEC", bytes "SECS"].contains normalizedUnit then 1
        else if [bytes "M", bytes "MIN", bytes "MINS"].contains normalizedUnit then 60
        else if [bytes "H", bytes "HR", bytes "HOUR", bytes "HOURS"].contains normalizedUnit then 60 * 60
        else 0
      if multiplier = 0 then .error "expiry unit is unsupported"
      else if amount > (2 ^ 32 - 1) / multiplier then .error "expiry duration is too large"
      else .ok (amount * multiplier)

def barEndExpiryTime (timestampMs : Int) (timeframeSeconds : Nat) : Except String Int :=
  if timestampMs ≤ 0 ∨ timeframeSeconds = 0 then
    .error "Telegram bar-end expiry requires a positive message time and timeframe"
  else
    let periodMs := timeframeSeconds * 1000
    let barIndex := timestampMs.toNat / periodMs
    if barIndex ≥ (2 ^ 64 - 1) / periodMs then .error "Telegram bar-end expiry is too large"
    else
      let endMs := (barIndex + 1) * periodMs
      if endMs > 2 ^ 63 - 1 then .error "Telegram bar-end expiry is too large"
      else .ok (endMs / 1000 : Nat)

def applyExpiryPolicy (policy : TelegramExpiryPolicy) (signal : TelegramParsedSignal) (raw : TelegramRawMessage)
    (timeframeSeconds : Nat) : Except String TelegramParsedSignal :=
  match policy.mode with
  | .timeframeDuration => .ok { signal with optionType := .sprint, duration := timeframeSeconds, expiryTime := 0 }
  | .barEnd => do
      let expiryTime ← barEndExpiryTime raw.dateMs timeframeSeconds
      return { signal with optionType := .classic, duration := 0, expiryTime }
  | .customDuration =>
      .ok { signal with optionType := .sprint, duration := policy.customDurationSeconds, expiryTime := 0 }
  | .unknown => .error "Telegram expiry mode is unsupported"

def buildSignal (config : TelegramParserConfig) (engine : Engine) (raw : TelegramRawMessage) (rule : TelegramSignalRule)
    (m : SMatch raw.text) : Except String TelegramParsedSignal := do
  let some symbol := m.group? rule.symbolGroup | throw "signal rule has no symbol"
  let market := engine.classifyMarket symbol m.str
  let line := lineText raw.text m.position (m.position + m.length)
  let orderType ← match m.group? rule.directionGroup with
    | some token => do
        let some direction ← engine.resolveDirection token | throw "signal direction is unsupported"
        pure direction
    | none => do
        let some direction ← engine.resolveDirection line | throw "signal direction is missing"
        pure direction
  let tailName := engine.signalNameFromTail raw.text (m.position + m.length)
  let signal : TelegramParsedSignal :=
    { sourceMessageIdentity := raw.messageIdentity
      sourceDateMs := raw.dateMs
      market
      symbol := engine.canonicalSymbol (engine.normalizeSymbol symbol) market
      orderType
      optionType := rule.optionType
      signalName := if tailName ≠ [] then tailName
        else if config.useChatTitleAsSignalName then raw.chatTitle else rule.name
      rawText := m.str
      martingaleStep := ← engine.martingaleStepFromLine line }
  match m.group? rule.expiryGroup with
  | some expiry => do
      let some unit := m.group? rule.unitGroup | throw "signal expiry has no unit"
      applyExpiryPolicy config.expiryPolicy signal raw (← parseDuration engine expiry unit)
  | none =>
      if config.expiryPolicy.mode = .customDuration then applyExpiryPolicy config.expiryPolicy signal raw 0
      else return signal

def outcomeFromToken (engine : Engine) (value : Text) : TelegramOutcomeResult :=
  let token := engine.upper value
  if token = bytes "WIN" then .win
  else if token = bytes "LOSS" then .loss
  else if token = bytes "REFUND" then .refund
  else .unknown

/-- The body of the loop of `parse_outcomes`. -/
def buildOutcome (engine : Engine) (raw : TelegramRawMessage) (rule : TelegramOutcomeRule) (m : SMatch raw.text) :
    Except String TelegramParsedOutcome := do
  if rule.fixedResult = .unknown ∧ m.group? rule.resultGroup = none then throw "outcome rule has no result"
  let line := lineText raw.text m.position (m.position + m.length)
  let (symbol, market) : Text × TelegramAssetMarket := match m.group? rule.symbolGroup with
    | none => ([], .unknown)
    | some symbol =>
        let market := engine.classifyMarket symbol m.str
        let market := if market = .unknown ∧ engine.hasOtcPrefix raw.text m.position then .otc else market
        (engine.canonicalSymbol (engine.normalizeSymbol symbol) market, market)
  let direction ← match m.group? rule.directionGroup with
    | some token => engine.resolveDirection token
    | none => engine.resolveDirection line
  let name := engine.outcomeSignalNameFromMatch m.str
  return {
    sourceMessageIdentity := raw.messageIdentity
    sourceDateMs := raw.dateMs
    replyToMessageIdentity := raw.replyToMessageIdentity
    symbol
    market
    result := match m.group? rule.resultGroup with
      | some token => outcomeFromToken engine token
      | none => rule.fixedResult
    orderType := direction.getD .unknown
    signalName := if name ≠ [] then name else raw.chatTitle
    rawText := m.str
    martingaleStep := ← engine.martingaleStepFromLine line }

def sameSignal (left right : TelegramParsedSignal) : Bool :=
  left.symbol = right.symbol ∧ left.orderType = right.orderType ∧ left.optionType = right.optionType ∧
    left.duration = right.duration ∧ left.expiryTime = right.expiryTime ∧ left.signalName = right.signalName ∧
    left.martingaleStep = right.martingaleStep

def sameOutcome (left right : TelegramParsedOutcome) : Bool :=
  left.symbol = right.symbol ∧ left.orderType = right.orderType ∧ left.result = right.result ∧
    left.market = right.market ∧ left.martingaleStep = right.martingaleStep

/-! ## Candidates and the sweep -/

variable {α : Type}

/-- `std::sort` with the comparison of the candidates by begin and end: it may leave equal spans in any order. -/
structure SpanSort (α : Type) where
  run : List (Spanned α) → List (Spanned α)
  perm : ∀ l, (run l).Perm l
  sorted : ∀ l, Spanned.Sorted (run l)

/-- One such sort, which keeps the order of equal spans. -/
def SpanSort.insertion : SpanSort α where
  run := List.insertionSort Spanned.Before
  perm := List.perm_insertionSort _
  sorted := List.pairwise_insertionSort _

/-- A match with what was built from it, or the text of the exception. -/
structure Built (α : Type) where
  first : Nat
  length : Nat
  value : Except String α

def Built.candidate? (b : Built α) : Option (Spanned α) :=
  match b.value with
  | .ok value => some ⟨b.first, b.first + b.length, value, Nat.le_add_right _ _⟩
  | .error _ => none

def Built.diagnostic? (code : String) (b : Built α) : Option TelegramParseDiagnostic :=
  match b.value with
  | .ok _ => none
  | .error message => some ⟨code, message, b.first, b.length⟩

/-- The inner loop, from candidate `i` over the later ones: whether a difference rejects `i`, and the later flags. -/
def rejectLater (same : α → α → Bool) (c : Spanned α) : List (Spanned α) → List Bool → Bool × List Bool
  | d :: rest, rejected :: flags =>
    if d.first ≥ c.last then (false, rejected :: flags)
    else
      let later := rejectLater same c rest flags
      (later.1 || !same c.value d.value, true :: later.2)
  | _, flags => (false, flags)

/-- The outer loop: whether some overlap was ambiguous, and the flags at the end. -/
def rejectOverlaps (same : α → α → Bool) : List (Spanned α) → List Bool → Bool × List Bool
  | c :: rest, rejected :: flags =>
    let later := rejectLater same c rest flags
    let final := rejectOverlaps same rest later.2
    (later.1 || final.1, (rejected || later.1) :: final.2)
  | _, flags => (false, flags)

/-- The candidates that are not rejected. -/
def emitted (candidates : List (Spanned α)) (rejected : List Bool) : List (Spanned α) :=
  ((candidates.zip rejected).filter fun p => !p.2).map (·.1)

abbrev TextSpan := Nat × Nat

def overlapsSpan (spans : List TextSpan) (first last : Nat) : Bool :=
  spans.any fun span => first < span.2 && span.1 < last

/-! ## Outcomes -/

variable (config : TelegramParserConfig) (engine : Engine) (raw : TelegramRawMessage)

def outcomeMatches : List (Built TelegramParsedOutcome) :=
  config.outcomeRules.flatMap fun rule => (rule.expression raw.text).map fun m =>
    ⟨m.position, m.length, buildOutcome engine raw rule m⟩

def outcomeCandidates : List (Spanned TelegramParsedOutcome) :=
  (outcomeMatches config engine raw).filterMap Built.candidate?

/-- The outcomes that are emitted, with their spans, the blocking spans, and the diagnostics. -/
structure OutcomeScan where
  emitted : List (Spanned TelegramParsedOutcome)
  blockingSpans : List TextSpan
  diagnostics : List TelegramParseDiagnostic

def parseOutcomes (sort : SpanSort TelegramParsedOutcome) : OutcomeScan :=
  let candidates := sort.run (outcomeCandidates config engine raw)
  let rejected := rejectOverlaps sameOutcome candidates (candidates.map fun _ => false)
  { emitted := emitted candidates rejected.2
    blockingSpans := candidates.map fun c => (c.first, c.last)
    diagnostics := (outcomeMatches config engine raw).filterMap (Built.diagnostic? "invalid_outcome_match") ++
      if rejected.1 then [⟨"ambiguous_overlapping_outcome", "overlapping outcome rules produced different meanings", 0,
        raw.text.length⟩] else [] }

/-! ## Signals -/

def signalMatches (outcomeSpans : List TextSpan) : List (Built TelegramParsedSignal) :=
  config.signalRules.flatMap fun rule =>
    ((rule.expression raw.text).filter fun m => !overlapsSpan outcomeSpans m.position (m.position + m.length)).map
      fun m => ⟨m.position, m.length, buildSignal config engine raw rule m⟩

def signalCandidates (outcomeSpans : List TextSpan) : List (Spanned TelegramParsedSignal) :=
  (signalMatches config engine raw outcomeSpans).filterMap Built.candidate?

/-- A candidate without a duration before a text that looks like one. -/
def unmatchedExpiry (c : Spanned TelegramParsedSignal) : Bool :=
  c.value.duration = 0 && engine.trailingExpiry ((raw.text.drop c.last).take 48)

/-- The signals that are emitted, with their spans, and the diagnostics. -/
structure SignalScan where
  emitted : List (Spanned TelegramParsedSignal)
  diagnostics : List TelegramParseDiagnostic

def parseSignals (sort : SpanSort TelegramParsedSignal) (outcomeSpans : List TextSpan) : SignalScan :=
  let candidates := sort.run (signalCandidates config engine raw outcomeSpans)
  let rejected := rejectOverlaps sameSignal candidates
    (candidates.map fun c => overlapsSpan outcomeSpans c.first c.last || unmatchedExpiry engine raw c)
  let signals := emitted candidates rejected.2
  { emitted := signals
    diagnostics :=
      (signalMatches config engine raw outcomeSpans).filterMap (Built.diagnostic? "invalid_signal_match") ++
      (if rejected.1 then [⟨"ambiguous_overlapping_signal", "overlapping signal rules produced different meanings", 0,
        raw.text.length⟩] else []) ++
      if candidates.any (unmatchedExpiry engine raw) then
        [⟨"unmatched_expiry", "signal expiry was not recognized", 0, raw.text.length⟩]
      else if signals.isEmpty && !raw.text.isEmpty then
        match engine.unsupportedExpiry raw.text with
        | some (position, length) => [⟨"unmatched_expiry", "signal expiry was not recognized", position, length⟩]
        | none => []
      else [] }

/-- The two scans, outcomes first. -/
def scan (sortOutcomes : SpanSort TelegramParsedOutcome) (sortSignals : SpanSort TelegramParsedSignal) :
    OutcomeScan × SignalScan :=
  let outcomes := parseOutcomes config engine raw sortOutcomes
  (outcomes, parseSignals config engine raw sortSignals outcomes.blockingSpans)

def parse (sortOutcomes : SpanSort TelegramParsedOutcome) (sortSignals : SpanSort TelegramParsedSignal) :
    TelegramParsedMessage :=
  let (outcomes, signals) := scan config engine raw sortOutcomes sortSignals
  { signals := signals.emitted.map (·.value)
    outcomes := outcomes.emitted.map (·.value)
    diagnostics := outcomes.diagnostics ++ signals.diagnostics }

end OptionX.Telegram
