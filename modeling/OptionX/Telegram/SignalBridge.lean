import Mathlib.Data.Finset.Basic
import Mathlib.Data.List.Lex
import OptionX.Lib.Index
import OptionX.Lib.Run
import OptionX.Telegram.SignalParser

/-!
# The signal bridge

The intake of messages, the source chains with their watchdog, and the results of the broker of `TelegramSignalBridge.hpp`
with one configuration. Each action is what happens while the mutex is held once, so that the actions of the intake, of the
watchdog and of the broker come in any order. What the clock, the allocator, the callback and the validation of a signal do
is part of an action. Reports, and amounts, are left out.
-/

namespace OptionX.Telegram

open TradeExecution (OptionType)

/-- Keys in the order of their bytes. -/
scoped instance keyOrder : LinearOrder Text :=
  LinearOrder.lift' (List.map UInt8.toNat) (List.map_injective_iff.mpr fun _ _ => UInt8.toNat_inj.mp)
/-- `std::unordered_map`; nothing depends on the order in which the entries are met. -/
abbrev UnorderedMap := Lib.OrderedMap

/-! ## Configuration -/

inductive TelegramMartingalePolicy where
  | unknown | allSignals | firstSignalOnly | contiguousSteps
  deriving DecidableEq, Repr

inductive TelegramSourceChainAction where
  | unknown | reportOnly | emitAssumedSignal
  deriving DecidableEq, Repr

structure TelegramSourceChainRule where
  name : Text
  signalName : Text
  continuationResult : TelegramOutcomeResult := .unknown
  maxStep : Nat := 0
  timeoutSeconds : Nat := 15
  action : TelegramSourceChainAction := .reportOnly

structure TelegramSignalBridgeConfig where
  dedupeCacheSize : Nat := 4096
  maxSignalAgeSeconds : Nat := 0
  martingalePolicy : TelegramMartingalePolicy := .allSignals
  antiMartingaleEnabled : Bool := false
  antiMartingaleMaxSteps : Nat := 1
  sourceChainRules : List TelegramSourceChainRule := []

/-! ## State -/

structure AntiMartingaleGroupState where
  nextStep : Nat := 0
  pendingTrade : Bool := false
  pendingSignalId : Nat := 0

structure SourceChainState where
  raw : TelegramRawMessage
  parsed : TelegramParsedSignal
  rule : TelegramSourceChainRule
  /-- Never negative. -/
  step : Int
  waiting : Bool := false
  /-- In milliseconds of the steady clock. -/
  deadline : Int := 0

/-- The source chains by their keys, and the keys by the messages that outcomes reply to. -/
structure SourceChains where
  groups : UnorderedMap Text SourceChainState := .empty
  signalGroups : UnorderedMap Text Text := .empty

/-- What was reserved for a signal until it is dispatched. -/
structure Reservation where
  dedupeKey : Text
  sequenceKey : Text := []
  martingaleStepRecorded : Bool := false
  previousMartingaleStep : Option Int := none
  antiMartingaleKey : Text := []
  antiMartingalePending : Bool := false

/-- What is left to do for a message. -/
inductive Work where
  | outcome (outcome : TelegramParsedOutcome)
  | signal (signal : TelegramParsedSignal) (index : Nat)
  | dispatch (signal : TelegramParsedSignal) (reservation : Reservation)
  | remember (signal : TelegramParsedSignal) (reservation : Reservation)
  | commit (reservation : Reservation)

/-- A message that is worked off. -/
structure Intake where
  raw : TelegramRawMessage
  receivedTimeMs : Int
  work : List Work

/-- What is left to do for an expired chain. -/
inductive ExpiredWork where
  | expired (chain : SourceChainState)
  | dispatch (chain : SourceChainState) (reservation : Reservation)
  | commit (reservation : Reservation)

structure RuntimeState where
  dedupeOrder : List Text := []
  dedupeKeys : Finset Text := ∅
  martingaleSteps : UnorderedMap Text Int := .empty
  pendingMartingaleSequences : Finset Text := ∅
  antiMartingaleGroups : UnorderedMap Text AntiMartingaleGroupState := .empty
  antiMartingaleSignalGroups : UnorderedMap Nat Text := .empty
  chains : SourceChains := {}
  assumedSourceChainSteps : UnorderedMap Text Int := .empty
  running : Bool := false
  /-- Messages that a callback hands in while another one is worked off come first. -/
  intake : List Intake := []
  watchdog : List ExpiredWork := []

/-! ## Keys -/

def orderTypeText : TradeExecution.OrderType → Text
  | .unknown => bytes "UNKNOWN"
  | .buy => bytes "BUY"
  | .sell => bytes "SELL"

def optionTypeText : OptionType → Text
  | .unknown => bytes "UNKNOWN"
  | .sprint => bytes "SPRINT"
  | .classic => bytes "CLASSIC"

def separator : Text := bytes "|"

def makeDedupeKey (raw : TelegramRawMessage) (parsed : TelegramParsedSignal) (index : Nat) : Text :=
  raw.messageIdentity ++ separator ++ bytes (toString index) ++ separator ++ parsed.symbol ++ separator ++
    orderTypeText parsed.orderType ++ separator ++ optionTypeText parsed.optionType ++ separator ++
    bytes (toString parsed.duration) ++ separator ++ bytes (toString parsed.expiryTime)

def martingaleKey (raw : TelegramRawMessage) (parsed : TelegramParsedSignal) : Text :=
  raw.chatId ++ separator ++ raw.topicId ++ separator ++ parsed.symbol ++ separator ++ orderTypeText parsed.orderType ++
    separator ++ parsed.signalName

def sourceChainRuleFor (config : TelegramSignalBridgeConfig) (signal : TelegramParsedSignal) :
    Option TelegramSourceChainRule :=
  if signal.martingaleStep = none then none
  else config.sourceChainRules.find? fun candidate => candidate.signalName = signal.signalName

def sourceChainKey (raw : TelegramRawMessage) (signal : TelegramParsedSignal) (rule : TelegramSourceChainRule) : Text :=
  martingaleKey raw signal ++ separator ++ rule.name

def isStale (config : TelegramSignalBridgeConfig) (raw : TelegramRawMessage) (receivedTimeMs : Int) : Bool :=
  if config.maxSignalAgeSeconds = 0 ∨ raw.dateMs ≤ 0 ∨ receivedTimeMs ≤ raw.dateMs then false
  else receivedTimeMs - raw.dateMs > config.maxSignalAgeSeconds * 1000

/-! ## Source chains -/

namespace SourceChains

variable (chains : SourceChains)

/-- A chain goes with the entry of its source message. -/
def remove (key : Text) (chain : SourceChainState) : SourceChains where
  groups := chains.groups.erase key
  signalGroups := chains.signalGroups.erase chain.parsed.sourceMessageIdentity

/-- The key and the chain as which a signal is remembered, with what is there under the key: unless it has no rule or its
step is out of bounds, when it starts a series or goes on with the chain. -/
def toRemember (config : TelegramSignalBridgeConfig) (raw : TelegramRawMessage) (signal : TelegramParsedSignal) :
    Option (Text × SourceChainState) := do
  let rule ← sourceChainRuleFor config signal
  let step ← signal.martingaleStep
  if step < 0 ∨ step > rule.maxStep then none
  else
    let key := sourceChainKey raw signal rule
    let existing := chains.groups.find? key
    if step ≠ 0 ∧ existing.all fun chain => chain.step + 1 ≠ step then none
    else some (key, { raw, parsed := signal, rule, step })

/-- `remember_source_chain_signal` but for the assumed steps. -/
def remember (config : TelegramSignalBridgeConfig) (raw : TelegramRawMessage) (signal : TelegramParsedSignal) :
    SourceChains :=
  match chains.toRemember config raw signal with
  | none => chains
  | some (key, next) =>
    let signalGroups := match chains.groups.find? key with
      | some existing => chains.signalGroups.erase existing.parsed.sourceMessageIdentity
      | none => chains.signalGroups
    { groups := chains.groups.assign key next
      signalGroups := signalGroups.assign signal.sourceMessageIdentity key }

def fieldsMatch (outcome : TelegramParsedOutcome) (chain : SourceChainState) : Bool :=
  (outcome.symbol = [] || outcome.symbol = chain.parsed.symbol) &&
    (outcome.orderType = .unknown || outcome.orderType = chain.parsed.orderType)

/-- The chain waits for its next step when its rule goes on after such a result. -/
def goesOn (outcome : TelegramParsedOutcome) (chain : SourceChainState) : Bool :=
  outcome.result = chain.rule.continuationResult && chain.step < chain.rule.maxStep

def await (nowMs : Int) (chain : SourceChainState) : SourceChainState :=
  { chain with waiting := true, deadline := nowMs + chain.rule.timeoutSeconds * 1000 }

/-- `process_source_chain_outcomes` for one outcome. -/
def processOutcome (nowMs : Int) (outcome : TelegramParsedOutcome) : SourceChains :=
  if outcome.replyToMessageIdentity = [] then chains
  else
    match chains.signalGroups.find? outcome.replyToMessageIdentity with
    | none => chains
    | some key =>
      match chains.groups.find? key with
      | none => chains
      | some chain =>
        if chain.parsed.sourceMessageIdentity ≠ outcome.replyToMessageIdentity then chains
        else if !fieldsMatch outcome chain || !goesOn outcome chain then chains.remove key chain
        else { chains with groups := chains.groups.assign key (await nowMs chain) }

def isExpired (nowMs : Int) (chain : SourceChainState) : Bool := chain.waiting && chain.deadline ≤ nowMs

def expiredEntries (nowMs : Int) : List (Text × SourceChainState) :=
  chains.groups.entries.filter fun entry => isExpired nowMs entry.2

/-- The expired chains go. -/
def expire (nowMs : Int) : SourceChains :=
  (chains.expiredEntries nowMs).foldl (fun chains entry => chains.remove entry.1 entry.2) chains

end SourceChains

/-! ## Reservations -/

namespace RuntimeState

variable (config : TelegramSignalBridgeConfig) (s : RuntimeState)

def rememberDedupeKey (dedupeKey : Text) : RuntimeState :=
  let dedupeOrder := s.dedupeOrder ++ [dedupeKey]
  let surplus := dedupeOrder.length - config.dedupeCacheSize
  { s with
    dedupeOrder := dedupeOrder.drop surplus
    dedupeKeys := insert dedupeKey s.dedupeKeys \ (dedupeOrder.take surplus).toFinset }

/-- The part of the martingale policy; none is for a report. -/
def reserveMartingale (raw : TelegramRawMessage) (receivedTimeMs : Int) (signal : TelegramParsedSignal)
    (reservation : Reservation) : Option (RuntimeState × Reservation) :=
  match config.martingalePolicy with
  | .firstSignalOnly => if signal.martingaleStep.any (· > 0) then none else some (s, reservation)
  | .contiguousSteps =>
    match signal.martingaleStep with
    | none => none
    | some step =>
      let sequenceKey := martingaleKey raw signal
      let existing := s.martingaleSteps.find? sequenceKey
      if sequenceKey ∈ s.pendingMartingaleSequences ∨ step = 0 ∧ isStale config raw receivedTimeMs ∨
          step ≠ 0 ∧ existing.all fun previous => step ≠ previous + 1 then none
      else
        some ({ s with
            martingaleSteps := s.martingaleSteps.assign sequenceKey step
            pendingMartingaleSequences := insert sequenceKey s.pendingMartingaleSequences },
          { reservation with sequenceKey, martingaleStepRecorded := true, previousMartingaleStep := existing })
  | _ => some (s, reservation)

/-- The part of the anti-martingale group; none is for a report. -/
def reserveAntiMartingale (raw : TelegramRawMessage) (signal : TelegramParsedSignal) (reservation : Reservation) :
    RuntimeState × Option Reservation :=
  if !config.antiMartingaleEnabled then (s, some reservation)
  else
    let antiMartingaleKey := martingaleKey raw signal
    let group := (s.antiMartingaleGroups.find? antiMartingaleKey).getD {}
    if group.pendingTrade then
      ({ s with antiMartingaleGroups := s.antiMartingaleGroups.assign antiMartingaleKey group }, none)
    else
      ({ s with
          antiMartingaleGroups := s.antiMartingaleGroups.assign antiMartingaleKey { group with pendingTrade := true } },
        some { reservation with antiMartingaleKey, antiMartingalePending := true })

def rollbackDispatchState (reservation : Reservation) : RuntimeState :=
  let s := { s with
    dedupeKeys := s.dedupeKeys.erase reservation.dedupeKey
    dedupeOrder := s.dedupeOrder.erase reservation.dedupeKey }
  let s :=
    if reservation.martingaleStepRecorded then
      { s with
        martingaleSteps := match reservation.previousMartingaleStep with
          | some previous => s.martingaleSteps.assign reservation.sequenceKey previous
          | none => s.martingaleSteps.erase reservation.sequenceKey
        pendingMartingaleSequences := s.pendingMartingaleSequences.erase reservation.sequenceKey }
    else s
  match reservation.antiMartingalePending, s.antiMartingaleGroups.find? reservation.antiMartingaleKey with
  | true, some group =>
    { s with
      antiMartingaleGroups := s.antiMartingaleGroups.assign reservation.antiMartingaleKey
        { group with pendingTrade := false, pendingSignalId := 0 } }
  | _, _ => s

/-- Registers the signal of a group, unless the group or the id is taken. -/
def registerAntiMartingaleDispatch (reservation : Reservation) (signalId : Nat) : Option RuntimeState := do
  let group ← s.antiMartingaleGroups.find? reservation.antiMartingaleKey
  if !group.pendingTrade ∨ group.pendingSignalId ≠ 0 ∨ (s.antiMartingaleSignalGroups.find? signalId).isSome then none
  else
    some { s with
      antiMartingaleGroups := s.antiMartingaleGroups.assign reservation.antiMartingaleKey
        { group with pendingSignalId := signalId }
      antiMartingaleSignalGroups := s.antiMartingaleSignalGroups.assign signalId reservation.antiMartingaleKey }

def commitMartingaleDispatchState (reservation : Reservation) : RuntimeState :=
  if reservation.martingaleStepRecorded then
    { s with pendingMartingaleSequences := s.pendingMartingaleSequences.erase reservation.sequenceKey }
  else s

/-! ## Actions -/

inductive TradeSignalCallback where
  | missing | returns | throws
  deriving DecidableEq, Repr

/-- What is outside of the bridge while something is done. -/
structure Surroundings where
  nowMs : Int := 0
  /-- Whether the signal passes its validation. -/
  executable : Bool := true
  /-- The id that the allocator gives unless it throws. -/
  allocated : Option Nat := none
  callback : TradeSignalCallback := .missing

/-- What a reserved signal comes to. -/
inductive Dispatch where
  | failed (s : RuntimeState)
  | ambiguous (s : RuntimeState)
  | dispatched (s : RuntimeState)

/-- Allocates, registers and calls back; `required` says whether there has to be a callback. -/
def dispatch (surroundings : Surroundings) (reservation : Reservation) (required : Bool) : Dispatch :=
  match surroundings.allocated with
  | none | some 0 => .failed (s.rollbackDispatchState reservation)
  | some signalId =>
    if required && surroundings.callback = .missing then .failed (s.rollbackDispatchState reservation)
    else
      let registered :=
        if reservation.antiMartingalePending then s.registerAntiMartingaleDispatch reservation signalId else some s
      match registered with
      | none => .failed (s.rollbackDispatchState reservation)
      | some s => if surroundings.callback = .throws then .ambiguous s else .dispatched s

/-- Whether a signal comes too late in a source chain. -/
def followsAssumed (raw : TelegramRawMessage) (signal : TelegramParsedSignal) : Bool :=
  match sourceChainRuleFor config signal with
  | none => false
  | some rule => signal.martingaleStep.any (· > 0) &&
      (s.assumedSourceChainSteps.find? (sourceChainKey raw signal rule)).isSome

/-- A signal of a message: the rest of the message is given up, or there is something to do next. -/
def reserveSignal (surroundings : Surroundings) (raw : TelegramRawMessage) (receivedTimeMs : Int) (signal : TelegramParsedSignal)
    (index : Nat) : RuntimeState × Option (List Work) :=
  let dedupeKey := makeDedupeKey raw signal index
  if config.martingalePolicy ≠ .contiguousSteps ∧ isStale config raw receivedTimeMs then (s, some [])
  else if !surroundings.executable ∨ !s.running then (s, none)
  else if dedupeKey ∈ s.dedupeKeys ∨ s.followsAssumed config raw signal then (s, some [])
  else
    match s.reserveMartingale config raw receivedTimeMs signal { dedupeKey } with
    | none => (s, some [])
    | some (s, reservation) =>
      match s.reserveAntiMartingale config raw signal reservation with
      | (s, none) => (s, some [])
      | (s, some reservation) => (s.rememberDedupeKey config dedupeKey, some [.dispatch signal reservation])

/-- The next part of the work for a message. -/
def work (surroundings : Surroundings) (raw : TelegramRawMessage) (receivedTimeMs : Int) :
    Work → RuntimeState × Option (List Work)
  | .outcome outcome => ({ s with chains := s.chains.processOutcome surroundings.nowMs outcome }, some [])
  | .signal signal index => s.reserveSignal config surroundings raw receivedTimeMs signal index
  | .dispatch signal reservation =>
    match s.dispatch surroundings reservation reservation.antiMartingalePending with
    | .failed s | .ambiguous s => (s, some [])
    | .dispatched s => (s, some [.remember signal reservation])
  | .remember signal reservation =>
    let assumedSourceChainSteps := match sourceChainRuleFor config signal with
      | some rule =>
        if signal.martingaleStep = some 0 then s.assumedSourceChainSteps.erase (sourceChainKey raw signal rule)
        else s.assumedSourceChainSteps
      | none => s.assumedSourceChainSteps
    ({ s with chains := s.chains.remember config raw signal, assumedSourceChainSteps }, some [.commit reservation])
  | .commit reservation => (s.commitMartingaleDispatchState reservation, some [])

/-- Some work for the message that came last. -/
def intakeStep (surroundings : Surroundings) : RuntimeState :=
  match s.intake with
  | [] => s
  | ⟨_, _, []⟩ :: others => { s with intake := others }
  | ⟨raw, receivedTimeMs, next :: later⟩ :: others =>
    let (s, follows) := s.work config surroundings raw receivedTimeMs next
    { s with intake := match follows with
      | none => others
      | some follows => ⟨raw, receivedTimeMs, follows ++ later⟩ :: others }

/-- `dispatch_assumed_source_chain_signal` up to the allocator: the reservation, unless there is a report. -/
def assume (surroundings : Surroundings) (chain : SourceChainState) : RuntimeState × Option Reservation :=
  let expectedStep := chain.step + 1
  let dedupeKey := bytes "telegram:assumed:" ++ chain.parsed.sourceMessageIdentity ++ bytes ":" ++
    bytes (toString expectedStep)
  let sequenceKey := martingaleKey chain.raw chain.parsed
  let sourceKey := sourceChainKey chain.raw chain.parsed chain.rule
  let superseded := (s.chains.groups.find? sourceKey).any fun current =>
    current.parsed.sourceMessageIdentity ≠ chain.parsed.sourceMessageIdentity
  let existing := s.martingaleSteps.find? sequenceKey
  if chain.parsed.optionType ≠ .sprint ∨ chain.parsed.duration = 0 ∨ !surroundings.executable then (s, none)
  else if !s.running ∨ dedupeKey ∈ s.dedupeKeys ∨ superseded then (s, none)
  else
    let reserved :=
      if config.antiMartingaleEnabled then s.reserveAntiMartingale config chain.raw chain.parsed { dedupeKey }
      else if sequenceKey ∈ s.pendingMartingaleSequences ∨ existing.all fun previous => previous + 1 ≠ expectedStep then
        (s, none)
      else
        ({ s with
            martingaleSteps := s.martingaleSteps.assign sequenceKey expectedStep
            pendingMartingaleSequences := insert sequenceKey s.pendingMartingaleSequences },
          some { dedupeKey, sequenceKey, martingaleStepRecorded := true, previousMartingaleStep := existing })
    match reserved with
    | (s, none) => (s, none)
    | (s, some reservation) =>
      let s := { s with assumedSourceChainSteps := s.assumedSourceChainSteps.assign sourceKey expectedStep }
      (s.rememberDedupeKey config dedupeKey, some reservation)

def rollbackAssumedSourceChainStep (chain : SourceChainState) : RuntimeState :=
  let sourceKey := sourceChainKey chain.raw chain.parsed chain.rule
  if s.assumedSourceChainSteps.find? sourceKey = some (chain.step + 1) then
    { s with assumedSourceChainSteps := s.assumedSourceChainSteps.erase sourceKey }
  else s

/-- The next part of the work of the watchdog for a chain that expired. -/
def expiredStep (surroundings : Surroundings) : RuntimeState :=
  match s.watchdog with
  | [] => s
  | .expired chain :: later =>
    let s := { s with watchdog := later }
    if chain.rule.action ≠ .emitAssumedSignal then s
    else
      match s.assume config surroundings chain with
      | (s, none) => s
      | (s, some reservation) => { s with watchdog := .dispatch chain reservation :: s.watchdog }
  | .dispatch chain reservation :: later =>
    let s := { s with watchdog := later }
    match s.dispatch surroundings reservation true with
    | .failed s => s.rollbackAssumedSourceChainStep chain
    | .ambiguous s => s
    | .dispatched s => { s with watchdog := .commit reservation :: s.watchdog }
  | .commit reservation :: later => { s with watchdog := later }.commitMartingaleDispatchState reservation

/-- A terminal result of the broker. -/
def updateTradeResult (signalId : Nat) (isWin : Bool) : RuntimeState :=
  if signalId = 0 ∨ !config.antiMartingaleEnabled ∨ !s.running then s
  else
    match s.antiMartingaleSignalGroups.find? signalId with
    | none => s
    | some key =>
      match s.antiMartingaleGroups.find? key with
      | none => s
      | some group =>
        if !group.pendingTrade ∨ group.pendingSignalId ≠ signalId then s
        else
          { s with
            antiMartingaleSignalGroups := s.antiMartingaleSignalGroups.erase signalId
            antiMartingaleGroups := s.antiMartingaleGroups.assign key
              { nextStep := if isWin && group.nextStep < config.antiMartingaleMaxSteps then group.nextStep + 1 else 0 } }

inductive Action where
  | run
  | shutdown
  /-- A message with its parse is handed in. -/
  | receive (raw : TelegramRawMessage) (parsed : TelegramParsedMessage) (receivedTimeMs : Int)
  | intake (surroundings : Surroundings)
  | expire (nowMs : Int)
  | watchdog (surroundings : Surroundings)
  | updateTradeResult (signalId : Nat) (isWin : Bool)

def step : Action → RuntimeState × Unit
  | .run => (if s.running then s else { running := true, intake := s.intake, watchdog := s.watchdog }, ())
  | .shutdown =>
    ({ s with
      running := false
      antiMartingaleGroups := .empty
      antiMartingaleSignalGroups := .empty
      chains := {}
      assumedSourceChainSteps := .empty }, ())
  | .receive raw parsed receivedTimeMs =>
    ({ s with intake := ⟨raw, receivedTimeMs, parsed.outcomes.map .outcome ++
      parsed.signals.zipIdx.map fun (signal, index) => .signal signal index⟩ :: s.intake }, ())
  | .intake surroundings => (s.intakeStep config surroundings, ())
  | .expire nowMs =>
    ({ s with
      chains := s.chains.expire nowMs
      watchdog := s.watchdog ++ (s.chains.expiredEntries nowMs).map fun entry => .expired entry.2 }, ())
  | .watchdog surroundings => (s.expiredStep config surroundings, ())
  | .updateTradeResult signalId isWin => (s.updateTradeResult config signalId isWin, ())

/-- The state after some actions. -/
def after (actions : List Action) : RuntimeState := Lib.Run.exec (step config) {} actions

end RuntimeState

end OptionX.Telegram
