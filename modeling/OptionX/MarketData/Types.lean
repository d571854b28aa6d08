import Mathlib

/-!
# Market-data continuity: shared types

What bar routes and tick routes of the router have in common: the phases and statuses of continuity, payload
flags, the retry policy, and the 64-bit arithmetic of `MarketDataContinuityService.hpp`. Times are
milliseconds; where the source guards an overflow, the guard is written out.
-/

namespace OptionX.MarketData

def u64Max : Nat := 2 ^ 64 - 1
def int64Max : Nat := 2 ^ 63 - 1

/-- `left + right`, or the largest 64-bit value where that would wrap. -/
def saturatingAdd (left right : Nat) : Nat :=
  if u64Max - right < left then u64Max else left + right

def safeMultiply (left right : Nat) : Nat :=
  if left = 0 ∨ right = 0 then 0
  else if u64Max / right < left then u64Max
  else left * right

def secondsToMilliseconds (seconds : Nat) : Nat :=
  if u64Max / 1000 < seconds then u64Max else seconds * 1000

/-! ## Continuity -/

inductive ContinuityPhase where
  | live | prefilling | waitingForReady | recovering | flushing | degraded
  deriving DecidableEq, Repr

/-- A route in these phases holds live data back. -/
def ContinuityPhase.buffersLiveData (phase : ContinuityPhase) : Bool :=
  phase == .prefilling || phase == .waitingForReady || phase == .recovering || phase == .flushing

inductive ContinuityStatus where
  | prefilling | gapDetected | backfilling | retrying | live | failed | degraded | stale
  deriving DecidableEq, Repr

inductive ContinuityMode where
  | liveOnly | prefill | prefillAndRecover
  deriving DecidableEq, Repr

def ContinuityMode.enabled (mode : ContinuityMode) : Bool := mode != .liveOnly
def ContinuityMode.recoversGaps (mode : ContinuityMode) : Bool := mode == .prefillAndRecover

inductive ContinuityRequestKind where
  | prefill | gapBackfill | reconnectBackfill
  deriving DecidableEq, Repr

inductive StreamStatus where
  | unknown | connecting | connected | ready | disconnected | reconnecting | stopped | failed
  deriving DecidableEq, Repr

/-- Transport statuses that end the proof of continuity. -/
def StreamStatus.invalidatesContinuity (status : StreamStatus) : Bool :=
  status == .disconnected || status == .reconnecting || status == .failed || status == .stopped

inductive EntryPhase where
  | pending | active | unsubscribing
  deriving DecidableEq, Repr

structure ContinuityUpdate where
  status : ContinuityStatus
  fromTimeMs : Nat := 0
  toTimeMs : Nat := 0
  requestedItems : Nat := 0
  deliveredItems : Nat := 0
  message : String
  deriving DecidableEq

/-- The clocks that an event may read: the application's wall clock, the provider's clock (zero when it has no
estimate) and the steady clock. -/
structure RouteClock where
  nowMs : Nat
  providerMs : Nat
  steadyMs : Nat

/-- `provider_time_ms`: the provider's clock, or else the application's. -/
def RouteClock.providerTimeMs (clock : RouteClock) : Nat :=
  if 0 < clock.providerMs then clock.providerMs
  else if 0 < clock.nowMs then clock.nowMs
  else 1

/-- The clocks are 64-bit values. -/
def RouteClock.Fits (clock : RouteClock) : Prop := clock.nowMs ≤ u64Max ∧ clock.providerMs ≤ u64Max

theorem RouteClock.Fits.providerTimeMs {clock : RouteClock} (h : clock.Fits) : clock.providerTimeMs ≤ u64Max := by
  unfold RouteClock.providerTimeMs
  split
  · exact h.2
  · split
    · exact h.1
    · decide

theorem RouteClock.providerTimeMs_pos (clock : RouteClock) : 0 < clock.providerTimeMs := by
  unfold providerTimeMs
  split
  · assumption
  · split
    · assumption
    · exact Nat.one_pos

/-! ## Payload flags -/

structure PayloadFlags where
  liveSource : Bool := false
  historical : Bool := false
  backfill : Bool := false
  incomplete : Bool := false
  finalized : Bool := false
  realtime : Bool := false
  catchup : Bool := false
  deriving DecidableEq

def PayloadFlags.markLive (flags : PayloadFlags) (catchup : Bool) : PayloadFlags :=
  { flags with liveSource := true, historical := false, backfill := false, realtime := !catchup, catchup }

def PayloadFlags.markHistorical (flags : PayloadFlags) (backfill : Bool) : PayloadFlags :=
  { flags with liveSource := false, historical := true, backfill, realtime := false, catchup := false }

/-! ## Symbols -/

def isSpace (c : Char) : Bool :=
  c == ' ' || c == '\t' || c == '\n' || c == '\r' || c == '\x0b' || c == '\x0c'

def normalizedSymbol (symbol : String) : List Char :=
  (symbol.toList.filter (fun c => !(c == '/' || isSpace c))).map Char.toUpper

/-- The policy for symbols in history responses: case, slashes and blanks do not count. -/
def symbolsMatch (lhs rhs : String) : Bool := normalizedSymbol lhs == normalizedSymbol rhs

/-! ## Retries -/

structure RetryPolicy where
  maxAttempts : Nat := 1
  initialBackoffMs : Nat := 0
  maxBackoffMs : Nat := 30000

def RetryPolicy.valid (policy : RetryPolicy) : Bool :=
  0 < policy.maxAttempts && (policy.maxBackoffMs == 0 || policy.initialBackoffMs ≤ policy.maxBackoffMs)

/-- The largest duration of the steady clock. -/
def steadyMaxMs : Nat := int64Max / 1000000

/-- The backoff after `n` doublings. -/
def RetryPolicy.doubled (policy : RetryPolicy) : Nat → Nat → Nat
  | 0, delayMs => delayMs
  | n + 1, delayMs =>
      if u64Max / 2 < delayMs then u64Max
      else if 0 < policy.maxBackoffMs && policy.maxBackoffMs ≤ delayMs * 2 then policy.maxBackoffMs
      else policy.doubled n (delayMs * 2)

def continuityRetryDelay (policy : RetryPolicy) (attempt : Nat) : Nat :=
  if attempt = 0 ∨ policy.initialBackoffMs = 0 then 0
  else
    let delayMs := policy.doubled (attempt - 1) policy.initialBackoffMs
    let delayMs := if 0 < policy.maxBackoffMs then min delayMs policy.maxBackoffMs else delayMs
    min delayMs steadyMaxMs

/-- When a request that failed at `steadyMs` is made again. -/
def retryAt (policy : RetryPolicy) (attempt steadyMs : Nat) : Nat :=
  let delay := continuityRetryDelay policy attempt
  if steadyMaxMs - steadyMs ≤ delay then steadyMaxMs else steadyMs + delay

end OptionX.MarketData
