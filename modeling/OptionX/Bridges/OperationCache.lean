import OptionX.Lib.OrderedMap
import OptionX.Lib.Run

/-!
# The operation cache of the protocol server

The operation cache helpers of `BridgeProtocolServerBridge.hpp` and the reservation in `handle_trade_affecting_command`.
Each event is one critical section under the mutex, with the readings of the clock in it. The limits are those of one
run of the server, which clears the cache when it starts and cannot be configured while it runs.
-/

namespace OptionX.Bridges

open Lib (OrderedMap)

/-- A byte counter of type `size_t`, and whether a subtraction from it has gone below zero. It counts strings that are in
memory together, so that it stays below `2 ^ 64` otherwise. -/
structure ByteCounter where
  value : Nat := 0
  underflowed : Bool := false
  deriving DecidableEq

namespace ByteCounter

def add (c : ByteCounter) (n : Nat) : ByteCounter := { c with value := c.value + n }

def sub (c : ByteCounter) (n : Nat) : ByteCounter :=
  if n ≤ c.value then { c with value := c.value - n } else ⟨2 ^ 64 + c.value - n, true⟩

end ByteCounter

/-- The limits in `BridgeProtocolServerConfig`. -/
structure CacheLimits where
  dedupeCacheSize : Nat
  maxOperationCacheBytes : Nat
  operationCacheRetentionMs : Int

/-- `R` are the JSON results. -/
structure StoredOperation (R : Type) where
  fingerprint : String
  result : R
  completedAtMs : Int := 0
  byteSize : Nat := 0
  dispatching : Bool := false

structure OperationCache (R : Type) where
  operations : OrderedMap String (StoredOperation R) := .empty
  operationOrder : List String := []
  operationCacheBytes : ByteCounter := {}

namespace OperationCache

variable {R : Type}

/-- The size of a result is that of its JSON text. -/
def operationByteSize (dumpSize : R → Nat) (operationKey fingerprint : String) (result : R) : Nat :=
  operationKey.utf8ByteSize + fingerprint.utf8ByteSize + dumpSize result

def touchOperation (operationKey : String) (order : List String) : List String :=
  order.erase operationKey ++ [operationKey]

/-! ## Pruning -/

def expired (limits : CacheLimits) (now : Int) (operation : StoredOperation R) : Bool :=
  !operation.dispatching && decide (0 < operation.completedAtMs) &&
    decide (limits.operationCacheRetentionMs ≤ now - operation.completedAtMs)

/-- The operation at a key leaves the table. -/
def dropOperation (key : String) (operation : StoredOperation R) (s : OperationCache R) : OperationCache R :=
  { s with
    operationCacheBytes := s.operationCacheBytes.sub operation.byteSize
    operations := s.operations.erase key }

/-- The loop over the order list, of which `kept` has been passed. -/
def pruneExpired (limits : CacheLimits) (now : Int) (s : OperationCache R) (kept : List String) :
    List String → OperationCache R
  | [] => { s with operationOrder := kept }
  | key :: rest =>
      match s.operations.find? key with
      | none => pruneExpired limits now s kept rest
      | some operation =>
          if expired limits now operation then pruneExpired limits now (s.dropOperation key operation) kept rest
          else pruneExpired limits now s (kept ++ [key]) rest

/-- The same list, up to the first operation that is not in flight. -/
def evictFrom (s : OperationCache R) (kept : List String) : List String → OperationCache R × Bool
  | [] => ({ s with operationOrder := kept }, false)
  | key :: rest =>
      match s.operations.find? key with
      | none => evictFrom s kept rest
      | some operation =>
          if operation.dispatching then evictFrom s (kept ++ [key]) rest
          else ({ s.dropOperation key operation with operationOrder := kept ++ rest }, true)

def evictOldestCompletedOperation (s : OperationCache R) : OperationCache R × Bool := evictFrom s [] s.operationOrder

/-- `while (limit exceeded)`: it ends when nothing can be evicted. Each round but the last takes an operation, so the
fuel is never used up. -/
def evictWhile (exceeded : OperationCache R → Bool) : Nat → OperationCache R → OperationCache R
  | 0, s => s
  | fuel + 1, s =>
      if exceeded s then
        let (s, evicted) := s.evictOldestCompletedOperation
        if evicted then evictWhile exceeded fuel s else s
      else s

def tooMany (limits : CacheLimits) (requiredRecords : Nat) (s : OperationCache R) : Bool :=
  decide (limits.dedupeCacheSize < s.operations.keys.length + requiredRecords)

def tooLarge (limits : CacheLimits) (requiredBytes : Nat) (s : OperationCache R) : Bool :=
  decide (requiredBytes ≤ limits.maxOperationCacheBytes) &&
    decide (limits.maxOperationCacheBytes - requiredBytes < s.operationCacheBytes.value)

def evictAll (exceeded : OperationCache R → Bool) (s : OperationCache R) : OperationCache R :=
  evictWhile exceeded (s.operations.keys.length + 1) s

def pruneCompletedOperations (limits : CacheLimits) (now : Int) (requiredBytes requiredRecords : Nat)
    (s : OperationCache R) : OperationCache R :=
  ((pruneExpired limits now s [] s.operationOrder).evictAll (tooMany limits requiredRecords)).evictAll
    (tooLarge limits requiredBytes)

/-! ## The critical sections -/

inductive CachedResponse (R : Type) where
  | conflict
  | inProgress
  | result (result : R)

def tryCachedOperationResponse (limits : CacheLimits) (now : Int) (operationKey fingerprint : String)
    (s : OperationCache R) : OperationCache R × Option (CachedResponse R) :=
  let s := s.pruneCompletedOperations limits now 0 0
  match s.operations.find? operationKey with
  | none => (s, none)
  | some existing =>
      if existing.fingerprint ≠ fingerprint then (s, some .conflict)
      else if existing.dispatching then (s, some .inProgress)
      else
        ({ s with operationOrder := touchOperation operationKey s.operationOrder }, some (.result existing.result))

inductive Reservation (R : Type) where
  | cached (response : CachedResponse R)
  | cacheFull
  | reserved

section Sections

variable (dumpSize : R → Nat) (limits : CacheLimits)

/-- The reservation; the clock is read once in the lookup and once for pruning. -/
def reserve (nowLookup nowPrune : Int) (operationKey fingerprint : String) (result : R) (s : OperationCache R) :
    OperationCache R × Reservation R :=
  match s.tryCachedOperationResponse limits nowLookup operationKey fingerprint with
  | (s, some response) => (s, .cached response)
  | (s, none) =>
      let byteSize := operationByteSize dumpSize operationKey fingerprint result
      let s := s.pruneCompletedOperations limits nowPrune byteSize 1
      if limits.dedupeCacheSize ≤ s.operations.keys.length then (s, .cacheFull)
      else if limits.maxOperationCacheBytes < byteSize ∨
          limits.maxOperationCacheBytes - byteSize < s.operationCacheBytes.value then (s, .cacheFull)
      else
        ({ s with
          operationOrder := s.operationOrder ++ [operationKey]
          operations := s.operations.emplace operationKey
            { fingerprint, result, byteSize, completedAtMs := 0, dispatching := true }
          operationCacheBytes := s.operationCacheBytes.add byteSize }, .reserved)

/-- `remember_operation` once it has pruned. -/
def storeResult (nowDone : Int) (operationKey fingerprint : String) (result : R) (s : OperationCache R) :
    OperationCache R × Bool :=
  let byteSize := operationByteSize dumpSize operationKey fingerprint result
  let existing := s.operations.find? operationKey
  let oldSize := (existing.map (·.byteSize)).getD 0
  if limits.maxOperationCacheBytes < byteSize then (s, false)
  else if limits.maxOperationCacheBytes - byteSize < (s.operationCacheBytes.sub oldSize).value then
    ({ s with operationCacheBytes :=
        { s.operationCacheBytes with underflowed := (s.operationCacheBytes.sub oldSize).underflowed } }, false)
  else if existing.isNone ∧ limits.dedupeCacheSize ≤ s.operations.keys.length then (s, false)
  else
    ({ s with
      operationOrder := if existing.isNone then s.operationOrder ++ [operationKey] else s.operationOrder
      operationCacheBytes := (s.operationCacheBytes.sub oldSize).add byteSize
      operations := s.operations.assign operationKey
        { fingerprint, result, byteSize, completedAtMs := nowDone, dispatching := false } }, true)

def rememberOperation (nowPrune nowDone : Int) (operationKey fingerprint : String) (result : R) (s : OperationCache R) :
    OperationCache R × Bool :=
  (s.pruneCompletedOperations limits nowPrune (operationByteSize dumpSize operationKey fingerprint result)
    (if s.operations.contains operationKey then 0 else 1)).storeResult dumpSize limits nowDone operationKey fingerprint
    result

def completeReservedOperation (nowDone nowPrune : Int) (operationKey : String) (result : R) (s : OperationCache R) :
    OperationCache R :=
  match s.operations.find? operationKey with
  | none => s
  | some existing =>
      let byteSize := operationByteSize dumpSize operationKey existing.fingerprint result
      let operation := { existing with result, byteSize, completedAtMs := nowDone, dispatching := false }
      let s := { s with
        operationCacheBytes := (s.operationCacheBytes.sub existing.byteSize).add byteSize
        operations := s.operations.set operationKey operation
        operationOrder := touchOperation operationKey s.operationOrder }
      if limits.maxOperationCacheBytes < byteSize then
        let s := s.dropOperation operationKey operation
        { s with operationOrder := s.operationOrder.erase operationKey }
      else s.pruneCompletedOperations limits nowPrune 0 0

/-- One round of the loop in `fail_dispatching_operations_locked`. -/
def failOperation (clock : String → Int) (result : R) (s : OperationCache R) (key : String) : OperationCache R :=
  match s.operations.find? key with
  | none => s
  | some operation =>
      if !operation.dispatching then s
      else
        let byteSize := operationByteSize dumpSize key operation.fingerprint result
        { s with
          operationCacheBytes := (s.operationCacheBytes.sub operation.byteSize).add byteSize
          operations := s.operations.set key
            { operation with result, byteSize, completedAtMs := clock key, dispatching := false } }

def failDispatchingOperations (clock : String → Int) (nowPrune : Int) (result : R) (s : OperationCache R) :
    OperationCache R :=
  (s.operations.keys.foldl (failOperation dumpSize clock result) s).pruneCompletedOperations limits nowPrune 0 0

end Sections

inductive Event (R : Type) where
  | lookup (now : Int) (operationKey fingerprint : String)
  | reserve (nowLookup nowPrune : Int) (operationKey fingerprint : String) (result : R)
  | remember (nowPrune nowDone : Int) (operationKey fingerprint : String) (result : R)
  | complete (nowDone nowPrune : Int) (operationKey : String) (result : R)
  | failDispatching (clock : String → Int) (nowPrune : Int) (result : R)
  | prune (now : Int) (requiredBytes requiredRecords : Nat)

inductive Answer (R : Type) where
  | response (response : Option (CachedResponse R))
  | reservation (reservation : Reservation R)
  | remembered (stored : Bool)
  | done

def step (dumpSize : R → Nat) (limits : CacheLimits) (s : OperationCache R) : Event R → OperationCache R × Answer R
  | .lookup now key fingerprint => (s.tryCachedOperationResponse limits now key fingerprint).map id .response
  | .reserve nowLookup nowPrune key fingerprint result =>
      (s.reserve dumpSize limits nowLookup nowPrune key fingerprint result).map id .reservation
  | .remember nowPrune nowDone key fingerprint result =>
      (s.rememberOperation dumpSize limits nowPrune nowDone key fingerprint result).map id .remembered
  | .complete nowDone nowPrune key result =>
      (s.completeReservedOperation dumpSize limits nowDone nowPrune key result, .done)
  | .failDispatching clock nowPrune result =>
      (s.failDispatchingOperations dumpSize limits clock nowPrune result, .done)
  | .prune now requiredBytes requiredRecords =>
      (s.pruneCompletedOperations limits now requiredBytes requiredRecords, .done)

end OperationCache

end OptionX.Bridges
