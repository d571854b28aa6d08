import OptionX.Bridges.Lemmas.FileBridgeState

/-!
# Runs of the file bridge

What each event leaves of an operation that was handed over, in memory, in the state file and in the poll in progress, and
what holds before an operation is handed over.
-/

namespace OptionX.Bridges.MetaTraderFile

open Lib (OrderedMap Step)
open Lib.Run (exec trace stepOf)
open MetaTraderFileProtocol (NdjsonRecord)
open TradingView (CallResult Json Text text)
open IdempotencyState

variable {F : Type} {config : MetaTraderFileBridgeConfig} {library : Library F} {state state' : IdempotencyState F}
  {disk disk' : Disk F} {pending pending' : PendingSignalDispatch F} {signalId : Nat} {done done' : Prop}
  {read read' : UInt64 → Prop} {clock : Nat → UInt64} {written : Except Text Unit}
  {storageKey requestKey fingerprint : Text} {result : Json F} {s s' : Bridge F} {poll : Poll F} {runtime : Runtime F}

/-! ## Storing a result -/

theorem Kept.withResult_other {nowMs : UInt64} (h : Kept config pending signalId done read state)
    (hkey : pending.idempotencyStorageKey ≠ storageKey) :
    Kept config pending signalId done read (state.withResult storageKey requestKey fingerprint result nowMs) := by
  unfold Kept Recorded Evicted at h ⊢
  simpa only [withResult, OrderedMap.find?_assign, if_neg hkey] using h

/-- The record of the operation whose result is stored. -/
theorem recorded_withResult {nowMs : UInt64}
    (hresult : result = makeInDoubtResult config pending.fileSeq signalId ∨
      done ∧ result = acceptedResult config pending.fileSeq signalId) :
    Recorded config pending signalId done
      (state.withResult pending.idempotencyStorageKey requestKey pending.payloadFingerprint result nowMs) := by
  simp only [Recorded, withResult, OrderedMap.find?_assign, if_pos]
  cases state.records.find? pending.idempotencyStorageKey with
  | none => exact ⟨_, rfl, rfl, hresult⟩
  | some existing => exact ⟨_, rfl, rfl, hresult⟩

/-- The result of another operation is stored. -/
theorem Kept.store (h : Kept config pending signalId done read state)
    (hfile : FileKept config pending signalId done read disk) (hread : ∀ i, read (clock i))
    (hkey : pending.idempotencyStorageKey ≠ storageKey)
    (hok : storeIdempotencyResult config library clock written storageKey requestKey fingerprint result state disk =
      .ok (state', disk')) :
    Kept config pending signalId done read state' ∧ FileKept config pending signalId done read disk' := by
  unfold storeIdempotencyResult at hok
  split at hok
  · cases hok
    exact ⟨h, hfile⟩
  · exact (h.withResult_other hkey).write (fun i => hread (i + 1)) hok

/-- The result of the operation itself is stored. -/
theorem kept_store (hread : ∀ i, read (clock i)) (hkey : pending.idempotencyStorageKey ≠ [])
    (hresult : result = makeInDoubtResult config pending.fileSeq signalId ∨
      done ∧ result = acceptedResult config pending.fileSeq signalId)
    (hok : storeIdempotencyResult config library clock written pending.idempotencyStorageKey requestKey
      pending.payloadFingerprint result state disk = .ok (state', disk')) :
    Kept config pending signalId done read state' ∧ FileKept config pending signalId done read disk' := by
  unfold storeIdempotencyResult at hok
  rw [if_neg hkey] at hok
  have hrecorded : Kept config pending signalId done read (state.withResult pending.idempotencyStorageKey requestKey
      pending.payloadFingerprint result (clock 0)) := .inl (recorded_withResult hresult)
  exact hrecorded.write (fun i => hread (i + 1)) hok

/-! ## Handling a command -/

/-- The key under which handling a command goes on to store something. -/
def Handling.newKey? : Handling F → Option Text
  | .reply _ | .throws _ => none
  | .replyAndStore _ _ storageKey _ _ => some storageKey
  | .dispatch pending => some pending.idempotencyStorageKey

theorem repeated_spec {id : Json F} {payloadFingerprint : Text} :
    SameOperations state (repeated id storageKey requestKey fingerprint payloadFingerprint result state).1 ∧
      (repeated id storageKey requestKey fingerprint payloadFingerprint result state).2.newKey? = none := by
  unfold repeated
  split <;> exact ⟨⟨rfl, rfl, rfl⟩, rfl⟩

theorem admission_newKey {params : Json F} {directTradeOpen allocator callback : Bool} {nowMs : Int} {key : Text}
    (h : (admission library pending params directTradeOpen allocator callback nowMs).newKey? = some key) :
    key = pending.idempotencyStorageKey := by
  unfold admission at h
  repeat' split at h
  all_goals simp_all [Handling.newKey?]

theorem checkRequestId_same : SameOperations state (checkRequestId requestKey storageKey state).2 := by
  unfold checkRequestId
  repeat' split
  all_goals exact ⟨rfl, rfl, rfl⟩

/-- The records and the tombstones that handling a command leaves: those that were there, or what is left of them after a
pruning. -/
def Pruned (config : MetaTraderFileBridgeConfig) (nowMs : UInt64) (state state' : IdempotencyState F) : Prop :=
  SameOperations state state' ∨
    SameOperations (state.pruneExpiredTombstones config.idempotencyRetentionMs nowMs) state'

theorem Kept.pruned {nowMs : UInt64} (h : Kept config pending signalId done read state) (hnow : read nowMs)
    (hpruned : Pruned config nowMs state state') : Kept config pending signalId done read state' :=
  hpruned.elim h.same (h.prune hnow).same

/-- Only an operation that is not known is stored or handed over. -/
def Spec (config : MetaTraderFileBridgeConfig) (nowMs : UInt64) (state : IdempotencyState F)
    (handled : IdempotencyState F × Handling F) : Prop :=
  Pruned config nowMs state handled.1 ∧ ∀ key, handled.2.newKey? = some key → Unknown handled.1 key ∧ key ≠ []

theorem Spec.of_reply {nowMs : UInt64} {handled : IdempotencyState F × Handling F}
    (hsame : Pruned config nowMs state handled.1) (hkey : handled.2.newKey? = none) :
    Spec config nowMs state handled := by
  refine ⟨hsame, fun key h => ?_⟩
  rw [hkey] at h
  cases h

theorem idempotencyStorageKey_ne {method : String} {key : Text} (hkey : key ≠ []) :
    idempotencyStorageKey method key ≠ [] := by
  unfold idempotencyStorageKey
  rw [if_neg hkey]
  exact List.append_ne_nil_of_right_ne_nil _ hkey

theorem handleSignalCommand_spec {clock : Nat → Int64} {fileSeq : UInt64} {id : Json F} {method : String}
    {params : Json F} {allocator callback : Bool} :
    Spec config (clock 0).toUInt64 state
      (handleSignalCommand config library clock fileSeq id method params allocator callback state) := by
  unfold handleSignalCommand
  simp only
  split
  · exact .of_reply (.inr ⟨rfl, rfl, rfl⟩) rfl
  · next hkey =>
    split
    · exact .of_reply (.inr ⟨rfl, rfl, rfl⟩) rfl
    · next fingerprint hfingerprint =>
      generalize hchecked : checkRequestId _ _ _ = checked
      have hsame : Pruned config (clock 0).toUInt64 state checked.2 := by
        rw [← hchecked]
        exact .inr checkRequestId_same
      obtain ⟨conflict, state'⟩ := checked
      cases conflict with
      | true => exact .of_reply hsame rfl
      | false =>
          simp only [Bool.false_eq_true, if_false]
          have hrepeated : ∀ {requestKey payloadFingerprint : Text} {result : Json F},
              Spec config (clock 0).toUInt64 state (repeated id (idempotencyStorageKey method (contextIdempotencyKey params))
                requestKey fingerprint payloadFingerprint result state') := by
            intro requestKey payloadFingerprint result
            obtain ⟨hsame', hnone⟩ := repeated_spec
            exact .of_reply (hsame.imp hsame'.trans hsame'.trans) hnone
          split
          · exact hrepeated
          · exact hrepeated
          · next hrecord htombstone =>
            refine ⟨hsame, fun key hnew => ?_⟩
            obtain rfl := admission_newKey hnew
            exact ⟨⟨hrecord, htombstone⟩, idempotencyStorageKey_ne hkey⟩

theorem handleCommandRecord_spec {clock : Nat → Int64} {account : Option (Json F)} {record : NdjsonRecord (Json F)}
    {allocator callback : Bool} :
    Spec config (clock 0).toUInt64 state
      (handleCommandRecord config library clock account record allocator callback state) := by
  unfold handleCommandRecord
  simp only
  split
  · exact .of_reply (.inl ⟨rfl, rfl, rfl⟩) rfl
  · exact .of_reply (.inl ⟨rfl, rfl, rfl⟩) rfl
  · repeat' split
    all_goals first | exact handleSignalCommand_spec | exact .of_reply (.inl ⟨rfl, rfl, rfl⟩) rfl

/-! ## One event -/

/-- The readings of the clock that an event may make. -/
def Event.Reads : Event F → UInt64 → Prop
  | .handle clock .., reading => ∃ i, reading = (clock i).toUInt64
  | .mark clock _, reading | .store clock _ _, reading | .checkpoint clock _ _, reading => ∃ i, reading = clock i
  | _, _ => False

def Stage.pending? : Stage F → Option (PendingSignalDispatch F)
  | .allocating pending | .marking pending _ | .calling pending _ | .storing pending _ => some pending
  | .records | .failing _ _ | .handled => none

/-- No operation is on its way to the outside or back. -/
def Quiet (s : Bridge F) : Prop := ∀ poll, s.poll = some poll → poll.stage.pending? = none

/-- The files are as they were; the state in memory is what it was, what is left of it after a pruning, or what was read. -/
structure Untouched (config : MetaTraderFileBridgeConfig) (read : UInt64 → Prop) (s s' : Bridge F) : Prop where
  idempotencyState : s'.disk.idempotencyState = s.disk.idempotencyState
  commandsCheckpoint : s'.disk.commandsCheckpoint = s.disk.commandsCheckpoint
  memory : ∀ runtime', s'.runtime = some runtime' →
    readIdempotencyState "" s.disk.idempotencyState = .ok runtime'.idempotency ∨
      ∃ runtime, s.runtime = some runtime ∧ (SameOperations runtime.idempotency runtime'.idempotency ∨
        ∃ nowMs, read nowMs ∧ Pruned config nowMs runtime.idempotency runtime'.idempotency)

/-- The state that was written is the one in memory. -/
structure Wrote (disk' : Disk F) (state' : IdempotencyState F) (s' : Bridge F) : Prop where
  disk : s'.disk = disk'
  memory : ∀ runtime', s'.runtime = some runtime' → runtime'.idempotency = state'

/-- What an event does to the state, to its file and to the operation in progress, and what it answers about them. -/
inductive Effect (config : MetaTraderFileBridgeConfig) (library : Library F) (read : UInt64 → Prop) (s s' : Bridge F) :
    Option Text → Option Text → Prop where
  | same (hsame : Untouched config read s s') (hstage : s'.poll = s.poll ∨ Quiet s') :
      Effect config library read s s' none none
  | dispatched {runtime : Runtime F} {poll : Poll F} {pending : PendingSignalDispatch F}
      (hsame : Untouched config read s s') (hruntime : s'.runtime = some runtime)
      (hpoll : s'.poll = some poll) (hstage : poll.stage = .allocating pending)
      (hnew : Unknown runtime.idempotency pending.idempotencyStorageKey) (hkey : pending.idempotencyStorageKey ≠ []) :
      Effect config library read s s' none none
  | allocated {poll poll' : Poll F} {pending : PendingSignalDispatch F} {signalId : Nat}
      (hsame : Untouched config read s s') (hpoll : s.poll = some poll) (hstage : poll.stage = .allocating pending)
      (hpoll' : s'.poll = some poll') (hstage' : poll'.stage = .marking pending signalId) :
      Effect config library read s s' none none
  | marked {poll poll' : Poll F} {pending : PendingSignalDispatch F} {signalId : Nat} {state state' : IdempotencyState F}
      {disk' : Disk F} {clock : Nat → UInt64} {written : Except Text Unit} (hclock : ∀ i, read (clock i))
      (hstored : storeIdempotencyResult config library clock written pending.idempotencyStorageKey
        pending.requestStorageKey pending.payloadFingerprint (makeInDoubtResult config pending.fileSeq signalId) state
        s.disk = .ok (state', disk'))
      (hmemory : ∃ runtime, s.runtime = some runtime ∧ runtime.idempotency = state) (hwrote : Wrote disk' state' s')
      (hpoll : s.poll = some poll) (hstage : poll.stage = .marking pending signalId)
      (hpoll' : s'.poll = some poll') (hstage' : poll'.stage = .calling pending signalId) :
      Effect config library read s s' none none
  | called {poll poll' : Poll F} {pending : PendingSignalDispatch F} {signalId : Nat}
      (hsame : Untouched config read s s') (hpoll : s.poll = some poll) (hstage : poll.stage = .calling pending signalId)
      (hpoll' : s'.poll = some poll')
      (hstage' : poll'.stage = .storing pending signalId ∨ poll'.stage.pending? = none) :
      Effect config library read s s' (some pending.idempotencyStorageKey) none
  | stored {poll : Poll F} {pending : PendingSignalDispatch F} {signalId : Nat} {state state' : IdempotencyState F}
      {disk' : Disk F} {clock : Nat → UInt64} {written : Except Text Unit} (hclock : ∀ i, read (clock i))
      (hstored : storeIdempotencyResult config library clock written pending.idempotencyStorageKey
        pending.requestStorageKey pending.payloadFingerprint (acceptedResult config pending.fileSeq signalId) state
        s.disk = .ok (state', disk'))
      (hmemory : ∃ runtime, s.runtime = some runtime ∧ runtime.idempotency = state) (hwrote : Wrote disk' state' s')
      (hpoll : s.poll = some poll) (hstage : poll.stage = .storing pending signalId) (hquiet : Quiet s') :
      Effect config library read s s' none (some pending.idempotencyStorageKey)
  | rejected {runtime : Runtime F} {nowMs : UInt64} {storageKey requestKey fingerprint : Text} {result : Json F}
      {state state' : IdempotencyState F} {disk' : Disk F} {clock : Nat → UInt64} {written : Except Text Unit}
      (hclock : ∀ i, read (clock i)) (hnow : read nowMs) (hmemory : s.runtime = some runtime)
      (hpruned : Pruned config nowMs runtime.idempotency state) (hnew : Unknown state storageKey)
      (hstored : storeIdempotencyResult config library clock written storageKey requestKey fingerprint result state
        s.disk = .ok (state', disk')) (hwrote : Wrote disk' state' s') (hquiet : Quiet s') :
      Effect config library read s s' none none
  | processed {runtime : Runtime F} {fileSeq : UInt64} {state' : IdempotencyState F} {disk' : Disk F}
      {clock : Nat → UInt64} {written : Except Text Unit} (hclock : ∀ i, read (clock i)) (hmemory : s.runtime = some runtime)
      (hnew : runtime.idempotency.processedThroughFileSeq < fileSeq)
      (hwritten : writeIdempotencyRecords config library clock written
        { runtime.idempotency with processedThroughFileSeq := fileSeq } s.disk = .ok (state', disk'))
      (hfile : s'.disk.idempotencyState = disk'.idempotencyState)
      (hcheckpoint : s'.disk.commandsCheckpoint = s.disk.commandsCheckpoint ∨
        s'.disk.commandsCheckpoint = some (makeLogCheckpoint fileSeq))
      (hruntime : ∀ runtime', s'.runtime = some runtime' → runtime'.idempotency = state') (hquiet : Quiet s') :
      Effect config library read s s' none none
  | checkpointed {runtime : Runtime F} {fileSeq : UInt64} (hmemory : s.runtime = some runtime)
      (hold : fileSeq ≤ runtime.idempotency.processedThroughFileSeq)
      (hfile : s'.disk.idempotencyState = s.disk.idempotencyState)
      (hcheckpoint : s'.disk.commandsCheckpoint = some (makeLogCheckpoint fileSeq))
      (hruntime : ∀ runtime', s'.runtime = some runtime' → runtime'.idempotency = runtime.idempotency)
      (hquiet : Quiet s') : Effect config library read s s' none none

theorem untouched_refl {read : UInt64 → Prop} : Untouched config read s s :=
  ⟨rfl, rfl, fun runtime' h => .inr ⟨runtime', h, .inl ⟨rfl, rfl, rfl⟩⟩⟩

theorem Effect.refl {read : UInt64 → Prop} : Effect config library read s s none none := .same untouched_refl (.inl rfl)

theorem Wrote.mk' (hdisk : s'.disk = disk') (hruntime : s'.runtime = some { runtime with idempotency := state' }) :
    Wrote disk' state' s' := by
  refine ⟨hdisk, fun runtime' h => ?_⟩
  rw [hruntime] at h
  cases h
  rfl

theorem quiet_of_none (h : s.poll = none) : Quiet s := by
  intro poll hpoll
  rw [h] at hpoll
  cases hpoll

theorem quiet_of_some (h : s.poll = some poll) (hstage : poll.stage.pending? = none) : Quiet s := by
  intro poll' hpoll
  rw [h] at hpoll
  cases hpoll
  exact hstage

/-- The runtime and the files of a bridge do not depend on its poll. -/
theorem Untouched.withPoll (h : Untouched config read s s') (poll : Option (Poll F)) :
    Untouched config read s { s' with poll } := ⟨h.1, h.2, h.3⟩

/-- An exception, or what comes before the checkpoint, leaves the poll quiet. -/
theorem errorReply_effect {errorAppended : Bool} {id : Json F} {message : Text} {middle : Bridge F}
    (hsame : Untouched config read s middle) :
    Effect config library read s (middle.errorReply poll errorAppended id message).1
      (middle.errorReply poll errorAppended id message).2.called
      (middle.errorReply poll errorAppended id message).2.accepted := by
  cases errorAppended with
  | true => exact .same ⟨hsame.1, hsame.2, hsame.3⟩ (.inr (quiet_of_some rfl rfl))
  | false => exact .same ⟨hsame.1, hsame.2, hsame.3⟩ (.inr (quiet_of_none rfl))

/-! ### Starting -/

theorem startRuntime_idempotency (h : startRuntime config library disk = .ok runtime) :
    readIdempotencyState "" disk.idempotencyState = .ok runtime.idempotency := by
  unfold startRuntime at h
  obtain ⟨checkpoint, -, h⟩ := bind_eq_ok.mp h
  split at h
  · cases h
  · obtain ⟨idempotency, hread, h⟩ := bind_eq_ok.mp h
    cases h
    exact hread

theorem ensureRuntimeStarted_untouched {eventsReadable : Bool} :
    Untouched config read s (s.ensureRuntimeStarted config library eventsReadable) := by
  unfold Bridge.ensureRuntimeStarted
  split
  · exact untouched_refl
  · split
    · next hstart =>
      cases eventsReadable with
      | true =>
          refine ⟨rfl, rfl, fun runtime' h => .inl ?_⟩
          cases h
          exact startRuntime_idempotency hstart
      | false => exact untouched_refl
    · exact untouched_refl

@[simp] theorem ensureRuntimeStarted_poll {eventsReadable : Bool} :
    (s.ensureRuntimeStarted config library eventsReadable).poll = s.poll := by
  unfold Bridge.ensureRuntimeStarted
  repeat' split
  all_goals rfl

theorem checkPrefix_idempotency {found : CommandLogPrefixState} :
    (checkPrefix runtime found).1.idempotency = runtime.idempotency := by
  unfold checkPrefix
  repeat' split
  all_goals rfl

theorem readWindow_idempotency {file : Option MetaTraderFileProtocol.Bytes} {scanBudget : Nat} :
    (readWindow config library file scanBudget runtime).1.idempotency = runtime.idempotency := by
  unfold readWindow
  split <;> rfl

theorem resetScan_idempotency : (resetScan runtime).idempotency = runtime.idempotency := rfl

theorem readCommandsWindow_idempotency :
    (readCommandsWindow config library disk runtime).1.idempotency = runtime.idempotency := by
  unfold readCommandsWindow
  repeat' split
  all_goals
    simp only [apply_ite Prod.fst, apply_ite Runtime.idempotency, readWindow_idempotency, checkPrefix_idempotency,
      resetScan_idempotency, ite_self]

/-- The runtime of a bridge is replaced by one with the same state. -/
theorem Untouched.withRuntime {middle : Bridge F} {runtime' : Runtime F} (h : Untouched config read s middle)
    (hruntime : middle.runtime = some runtime) (hsame : runtime'.idempotency = runtime.idempotency)
    (poll : Option (Poll F)) : Untouched config read s { middle with runtime := some runtime', poll } := by
  refine ⟨h.1, h.2, fun last hlast => ?_⟩
  cases hlast
  rw [hsame]
  exact h.3 runtime hruntime

theorem beginPoll_effect {allocator callback eventsReadable : Bool} (hpoll : s.poll = none) :
    Effect config library read s (s.beginPoll config library allocator callback eventsReadable) none none := by
  have hstarted : Untouched config read s (s.ensureRuntimeStarted config library eventsReadable) :=
    ensureRuntimeStarted_untouched
  have hnone : (s.ensureRuntimeStarted config library eventsReadable).poll = none := by
    rw [ensureRuntimeStarted_poll, hpoll]
  unfold Bridge.beginPoll
  simp only
  generalize s.ensureRuntimeStarted config library eventsReadable = middle at hstarted hnone ⊢
  split
  · exact .same hstarted (.inr (quiet_of_none hnone))
  · next runtime hruntime =>
    have hread : (readCommandsWindow config library middle.disk runtime).1.idempotency = runtime.idempotency :=
      readCommandsWindow_idempotency
    split
    · next runtime' message hwindow =>
      rw [hwindow] at hread
      exact .same (hstarted.withRuntime hruntime hread middle.poll) (.inr (quiet_of_none hnone))
    · next runtime' window hwindow =>
      rw [hwindow] at hread
      exact .same (hstarted.withRuntime hruntime hread _) (.inr (quiet_of_some rfl rfl))

/-! ### A command -/

theorem carryOut_effect {clock : Nat → UInt64} {appended written : Except Text Unit} {errorAppended : Bool} {id : Json F}
    {nowMs : UInt64} {runtime' : Runtime F} {handling : Handling F} (hruntime : s.runtime = some runtime) (hnow : read nowMs)
    (hclock : ∀ i, read (clock i))
    (hspec : Spec config nowMs runtime.idempotency (runtime'.idempotency, handling)) :
    let middle : Bridge F := { s with runtime := some runtime' }
    Effect config library read s
      (middle.carryOut config library clock appended written errorAppended id runtime' poll handling).1
      (middle.carryOut config library clock appended written errorAppended id runtime' poll handling).2.called
      (middle.carryOut config library clock appended written errorAppended id runtime' poll handling).2.accepted := by
  intro middle
  obtain ⟨hpruned, hnew⟩ := hspec
  have hmiddle : Untouched config read s middle := by
    refine ⟨rfl, rfl, fun last hlast => .inr ⟨runtime, hruntime, .inr ⟨nowMs, hnow, ?_⟩⟩⟩
    cases hlast
    exact hpruned
  cases handling with
  | reply reply =>
      cases appended with
      | error message => exact errorReply_effect hmiddle
      | ok u => exact .same (hmiddle.withPoll _) (.inr (quiet_of_some rfl rfl))
  | replyAndStore id result storageKey requestKey fingerprint =>
      cases appended with
      | error message => exact errorReply_effect hmiddle
      | ok u =>
          unfold Bridge.carryOut
          simp only
          split
          · next state' disk' hstored =>
            obtain ⟨hunknown, -⟩ := hnew storageKey rfl
            exact .rejected hclock hnow hruntime hpruned hunknown hstored (.mk' rfl rfl) (quiet_of_some rfl rfl)
          · exact errorReply_effect hmiddle
  | dispatch pending =>
      obtain ⟨hunknown, hkey⟩ := hnew pending.idempotencyStorageKey rfl
      exact .dispatched (hmiddle.withPoll _) rfl rfl rfl hunknown hkey
  | throws message => exact errorReply_effect hmiddle

theorem handleNext_effect {clock : Nat → Int64} {account : Option (Json F)} {appended written : Except Text Unit}
    {errorAppended : Bool} {record : NdjsonRecord (Json F)} (hruntime : s.runtime = some runtime)
    (hclock : ∀ i, read (clock i).toUInt64) :
    Effect config library read s
      (s.handleNext config library clock account appended written errorAppended runtime poll record).1
      (s.handleNext config library clock account appended written errorAppended runtime poll record).2.called
      (s.handleNext config library clock account appended written errorAppended runtime poll record).2.accepted :=
  carryOut_effect hruntime (hclock 0) (fun i => hclock (i + 2)) handleCommandRecord_spec

/-! ### An operation on its way -/

theorem idAllocated_effect {result : CallResult Nat} (hpoll : s.poll = some poll) (hstage : poll.stage = .allocating pending) :
    Effect config library read s (s.idAllocated poll pending result) none none := by
  cases result with
  | returned signalId =>
      cases signalId with
      | zero => exact .same (untouched_refl.withPoll _) (.inr (quiet_of_some rfl rfl))
      | succ n => exact .allocated (untouched_refl.withPoll _) hpoll hstage rfl rfl
  | threw message => exact .same (untouched_refl.withPoll _) (.inr (quiet_of_some rfl rfl))
  | threwUnknown => exact .same (untouched_refl.withPoll _) (.inr (quiet_of_none rfl))

theorem callbackReturned_effect {result : CallResult Unit} (hpoll : s.poll = some poll)
    (hstage : poll.stage = .calling pending signalId) :
    Effect config library read s (s.callbackReturned poll pending signalId result)
      (some pending.idempotencyStorageKey) none := by
  cases result with
  | returned u => exact .called (untouched_refl.withPoll _) hpoll hstage rfl (.inl rfl)
  | threw message => exact .called (untouched_refl.withPoll _) hpoll hstage rfl (.inr rfl)
  | threwUnknown => exact .called (untouched_refl.withPoll _) hpoll hstage rfl (.inr rfl)

theorem storeResult_eq_some
    (h : s.storeResult config library clock written runtime pending result = some s') :
    ∃ state' disk', storeIdempotencyResult config library clock written pending.idempotencyStorageKey
        pending.requestStorageKey pending.payloadFingerprint result runtime.idempotency s.disk = .ok (state', disk') ∧
      s' = { s with disk := disk', runtime := some { runtime with idempotency := state' } } := by
  unfold Bridge.storeResult at h
  split at h
  · next state' disk' hstored =>
    cases h
    exact ⟨state', disk', hstored, rfl⟩
  · cases h

/-! ### The checkpoint -/

theorem commitCommandScanOffset_idempotency {nextOffset : Nat} :
    (commitCommandScanOffset nextOffset runtime).idempotency = runtime.idempotency := by
  unfold commitCommandScanOffset
  split <;> rfl

/-- The mark and the checkpoint, before the offset moves on. -/
theorem writeCommandsCheckpoint_effect {stateWritten : Except Text Unit} {checkpointWritten : Bool} {fileSeq : UInt64}
    {middle : Bridge F} {ok : Bool} (hruntime : s.runtime = some runtime) (hclock : ∀ i, read (clock i))
    (h : s.writeCommandsCheckpoint config library clock stateWritten checkpointWritten
      { runtime with lastCommandFileSeq := fileSeq } = (middle, ok))
    (hdisk : s'.disk = middle.disk) (hquiet : Quiet s')
    (hmemory : ∀ runtime', s'.runtime = some runtime' → ∃ last, middle.runtime = some last ∧
      runtime'.idempotency = last.idempotency) :
    Effect config library read s s' none none := by
  have hsame : ∀ {last : Runtime F}, middle.runtime = some last → ∀ runtime', s'.runtime = some runtime' →
      runtime'.idempotency = last.idempotency := by
    intro last hlast runtime' hruntime'
    obtain ⟨last', hlast', heq⟩ := hmemory runtime' hruntime'
    rw [hlast] at hlast'
    cases hlast'
    exact heq
  have huntouched : middle.disk = s.disk → middle.runtime = some { runtime with lastCommandFileSeq := fileSeq } →
      Effect config library read s s' none none := by
    intro hmiddle hlast
    refine .same ⟨by rw [hdisk, hmiddle], by rw [hdisk, hmiddle], fun runtime' hruntime' => ?_⟩ (.inr hquiet)
    refine .inr ⟨runtime, hruntime, .inl ?_⟩
    rw [hsame hlast runtime' hruntime']
    exact ⟨rfl, rfl, rfl⟩
  unfold Bridge.writeCommandsCheckpoint at h
  simp only at h
  split at h
  · next hnew =>
    split at h
    · next state' disk' hwritten =>
      cases checkpointWritten with
      | true =>
          cases h
          exact .processed hclock hruntime hnew hwritten (by rw [hdisk]) (.inr (by rw [hdisk])) (hsame rfl) hquiet
      | false =>
          cases h
          have hcheckpoint : disk'.commandsCheckpoint = s.disk.commandsCheckpoint := by
            rw [(writeIdempotencyRecords_eq_ok hwritten).2]
          exact .processed hclock hruntime hnew hwritten (by rw [hdisk]) (.inl (by rw [hdisk, hcheckpoint])) (hsame rfl) hquiet
    · cases h
      exact huntouched rfl rfl
  · next hold =>
    cases checkpointWritten with
    | true =>
        cases h
        exact .checkpointed hruntime (UInt64.not_lt.mp hold) (by rw [hdisk]) (by rw [hdisk])
          (fun runtime' h => (hsame rfl runtime' h).trans rfl) hquiet
    | false =>
        cases h
        exact huntouched rfl rfl

theorem finishRecord_effect {stateWritten : Except Text Unit} {checkpointWritten : Bool}
    {record : NdjsonRecord (Json F)} {rest : List (NdjsonRecord (Json F))} (hruntime : s.runtime = some runtime)
    (hclock : ∀ i, read (clock i)) :
    Effect config library read s
      (s.finishRecord config library clock stateWritten checkpointWritten runtime poll record rest) none none := by
  unfold Bridge.finishRecord
  split
  next middle written hwritten =>
  split at hwritten
  · split
    · refine writeCommandsCheckpoint_effect hruntime hclock hwritten rfl (quiet_of_some rfl rfl) fun runtime' h => ?_
      obtain ⟨last, hlast, rfl⟩ := Option.map_eq_some_iff.mp h
      exact ⟨last, hlast, commitCommandScanOffset_idempotency⟩
    · exact writeCommandsCheckpoint_effect hruntime hclock hwritten rfl (quiet_of_none rfl) fun runtime' h => ⟨runtime', h, rfl⟩
  · cases hwritten
    have hsame : Untouched config read s { s with runtime := some runtime } :=
      untouched_refl.withRuntime hruntime rfl s.poll
    exact .same (hsame.withRuntime rfl commitCommandScanOffset_idempotency _) (.inr (quiet_of_some rfl rfl))

/-! ### Every event -/

/-- The events that need a poll in progress. -/
theorem whilePolling_effect {e : Event F}
    (h : ∀ runtime poll, s.runtime = some runtime → s.poll = some poll →
      Effect config library read s (s.inPoll config library runtime poll e).1
        (s.inPoll config library runtime poll e).2.called (s.inPoll config library runtime poll e).2.accepted) :
    Effect config library read s (s.whilePolling config library e).1 (s.whilePolling config library e).2.called
      (s.whilePolling config library e).2.accepted := by
  unfold Bridge.whilePolling
  split
  · next runtime poll hruntime hpoll => exact h runtime poll hruntime hpoll
  · exact .refl

theorem step_effect (e : Event F) :
    Effect config library e.Reads s (Bridge.step config library s e).1 (Bridge.step config library s e).2.called
      (Bridge.step config library s e).2.accepted := by
  cases e with
  | crash => exact .same ⟨rfl, rfl, nofun⟩ (.inr (quiet_of_none rfl))
  | log file => exact .same ⟨rfl, rfl, untouched_refl.memory⟩ (.inl rfl)
  | start eventsReadable => exact .same ensureRuntimeStarted_untouched (.inl ensureRuntimeStarted_poll)
  | poll allocator callback eventsReadable =>
      unfold Bridge.step
      simp only
      split
      · next hpoll => exact beginPoll_effect hpoll
      · exact .refl
  | handle clock account appended written errorAppended =>
      refine whilePolling_effect fun runtime poll hruntime hpoll => ?_
      unfold Bridge.inPoll
      simp only
      split
      · exact handleNext_effect hruntime fun i => ⟨i, rfl⟩
      · exact .refl
  | allocated result =>
      refine whilePolling_effect fun runtime poll hruntime hpoll => ?_
      unfold Bridge.inPoll
      simp only
      split
      · next pending hstage => exact idAllocated_effect hpoll hstage
      · exact .refl
  | mark clock written =>
      refine whilePolling_effect fun runtime poll hruntime hpoll => ?_
      unfold Bridge.inPoll
      simp only
      split
      · next pending signalId hstage =>
        split
        · next s' hs' =>
          obtain ⟨state', disk', hstored, rfl⟩ := storeResult_eq_some hs'
          exact .marked (fun i => ⟨i, rfl⟩) hstored ⟨runtime, hruntime, rfl⟩ (.mk' rfl rfl) hpoll hstage rfl rfl
        · exact .same (untouched_refl.withPoll _) (.inr (quiet_of_none rfl))
      · exact .refl
  | called result =>
      refine whilePolling_effect fun runtime poll hruntime hpoll => ?_
      unfold Bridge.inPoll
      simp only
      split
      · next pending signalId hstage => exact callbackReturned_effect hpoll hstage
      · exact .refl
  | store clock written appended =>
      refine whilePolling_effect fun runtime poll hruntime hpoll => ?_
      unfold Bridge.inPoll
      simp only
      split
      · next pending signalId hstage =>
        split
        · next s' hs' =>
          obtain ⟨state', disk', hstored, rfl⟩ := storeResult_eq_some hs'
          cases appended with
          | true =>
              exact .stored (fun i => ⟨i, rfl⟩) hstored ⟨runtime, hruntime, rfl⟩ (.mk' rfl rfl) hpoll hstage
                (quiet_of_some rfl rfl)
          | false =>
              exact .stored (fun i => ⟨i, rfl⟩) hstored ⟨runtime, hruntime, rfl⟩ (.mk' rfl rfl) hpoll hstage
                (quiet_of_none rfl)
        · exact .same (untouched_refl.withPoll _) (.inr (quiet_of_none rfl))
      · exact .refl
  | fail errorAppended =>
      refine whilePolling_effect fun runtime poll hruntime hpoll => ?_
      unfold Bridge.inPoll
      simp only
      split
      · exact errorReply_effect untouched_refl
      · exact .refl
  | checkpoint clock stateWritten checkpointWritten =>
      refine whilePolling_effect fun runtime poll hruntime hpoll => ?_
      unfold Bridge.inPoll
      simp only
      split
      · exact finishRecord_effect hruntime fun i => ⟨i, rfl⟩
      · exact .refl
  | finish =>
      refine whilePolling_effect fun runtime poll hruntime hpoll => ?_
      unfold Bridge.inPoll
      simp only
      split
      · exact .same (untouched_refl.withRuntime hruntime commitCommandScanOffset_idempotency none)
          (.inr (quiet_of_none rfl))
      · exact .refl

/-! ## An operation that was handed over -/

/-- The operation is known in memory and in the file. -/
structure Holds (config : MetaTraderFileBridgeConfig) (pending : PendingSignalDispatch F) (signalId : Nat) (done : Prop)
    (read : UInt64 → Prop) (s : Bridge F) : Prop where
  memory : ∀ runtime, s.runtime = some runtime → Kept config pending signalId done read runtime.idempotency
  file : FileKept config pending signalId done read s.disk

theorem Holds.mono (h : Holds config pending signalId done read s) (hdone : done → done')
    (hread : ∀ r, read r → read' r) : Holds config pending signalId done' read' s :=
  ⟨fun runtime hruntime => (h.memory runtime hruntime).mono hdone hread, h.file.mono hdone hread⟩

/-- An operation that is not done has a record. -/
theorem Kept.of_false (h : Kept config pending signalId False read state) :
    Kept config pending signalId done read' state := by
  rcases h with ⟨record, hrecord, hfingerprint, hresult⟩ | ⟨hfalse, -⟩
  · exact .inl ⟨record, hrecord, hfingerprint, hresult.imp_right fun ⟨hfalse, _⟩ => hfalse.elim⟩
  · exact hfalse.elim

theorem Holds.of_false (h : Holds config pending signalId False read s) : Holds config pending signalId done read' s :=
  ⟨fun runtime hruntime => (h.memory runtime hruntime).of_false, fun state hstate => (h.file state hstate).of_false⟩

theorem Holds.untouched (h : Holds config pending signalId done read s) (hsame : Untouched config read' s s')
    (hread : ∀ r, read' r → read r) : Holds config pending signalId done read s' := by
  refine ⟨fun runtime' hruntime' => ?_, fun state hstate => ?_⟩
  · rcases hsame.memory runtime' hruntime' with hfile | ⟨runtime, hruntime, hequal | ⟨nowMs, hnow, hpruned⟩⟩
    · exact h.file _ hfile
    · exact (h.memory runtime hruntime).same hequal
    · exact (h.memory runtime hruntime).pruned (hread _ hnow) hpruned
  · rw [hsame.idempotencyState] at hstate
    exact h.file state hstate

theorem Wrote.holds (h : Wrote disk' state' s')
    (hkept : Kept config pending signalId done read state' ∧ FileKept config pending signalId done read disk') :
    Holds config pending signalId done read s' := by
  refine ⟨fun runtime hruntime => ?_, fun state hstate => ?_⟩
  · rw [h.memory runtime hruntime]
    exact hkept.1
  · rw [h.disk] at hstate
    exact hkept.2 state hstate

/-- Where the poll may stand: the operation is not handed over again before it was done and outlived. -/
def StageKept (config : MetaTraderFileBridgeConfig) (pending : PendingSignalDispatch F) (signalId : Nat) (done : Prop)
    (read : UInt64 → Prop) : Stage F → Prop
  | .allocating pending' | .marking pending' _ | .calling pending' _ =>
      pending'.idempotencyStorageKey = pending.idempotencyStorageKey →
        done ∧ Outlived config.idempotencyRetentionMs read
  | .storing pending' signalId' =>
      pending'.idempotencyStorageKey = pending.idempotencyStorageKey →
        pending' = pending ∧ signalId' = signalId ∨ done ∧ Outlived config.idempotencyRetentionMs read
  | .records | .failing _ _ | .handled => True

theorem StageKept.of_quiet {stage : Stage F} (h : stage.pending? = none) :
    StageKept config pending signalId done read stage := by
  cases stage <;> simp_all [Stage.pending?, StageKept]

theorem StageKept.mono {stage : Stage F} (h : StageKept config pending signalId done read stage) (hdone : done → done')
    (hread : ∀ r, read r → read' r) : StageKept config pending signalId done' read' stage := by
  have hout : done ∧ Outlived config.idempotencyRetentionMs read → done' ∧ Outlived config.idempotencyRetentionMs read' :=
    fun ⟨hd, hold⟩ => ⟨hdone hd, hold.mono hread⟩
  cases stage with
  | allocating pending' => exact fun hkey => hout (h hkey)
  | marking pending' signalId' => exact fun hkey => hout (h hkey)
  | calling pending' signalId' => exact fun hkey => hout (h hkey)
  | storing pending' signalId' => exact fun hkey => (h hkey).imp_right hout
  | records => trivial
  | failing pending' message => trivial
  | handled => trivial

/-- From the handing over on. -/
structure Followed (config : MetaTraderFileBridgeConfig) (pending : PendingSignalDispatch F) (signalId : Nat) (done : Prop)
    (read : UInt64 → Prop) (s : Bridge F) : Prop where
  holds : Holds config pending signalId done read s
  stage : ∀ poll, s.poll = some poll → StageKept config pending signalId done read poll.stage

theorem Followed.mono (h : Followed config pending signalId done read s) (hdone : done → done')
    (hread : ∀ r, read r → read' r) : Followed config pending signalId done' read' s :=
  ⟨h.holds.mono hdone hread, fun poll hpoll => (h.stage poll hpoll).mono hdone hread⟩

theorem Followed.of_quiet (h : Holds config pending signalId done read s) (hquiet : Quiet s) :
    Followed config pending signalId done read s :=
  ⟨h, fun poll hpoll => .of_quiet (hquiet poll hpoll)⟩

theorem Followed.of_stage (h : Holds config pending signalId done read s) (hpoll : s.poll = some poll)
    (hstage : StageKept config pending signalId done read poll.stage) : Followed config pending signalId done read s := by
  refine ⟨h, fun poll' hpoll' => ?_⟩
  rw [hpoll] at hpoll'
  cases hpoll'
  exact hstage

/-! ## Before an operation is handed over -/

/-- The operation has its key, and it has its record when it is handed over. -/
def StageReady (config : MetaTraderFileBridgeConfig) (s : Bridge F) : Stage F → Prop
  | .allocating pending | .marking pending _ | .storing pending _ => pending.idempotencyStorageKey ≠ []
  | .calling pending signalId =>
      pending.idempotencyStorageKey ≠ [] ∧ Holds config pending signalId False (fun _ => True) s
  | .records | .failing _ _ | .handled => True

def Ready (config : MetaTraderFileBridgeConfig) (s : Bridge F) : Prop :=
  ∀ poll, s.poll = some poll → StageReady config s poll.stage

theorem StageReady.of_quiet {stage : Stage F} (h : stage.pending? = none) : StageReady config s stage := by
  cases stage <;> simp_all [Stage.pending?, StageReady]

theorem Ready.of_quiet (h : Quiet s) : Ready config s := fun poll hpoll => .of_quiet (h poll hpoll)

theorem Ready.of_stage (hpoll : s.poll = some poll) (hstage : StageReady config s poll.stage) : Ready config s := by
  intro poll' hpoll'
  rw [hpoll] at hpoll'
  cases hpoll'
  exact hstage

theorem StageReady.untouched {stage : Stage F} (h : StageReady config s stage) (hsame : Untouched config read s s') :
    StageReady config s' stage := by
  cases stage with
  | calling pending signalId => exact ⟨h.1, h.2.untouched hsame fun _ _ => trivial⟩
  | allocating pending => exact h
  | marking pending signalId => exact h
  | storing pending signalId => exact h
  | records => trivial
  | failing pending message => trivial
  | handled => trivial

theorem Ready.effect {called accepted : Option Text} (h : Ready config s)
    (heffect : Effect config library read s s' called accepted) : Ready config s' := by
  cases heffect with
  | same hsame hstage =>
      rcases hstage with heq | hquiet
      · intro poll hpoll
        rw [heq] at hpoll
        exact (h poll hpoll).untouched hsame
      · exact .of_quiet hquiet
  | dispatched hsame hruntime hpoll hstage hnew hkey =>
      refine .of_stage hpoll ?_
      rw [hstage]
      exact hkey
  | allocated hsame hpoll hstage hpoll' hstage' =>
      refine .of_stage hpoll' ?_
      have hready := h _ hpoll
      rw [hstage] at hready
      rw [hstage']
      exact hready
  | marked hclock hstored hmemory hwrote hpoll hstage hpoll' hstage' =>
      refine .of_stage hpoll' ?_
      have hready := h _ hpoll
      rw [hstage] at hready
      rw [hstage']
      exact ⟨hready, hwrote.holds (kept_store (fun _ => trivial) hready (.inl rfl) hstored)⟩
  | called hsame hpoll hstage hpoll' hstage' =>
      refine .of_stage hpoll' ?_
      have hready := h _ hpoll
      rw [hstage] at hready
      rcases hstage' with hstoring | hquiet
      · rw [hstoring]
        exact hready.1
      · exact .of_quiet hquiet
  | stored hclock hstored hmemory hwrote hpoll hstage hquiet => exact .of_quiet hquiet
  | rejected hclock hnow hmemory hpruned hnew hstored hwrote hquiet => exact .of_quiet hquiet
  | processed hclock hmemory hnew hwritten hfile hcheckpoint hruntime hquiet => exact .of_quiet hquiet
  | checkpointed hmemory hold hfile hcheckpoint hruntime hquiet => exact .of_quiet hquiet

/-! ## After it -/

/-- The state that is stored is that of an operation that was done and outlived, of another one, or of this one when it is
done. -/
theorem Followed.effect {called accepted : Option Text} (h : Followed config pending signalId done read s)
    (hready : Ready config s) (heffect : Effect config library read' s s' called accepted)
    (hread : ∀ r, read' r → read r) (hdone : accepted = some pending.idempotencyStorageKey → done) :
    Followed config pending signalId done read s' := by
  -- What is kept of an operation that was done and outlived.
  have hgone : ∀ {state : IdempotencyState F}, done ∧ Outlived config.idempotencyRetentionMs read →
      Kept config pending signalId done read state := fun ⟨hd, hout⟩ => .inr ⟨hd, .inr hout⟩
  have hgoneBoth : ∀ {state : IdempotencyState F} {disk : Disk F}, done ∧ Outlived config.idempotencyRetentionMs read →
      Kept config pending signalId done read state ∧ FileKept config pending signalId done read disk :=
    fun hold => ⟨hgone hold, fun _ _ => hgone hold⟩
  cases heffect with
  | same hsame hstage =>
      have hholds := h.holds.untouched hsame hread
      rcases hstage with heq | hquiet
      · refine ⟨hholds, fun poll hpoll => ?_⟩
        rw [heq] at hpoll
        exact h.stage poll hpoll
      · exact .of_quiet hholds hquiet
  | dispatched hsame hruntime hpoll hstage hnew hkey =>
      have hholds := h.holds.untouched hsame hread
      refine .of_stage hholds hpoll ?_
      rw [hstage]
      intro heq
      rw [heq] at hnew
      exact (hholds.memory _ hruntime).outlived hnew
  | allocated hsame hpoll hstage hpoll' hstage' =>
      refine .of_stage (h.holds.untouched hsame hread) hpoll' ?_
      have hkept := h.stage _ hpoll
      rw [hstage] at hkept
      rw [hstage']
      exact hkept
  | @marked _ _ pending' _ _ _ _ _ _ hclock hstored hmemory hwrote hpoll hstage hpoll' hstage' =>
      obtain ⟨runtime, hruntime, rfl⟩ := hmemory
      have hkept := h.stage _ hpoll
      rw [hstage] at hkept
      refine .of_stage (hwrote.holds ?_) hpoll' (by rwa [hstage'])
      by_cases heq : pending'.idempotencyStorageKey = pending.idempotencyStorageKey
      · exact hgoneBoth (hkept heq)
      · exact (h.holds.memory _ hruntime).store h.holds.file (fun i => hread _ (hclock i)) (Ne.symm heq) hstored
  | called hsame hpoll hstage hpoll' hstage' =>
      refine .of_stage (h.holds.untouched hsame hread) hpoll' ?_
      have hkept := h.stage _ hpoll
      rw [hstage] at hkept
      rcases hstage' with hstoring | hquiet
      · rw [hstoring]
        exact fun heq => .inr (hkept heq)
      · exact .of_quiet hquiet
  | @stored _ pending' _ _ _ _ _ _ hclock hstored hmemory hwrote hpoll hstage hquiet =>
      obtain ⟨runtime, hruntime, rfl⟩ := hmemory
      have hkept := h.stage _ hpoll
      have hkey := hready _ hpoll
      rw [hstage] at hkept hkey
      refine .of_quiet (hwrote.holds ?_) hquiet
      by_cases heq : pending'.idempotencyStorageKey = pending.idempotencyStorageKey
      · rcases hkept heq with ⟨rfl, rfl⟩ | hold
        · exact kept_store (fun i => hread _ (hclock i)) hkey (.inr ⟨hdone rfl, rfl⟩) hstored
        · exact hgoneBoth hold
      · exact (h.holds.memory _ hruntime).store h.holds.file (fun i => hread _ (hclock i)) (Ne.symm heq) hstored
  | @rejected _ _ storageKey _ _ _ _ _ _ _ _ hclock hnow hmemory hpruned hnew hstored hwrote hquiet =>
      refine .of_quiet (hwrote.holds ?_) hquiet
      have hkept := (h.holds.memory _ hmemory).pruned (hread _ hnow) hpruned
      by_cases heq : pending.idempotencyStorageKey = storageKey
      · subst heq
        exact hgoneBoth (hkept.outlived hnew)
      · exact hkept.store h.holds.file (fun i => hread _ (hclock i)) heq hstored
  | @processed runtime fileSeq _ _ _ _ hclock hmemory hnew hwritten hfile hcheckpoint hruntime hquiet =>
      have hmarked : Kept config pending signalId done read
          { runtime.idempotency with processedThroughFileSeq := fileSeq } := h.holds.memory _ hmemory
      have hwrote := hmarked.write (fun i => hread _ (hclock i)) hwritten
      refine .of_quiet ⟨fun runtime' hruntime' => ?_, fun state hstate => ?_⟩ hquiet
      · rw [hruntime runtime' hruntime']
        exact hwrote.1
      · rw [hfile] at hstate
        exact hwrote.2 state hstate
  | checkpointed hmemory hold hfile hcheckpoint hruntime hquiet =>
      refine .of_quiet ⟨fun runtime' hruntime' => ?_, fun state hstate => ?_⟩ hquiet
      · rw [hruntime runtime' hruntime']
        exact h.holds.memory _ hmemory
      · rw [hfile] at hstate
        exact h.holds.file state hstate

/-- It is handed over again only after it was done and outlived. -/
theorem Followed.called_again {e : Event F} (h : Followed config pending signalId done read s)
    (hcalled : (Bridge.step config library s e).2.called = some pending.idempotencyStorageKey) :
    done ∧ Outlived config.idempotencyRetentionMs read := by
  have heffect : Effect config library e.Reads s (Bridge.step config library s e).1 _ _ := step_effect e
  generalize (Bridge.step config library s e).2.called = called at hcalled heffect
  generalize (Bridge.step config library s e).2.accepted = accepted at heffect
  cases heffect with
  | called hsame hpoll hstage hpoll' hstage' =>
      have hkept := h.stage _ hpoll
      rw [hstage] at hkept
      exact hkept (Option.some.inj hcalled)
  | _ => cases hcalled

/-! ## Runs -/

/-- The final result of an operation with the key was stored in one of the steps. -/
def Accepted (storageKey : Text) (steps : List (Step (Bridge F) (Event F) (Answer F))) : Prop :=
  ∃ t ∈ steps, t.answer.accepted = some storageKey

/-- The readings of the clock in the steps. -/
def Read (steps : List (Step (Bridge F) (Event F) (Answer F))) (reading : UInt64) : Prop :=
  ∃ t ∈ steps, t.event.Reads reading

theorem run_ready (config : MetaTraderFileBridgeConfig) (library : Library F) (disk : Disk F) (es : List (Event F)) :
    Ready config (exec (Bridge.step config library) { disk } es) :=
  Lib.Run.exec_induct (fun _ e h => h.effect (step_effect e)) (.of_quiet (quiet_of_none rfl)) es

/-- What the steps so far leave of an operation. -/
def History (config : MetaTraderFileBridgeConfig) (pending : PendingSignalDispatch F) (signalId : Nat)
    (steps : List (Step (Bridge F) (Event F) (Answer F))) (s : Bridge F) : Prop :=
  Ready config s ∧ Followed config pending signalId (Accepted pending.idempotencyStorageKey steps) (Read steps) s

theorem Followed.append {steps : List (Step (Bridge F) (Event F) (Answer F))} (t : Step (Bridge F) (Event F) (Answer F))
    (h : Followed config pending signalId (Accepted pending.idempotencyStorageKey steps) (Read steps) s) :
    Followed config pending signalId (Accepted pending.idempotencyStorageKey (steps ++ [t])) (Read (steps ++ [t])) s := by
  refine h.mono (fun ⟨u, hu, haccepted⟩ => ?_) fun reading ⟨u, hu, hread⟩ => ?_
  · exact ⟨u, List.mem_append_left _ hu, haccepted⟩
  · exact ⟨u, List.mem_append_left _ hu, hread⟩

theorem History.step {steps : List (Step (Bridge F) (Event F) (Answer F))} (e : Event F)
    (h : History config pending signalId steps s) :
    History config pending signalId (steps ++ [stepOf (Bridge.step config library) s e])
      (Bridge.step config library s e).1 := by
  obtain ⟨hready, hfollowed⟩ := h
  have hlast : stepOf (Bridge.step config library) s e ∈ steps ++ [stepOf (Bridge.step config library) s e] :=
    List.mem_append_right _ (List.mem_singleton.mpr rfl)
  exact ⟨hready.effect (step_effect e), (hfollowed.append _).effect hready (step_effect e)
    (fun reading hread => ⟨_, hlast, hread⟩) fun haccepted => ⟨_, hlast, haccepted⟩⟩

theorem run_history (library : Library F) (hready : Ready config s)
    (hfollowed : Followed config pending signalId False (fun _ => False) s) (es : List (Event F)) :
    History config pending signalId (trace (Bridge.step config library) s es)
      (exec (Bridge.step config library) s es) :=
  Lib.Run.history_induct' (fun _ _ e h => h.step e) ⟨hready, hfollowed.mono False.elim fun _ => False.elim⟩ es

/-- An operation is followed from the step on that hands it over. -/
theorem followed_of_called {e : Event F} {key : Text} (hready : Ready config s)
    (hcalled : (Bridge.step config library s e).2.called = some key) :
    ∃ poll pending signalId, s.poll = some poll ∧ poll.stage = .calling pending signalId ∧
      pending.idempotencyStorageKey = key ∧
      Followed config pending signalId False (fun _ => False) (Bridge.step config library s e).1 := by
  have heffect : Effect config library e.Reads s (Bridge.step config library s e).1 _ _ := step_effect e
  generalize (Bridge.step config library s e).2.called = called at hcalled heffect
  generalize (Bridge.step config library s e).2.accepted = accepted at heffect
  cases heffect with
  | @called poll _ pending signalId hsame hpoll hstage hpoll' hstage' =>
      cases hcalled
      have hcalling := hready _ hpoll
      rw [hstage] at hcalling
      have hholds : Holds config pending signalId False (fun _ => False) (Bridge.step config library s e).1 :=
        (hcalling.2.untouched hsame fun _ _ => trivial).of_false
      refine ⟨poll, pending, signalId, hpoll, hstage, rfl, .of_stage hholds hpoll' ?_⟩
      rcases hstage' with hstoring | hquiet
      · rw [hstoring]
        exact fun _ => .inl ⟨rfl, rfl⟩
      · exact .of_quiet hquiet
  | _ => cases hcalled

/-! ## A command that asks for it again -/

/-- The command asks for the operation, with the fingerprint. -/
structure Asks (library : Library F) (pending : PendingSignalDispatch F) (record : NdjsonRecord (Json F))
    (fingerprint : Text) (method : String) : Prop where
  isRequest : isJsonrpcRequest library record.document = .ok true
  isMethod : stringValue record.document "method" = text method
  signal : method = "signal.submit" ∨ method = "trade.open"
  key : contextIdempotencyKey ((record.document.member? (text "params")).getD (.object [])) ≠ []
  storageKey : idempotencyStorageKey method
    (contextIdempotencyKey ((record.document.member? (text "params")).getD (.object []))) = pending.idempotencyStorageKey
  fingerprint : library.fingerprint ((record.document.member? (text "params")).getD (.object []))
    (method = "trade.open") = .ok fingerprint

/-- The reply to a command that asks for a known operation: its result, for the same payload, or a conflict. -/
def Answered (config : MetaTraderFileBridgeConfig) (pending : PendingSignalDispatch F) (signalId : Nat) (done : Prop)
    (fingerprint : Text) (id : Json F) (reply : Reply F) : Prop :=
  reply = .result id requestIdConflict ∨
    pending.payloadFingerprint ≠ fingerprint ∧ reply = .result id payloadConflict ∨
    pending.payloadFingerprint = fingerprint ∧
      (reply = .result id (makeInDoubtResult config pending.fileSeq signalId) ∨
        done ∧ reply = .result id (acceptedResult config pending.fileSeq signalId))

theorem repeated_answered {id : Json F} {payloadFingerprint : Text}
    (hfingerprint : payloadFingerprint = pending.payloadFingerprint)
    (hresult : result = makeInDoubtResult config pending.fileSeq signalId ∨
      done ∧ result = acceptedResult config pending.fileSeq signalId) :
    ∃ reply, (repeated id storageKey requestKey fingerprint payloadFingerprint result state).2 = .reply reply ∧
      Answered config pending signalId done fingerprint id reply := by
  subst hfingerprint
  unfold repeated
  split
  · next heq =>
    refine ⟨_, rfl, .inr (.inr ⟨heq, ?_⟩)⟩
    exact hresult.imp (congrArg _) (And.imp_right (congrArg _))
  · next hne => exact ⟨_, rfl, .inr (.inl ⟨hne, rfl⟩)⟩

theorem handleSignalCommand_answered {clock : Nat → Int64} {method : String} {params : Json F} (fileSeq : UInt64)
    (id : Json F) (allocator callback : Bool) (h : Kept config pending signalId done read state)
    (hnow : read (clock 0).toUInt64) (hkey : contextIdempotencyKey params ≠ [])
    (hstorage : idempotencyStorageKey method (contextIdempotencyKey params) = pending.idempotencyStorageKey)
    (hfingerprint : library.fingerprint params (method = "trade.open") = .ok fingerprint) :
    done ∧ Outlived config.idempotencyRetentionMs read ∨
      ∃ reply, (handleSignalCommand config library clock fileSeq id method params allocator callback state).2 = .reply reply ∧
        Answered config pending signalId done fingerprint id reply := by
  have hpruned := h.prune hnow
  unfold handleSignalCommand
  simp only [if_neg hkey, hfingerprint]
  generalize hchecked : checkRequestId _ _ _ = checked
  have hkept : Kept config pending signalId done read checked.2 := by
    rw [← hchecked]
    exact hpruned.same checkRequestId_same
  obtain ⟨conflict, state'⟩ := checked
  cases conflict with
  | true => exact .inr ⟨_, rfl, .inl rfl⟩
  | false =>
      simp only [Bool.false_eq_true, if_false, hstorage]
      rcases hkept with ⟨record, hrecord, hsame, hresult⟩ | ⟨hd, ⟨hnone, tombstone, ht, hsame, hresult, -⟩ | hout⟩
      · rw [hrecord]
        exact .inr (repeated_answered hsame hresult)
      · rw [hnone, ht]
        exact .inr (repeated_answered hsame (.inr ⟨hd, hresult⟩))
      · exact .inl ⟨hd, hout⟩

theorem handleCommandRecord_answered {clock : Nat → Int64} {record : NdjsonRecord (Json F)} {method : String}
    (account : Option (Json F)) (allocator callback : Bool) (h : Kept config pending signalId done read state)
    (hnow : read (clock 0).toUInt64) (hasks : Asks library pending record fingerprint method) :
    done ∧ Outlived config.idempotencyRetentionMs read ∨
      ∃ reply, (handleCommandRecord config library clock account record allocator callback state).2 = .reply reply ∧
        Answered config pending signalId done fingerprint ((record.document.member? (text "id")).getD .null) reply := by
  have hanswered := handleSignalCommand_answered record.fileSeq ((record.document.member? (text "id")).getD .null)
    allocator callback h hnow hasks.key hasks.storageKey hasks.fingerprint
  unfold handleCommandRecord
  simp only [hasks.isRequest, hasks.isMethod]
  rcases hasks.signal with rfl | rfl
  · exact hanswered
  · exact hanswered

/-- What the bridge appends in answer: a known result or a conflict, or the report of a reply that was not appended. -/
theorem carryOut_answered {clock : Nat → UInt64} {appended written : Except Text Unit} {errorAppended : Bool}
    {id : Json F} {handling : Handling F} {reply : Reply F} (hreply : handling = .reply reply)
    (hanswered : Answered config pending signalId done fingerprint id reply) :
    let answered := s.carryOut config library clock appended written errorAppended id runtime poll handling
    answered.1.disk = s.disk ∧ Quiet answered.1 ∧ ∀ reply ∈ answered.2.replies,
      Answered config pending signalId done fingerprint id reply ∨
        ∃ message, appended = .error message ∧ reply = .failure id jsonrpcInternalError message := by
  subst hreply
  cases appended with
  | ok u =>
      refine ⟨rfl, quiet_of_some rfl rfl, fun other hother => .inl ?_⟩
      rwa [List.mem_singleton.mp hother]
  | error message =>
      cases errorAppended with
      | true =>
          refine ⟨rfl, quiet_of_some rfl rfl, fun other hother => .inr ⟨message, rfl, ?_⟩⟩
          exact List.mem_singleton.mp hother
      | false => exact ⟨rfl, quiet_of_none rfl, nofun⟩

/-- The answer to a command that asks for an operation that is kept. -/
theorem handle_answered {clock : Nat → Int64} {account : Option (Json F)} {appended written : Except Text Unit}
    {errorAppended : Bool} {record : NdjsonRecord (Json F)} {rest : List (NdjsonRecord (Json F))} {method : String}
    (hfollowed : Followed config pending signalId done read s) (hread : read (clock 0).toUInt64)
    (hpoll : s.poll = some poll) (hstage : poll.stage = .records) (hrecords : poll.records = record :: rest)
    (hasks : Asks library pending record fingerprint method) :
    let id := (record.document.member? (text "id")).getD .null
    let answered := Bridge.step config library s (.handle clock account appended written errorAppended)
    done ∧ Outlived config.idempotencyRetentionMs read ∨
      answered.1.disk = s.disk ∧ Quiet answered.1 ∧ ∀ reply ∈ answered.2.replies,
        Answered config pending signalId done fingerprint id reply ∨
          ∃ message, appended = .error message ∧ reply = .failure id jsonrpcInternalError message := by
  cases hruntime : s.runtime with
  | none =>
      simp only [Bridge.step, Bridge.whilePolling, hruntime]
      refine .inr ⟨trivial, quiet_of_some hpoll (by rw [hstage]; rfl), nofun⟩
  | some runtime =>
      simp only [Bridge.step, Bridge.whilePolling, hruntime, hpoll, Bridge.inPoll, hstage, hrecords]
      have hkept := hfollowed.holds.memory runtime hruntime
      have hanswer := handleCommandRecord_answered account poll.hasSignalAllocator
        poll.hasTradeSignalCallback hkept hread hasks
      rcases hanswer with hgone | ⟨reply, hreply, hanswered⟩
      · exact .inl hgone
      · exact .inr (carryOut_answered hreply hanswered)

/-! ## Restarts -/

/-- What a restart would find in the state file now. -/
def Restartable (s : Bridge F) : Prop :=
  ∀ runtime, s.runtime = some runtime → ∀ file, readIdempotencyState "" s.disk.idempotencyState = .ok file →
    Durable runtime.idempotency file

theorem Pruned.processed {nowMs : UInt64} (h : Pruned config nowMs state state') :
    state'.processedThroughFileSeq = state.processedThroughFileSeq :=
  h.elim (·.processedThroughFileSeq) (·.processedThroughFileSeq)

theorem Durable.pruned {nowMs : UInt64} {file : IdempotencyState F} (h : Durable state file)
    (hpruned : Pruned config nowMs state state') : Durable state' file :=
  hpruned.elim h.same h.prune.same

theorem Restartable.untouched (h : Restartable s) (hsame : Untouched config read s s') : Restartable s' := by
  intro runtime' hruntime' file hfile
  rw [hsame.idempotencyState] at hfile
  rcases hsame.memory runtime' hruntime' with hread | ⟨runtime, hruntime, hequal | ⟨nowMs, -, hpruned⟩⟩
  · rw [hread] at hfile
    cases hfile
    exact .refl
  · exact (h runtime hruntime file hfile).same hequal
  · exact (h runtime hruntime file hfile).pruned hpruned

theorem durable_store
    (hok : storeIdempotencyResult config library clock written storageKey requestKey fingerprint result state disk =
      .ok (state', disk'))
    (hfile : ∀ file, readIdempotencyState "" disk.idempotencyState = .ok file → Durable state file) :
    ∀ file, readIdempotencyState "" disk'.idempotencyState = .ok file → Durable state' file := by
  unfold storeIdempotencyResult at hok
  split at hok
  · cases hok
    exact hfile
  · exact durable_write hok

theorem Restartable.wrote
    (hok : storeIdempotencyResult config library clock written storageKey requestKey fingerprint result state disk =
      .ok (state', disk'))
    (hfile : ∀ file, readIdempotencyState "" disk.idempotencyState = .ok file → Durable state file)
    (hwrote : Wrote disk' state' s') : Restartable s' := by
  intro runtime' hruntime' file hread
  rw [hwrote.disk] at hread
  rw [hwrote.memory runtime' hruntime']
  exact durable_store hok hfile file hread

theorem Restartable.effect {called accepted : Option Text} (h : Restartable s)
    (heffect : Effect config library read s s' called accepted) : Restartable s' := by
  cases heffect with
  | same hsame => exact h.untouched hsame
  | dispatched hsame => exact h.untouched hsame
  | allocated hsame => exact h.untouched hsame
  | called hsame => exact h.untouched hsame
  | marked hclock hstored hstate hwrote =>
      obtain ⟨runtime, hruntime, rfl⟩ := hstate
      exact .wrote hstored (h runtime hruntime) hwrote
  | stored hclock hstored hstate hwrote =>
      obtain ⟨runtime, hruntime, rfl⟩ := hstate
      exact .wrote hstored (h runtime hruntime) hwrote
  | rejected hclock hnow hruntime hpruned hnew hstored hwrote =>
      exact .wrote hstored (fun file hfile => (h _ hruntime file hfile).pruned hpruned) hwrote
  | processed hclock hruntime hnew hwritten hdisk hcheckpoint hruntime' =>
      intro runtime' h' file hfile
      rw [hdisk] at hfile
      rw [hruntime' runtime' h']
      exact durable_write hwritten file hfile
  | checkpointed hruntime hold hdisk hcheckpoint hruntime' =>
      intro runtime' h' file hfile
      rw [hdisk] at hfile
      rw [hruntime' runtime' h']
      exact h _ hruntime file hfile

/-! ## The checkpoint is behind the mark -/

/-- The checkpoint is no more than the mark, in memory and in the file. -/
structure Behind (checkpoint : UInt64) (s : Bridge F) : Prop where
  readable : readLastFileSeqCheckpoint s.disk.commandsCheckpoint = .ok checkpoint
  file : ∀ file, readIdempotencyState "" s.disk.idempotencyState = .ok file →
    checkpoint ≤ file.processedThroughFileSeq
  memory : ∀ runtime, s.runtime = some runtime → checkpoint ≤ runtime.idempotency.processedThroughFileSeq

theorem storeIdempotencyResult_commandsCheckpoint
    (hok : storeIdempotencyResult config library clock written storageKey requestKey fingerprint result state disk =
      .ok (state', disk')) :
    disk'.commandsCheckpoint = disk.commandsCheckpoint := by
  unfold storeIdempotencyResult at hok
  split at hok
  · cases hok
    rfl
  · rw [(writeIdempotencyRecords_eq_ok hok).2]

theorem storeIdempotencyResult_processed
    (hok : storeIdempotencyResult config library clock written storageKey requestKey fingerprint result state disk =
      .ok (state', disk')) :
    state'.processedThroughFileSeq = state.processedThroughFileSeq := by
  unfold storeIdempotencyResult at hok
  split at hok
  · cases hok
    rfl
  · have hwritten := writeIdempotencyRecords_processed hok
    exact hwritten

theorem Behind.stored {checkpoint : UInt64} (h : Behind checkpoint s)
    (hfile : ∀ file, readIdempotencyState "" s.disk.idempotencyState = .ok file → Durable state file)
    (hmark : checkpoint ≤ state.processedThroughFileSeq)
    (hok : storeIdempotencyResult config library clock written storageKey requestKey fingerprint result state s.disk =
      .ok (state', disk')) (hwrote : Wrote disk' state' s') : Behind checkpoint s' := by
  rw [← storeIdempotencyResult_processed hok] at hmark
  refine ⟨?_, fun file hread => ?_, fun runtime' hruntime' => ?_⟩
  · rw [hwrote.disk, storeIdempotencyResult_commandsCheckpoint hok, h.readable]
  · rw [hwrote.disk] at hread
    rw [(durable_store hok hfile file hread).processedThroughFileSeq]
    exact hmark
  · rw [hwrote.memory runtime' hruntime']
    exact hmark

theorem Behind.untouched {checkpoint : UInt64} (h : Behind checkpoint s) (hsame : Untouched config read s s') :
    Behind checkpoint s' := by
  refine ⟨by rw [hsame.commandsCheckpoint, h.readable], by rw [hsame.idempotencyState]; exact h.file, ?_⟩
  intro runtime' hruntime'
  rcases hsame.memory runtime' hruntime' with hread | ⟨runtime, hruntime, hequal | ⟨nowMs, -, hpruned⟩⟩
  · exact h.file _ hread
  · rw [hequal.processedThroughFileSeq]
    exact h.memory runtime hruntime
  · rw [hpruned.processed]
    exact h.memory runtime hruntime

/-- The mark moves before the checkpoint does. -/
theorem Behind.effect {called accepted : Option Text} {checkpoint : UInt64} (h : Behind checkpoint s)
    (hrestart : Restartable s) (heffect : Effect config library read s s' called accepted) :
    ∃ checkpoint', Behind checkpoint' s' := by
  cases heffect with
  | same hsame => exact ⟨_, h.untouched hsame⟩
  | dispatched hsame => exact ⟨_, h.untouched hsame⟩
  | allocated hsame => exact ⟨_, h.untouched hsame⟩
  | called hsame => exact ⟨_, h.untouched hsame⟩
  | marked hclock hstored hstate hwrote =>
      obtain ⟨runtime, hruntime, rfl⟩ := hstate
      exact ⟨_, h.stored (hrestart runtime hruntime) (h.memory runtime hruntime) hstored hwrote⟩
  | stored hclock hstored hstate hwrote =>
      obtain ⟨runtime, hruntime, rfl⟩ := hstate
      exact ⟨_, h.stored (hrestart runtime hruntime) (h.memory runtime hruntime) hstored hwrote⟩
  | rejected hclock hnow hruntime hpruned hnew hstored hwrote =>
      refine ⟨_, h.stored (fun file hfile => (hrestart _ hruntime file hfile).pruned hpruned) ?_ hstored hwrote⟩
      rw [hpruned.processed]
      exact h.memory _ hruntime
  | @processed runtime fileSeq _ _ _ _ hclock hruntime hnew hwritten hdisk hcheckpoint hruntime' =>
      have hstate := writeIdempotencyRecords_processed hwritten
      have hmarked : ∀ checkpoint ≤ fileSeq, readLastFileSeqCheckpoint s'.disk.commandsCheckpoint = .ok checkpoint →
          Behind checkpoint s' := by
        intro checkpoint hle hreadable
        refine ⟨hreadable, fun file hfile => ?_, fun runtime' h => ?_⟩
        · rw [hdisk] at hfile
          rw [(durable_write hwritten file hfile).processedThroughFileSeq, hstate]
          exact hle
        · rw [hruntime' runtime' h, hstate]
          exact hle
      rcases hcheckpoint with hsame | hwritten'
      · have hle := UInt64.lt_of_le_of_lt (h.memory _ hruntime) hnew
        exact ⟨checkpoint, hmarked checkpoint (UInt64.le_of_lt hle) (by rw [hsame, h.readable])⟩
      · exact ⟨fileSeq, hmarked fileSeq (UInt64.le_refl _) (by rw [hwritten']; rfl)⟩
  | @checkpointed runtime fileSeq hruntime hold hdisk hcheckpoint hruntime' =>
      refine ⟨fileSeq, by rw [hcheckpoint]; rfl, fun file hfile => ?_, fun runtime' h => ?_⟩
      · rw [hdisk] at hfile
        rw [(hrestart _ hruntime file hfile).processedThroughFileSeq]
        exact hold
      · rw [hruntime' runtime' h]
        exact hold

theorem run_restartable (config : MetaTraderFileBridgeConfig) (library : Library F) (disk : Disk F)
    (es : List (Event F)) : Restartable (exec (Bridge.step config library) { disk } es) :=
  Lib.Run.exec_induct (fun _ e h => h.effect (step_effect e)) nofun es

theorem run_behind (config : MetaTraderFileBridgeConfig) (library : Library F)
    (commandsLog : Option MetaTraderFileProtocol.Bytes) (es : List (Event F)) :
    Restartable (exec (Bridge.step config library) { disk := { commandsLog } } es) ∧
      ∃ checkpoint, Behind checkpoint (exec (Bridge.step config library) { disk := { commandsLog } } es) := by
  refine Lib.Run.exec_induct (I := fun s => Restartable s ∧ ∃ checkpoint, Behind checkpoint s) ?_ ?_ es
  · rintro s e ⟨hrestart, checkpoint, hbehind⟩
    exact ⟨hrestart.effect (step_effect e), hbehind.effect hrestart (step_effect e)⟩
  · exact ⟨nofun, 0, rfl, fun file _ => UInt64.zero_le, nofun⟩

end OptionX.Bridges.MetaTraderFile
