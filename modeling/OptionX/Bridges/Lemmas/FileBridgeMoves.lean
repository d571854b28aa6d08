import OptionX.Bridges.Lemmas.FileBridgeRun

/-!
# How the file bridge goes through the command log

What each event does to the place in the log that the bridge is at, to the commands of the poll in progress and to the marks.
-/

namespace OptionX.Bridges.MetaTraderFile

open MetaTraderFileProtocol (NdjsonRecord NdjsonSequenceReadResult)
open TradingView (CallResult Json Text text)

variable {F : Type} {config : MetaTraderFileBridgeConfig} {library : Library F} {s s' : Bridge F} {poll : Poll F}
  {runtime runtime' : Runtime F}

/-- The same place in the log, and the same mark. -/
structure SamePlace (runtime runtime' : Runtime F) : Prop where
  lastCommandFileSeq : runtime'.lastCommandFileSeq = runtime.lastCommandFileSeq
  commandScanOffset : runtime'.commandScanOffset = runtime.commandScanOffset
  commandFirstFileSeq : runtime'.commandFirstFileSeq = runtime.commandFirstFileSeq
  processed : runtime'.idempotency.processedThroughFileSeq = runtime.idempotency.processedThroughFileSeq

theorem SamePlace.refl : SamePlace runtime runtime := ⟨rfl, rfl, rfl, rfl⟩

/-- The poll ended, or goes on with the same commands. -/
def GoesOn (s s' : Bridge F) : Prop :=
  s'.poll = none ∨ ∃ poll poll', s.poll = some poll ∧ s'.poll = some poll' ∧ poll'.records = poll.records ∧
    poll'.nextOffset = poll.nextOffset

theorem GoesOn.refl : GoesOn s s := by
  cases hpoll : s.poll with
  | none => exact .inl hpoll
  | some poll => exact .inr ⟨poll, poll, hpoll, hpoll, rfl, rfl⟩

/-- The command log and the checkpoint are as they were. -/
structure SameLogs (s s' : Bridge F) : Prop where
  commandsLog : s'.disk.commandsLog = s.disk.commandsLog
  commandsCheckpoint : s'.disk.commandsCheckpoint = s.disk.commandsCheckpoint

theorem SameLogs.of_disk (h : s'.disk = s.disk) : SameLogs s s' := ⟨by rw [h], by rw [h]⟩

theorem storeIdempotencyResult_sameLogs {clock : Nat → UInt64} {written : Except Text Unit}
    {storageKey requestKey fingerprint : Text} {result : Json F} {state state' : IdempotencyState F} {disk' : Disk F}
    (h : storeIdempotencyResult config library clock written storageKey requestKey fingerprint result state s.disk =
      .ok (state', disk')) (hdisk : s'.disk = disk') : SameLogs s s' := by
  refine ⟨?_, by rw [hdisk]; exact storeIdempotencyResult_commandsCheckpoint h⟩
  rw [hdisk]
  unfold storeIdempotencyResult at h
  split at h
  · cases h
    rfl
  · rw [(writeIdempotencyRecords_eq_ok h).2]

/-- What an event of the bridge does to the place in the log, to the poll and to the files of the protocol. -/
inductive Move (config : MetaTraderFileBridgeConfig) (library : Library F) (s s' : Bridge F) : Prop where
  | ended (hruntime : s'.runtime = none) (hpoll : s'.poll = none) (hdisk : s'.disk = s.disk)
  | kept
      (hruntime : ∀ runtime', s'.runtime = some runtime' → ∃ runtime, s.runtime = some runtime ∧ SamePlace runtime runtime')
      (hnone : s'.runtime = none → s.runtime = none ∧ s'.disk = s.disk) (hpoll : GoesOn s s') (hlogs : SameLogs s s')
  | started {runtime : Runtime F} (hnone : s.runtime = none) (hstart : startRuntime config library s.disk = .ok runtime)
      (hruntime : s'.runtime = some runtime) (hpoll : s'.poll = s.poll) (hlogs : SameLogs s s')
  | read {runtime runtime' : Runtime F} {result : Except String (NdjsonSequenceReadResult (Json F))}
      (hnone : s.poll = none)
      (hruntime : s.runtime = some runtime ∨ s.runtime = none ∧ startRuntime config library s.disk = .ok runtime)
      (hread : readCommandsWindow config library s.disk runtime = (runtime', result))
      (hruntime' : s'.runtime = some runtime')
      (hpoll : s'.poll = none ∨ ∃ window poll, result = .ok window ∧ s'.poll = some poll ∧
        poll.records = window.records ∧ poll.nextOffset = window.nextOffset) (hlogs : SameLogs s s')
  | advanced {runtime runtime' : Runtime F} {poll : Poll F} {record : NdjsonRecord (Json F)}
      {rest : List (NdjsonRecord (Json F))} (hruntime : s.runtime = some runtime) (hpoll : s.poll = some poll)
      (hstage : poll.stage = .handled) (hrecords : poll.records = record :: rest)
      (hruntime' : s'.runtime = some runtime')
      (hlast : runtime'.lastCommandFileSeq = max runtime.lastCommandFileSeq record.fileSeq)
      (hprocessed : runtime'.idempotency.processedThroughFileSeq = runtime.idempotency.processedThroughFileSeq ∨
        runtime'.idempotency.processedThroughFileSeq = runtime'.lastCommandFileSeq)
      (hfirst : runtime'.commandFirstFileSeq = runtime.commandFirstFileSeq)
      (hgoesOn : s'.poll = none ∧ runtime'.commandScanOffset = runtime.commandScanOffset ∨
        runtime'.commandScanOffset = max runtime.commandScanOffset record.nextOffset ∧
          ∃ poll', s'.poll = some poll' ∧ poll'.records = rest ∧ poll'.nextOffset = poll.nextOffset)
      (hlog : s'.disk.commandsLog = s.disk.commandsLog)
      (hcheckpoint : s'.disk.commandsCheckpoint = s.disk.commandsCheckpoint ∨
        s'.disk.commandsCheckpoint = some (makeLogCheckpoint runtime'.lastCommandFileSeq))
  | finished {runtime runtime' : Runtime F} {poll : Poll F} (hruntime : s.runtime = some runtime)
      (hpoll : s.poll = some poll) (hrecords : poll.records = []) (hruntime' : s'.runtime = some runtime')
      (hlast : runtime'.lastCommandFileSeq = runtime.lastCommandFileSeq)
      (hprocessed : runtime'.idempotency = runtime.idempotency)
      (hfirst : runtime'.commandFirstFileSeq = runtime.commandFirstFileSeq)
      (hoffset : runtime'.commandScanOffset = max runtime.commandScanOffset poll.nextOffset) (hnone : s'.poll = none)
      (hlogs : SameLogs s s')

theorem Move.refl : Move config library s s :=
  .kept (fun runtime h => ⟨runtime, h, .refl⟩) (fun h => ⟨h, rfl⟩) .refl (.of_disk rfl)

theorem Move.commandsLog (h : Move config library s s') : s'.disk.commandsLog = s.disk.commandsLog := by
  cases h with
  | ended hruntime hpoll hdisk => rw [hdisk]
  | kept hruntime hnone hpoll hlogs => exact hlogs.commandsLog
  | started hnone hstart hruntime hpoll hlogs => exact hlogs.commandsLog
  | read hnone hruntime hread hruntime' hpoll hlogs => exact hlogs.commandsLog
  | advanced hruntime hpoll hstage hrecords hruntime' hlast hprocessed hfirst hgoesOn hlog hcheckpoint => exact hlog
  | finished hruntime hpoll hrecords hruntime' hlast hprocessed hfirst hoffset hnone hlogs => exact hlogs.commandsLog

/-- A poll that stays as it is up to its stage, or ends, under a runtime at the same place. -/
theorem move_of_samePlace (hruntime : s.runtime = some runtime) (hpoll : s.poll = some poll)
    (hruntime' : s'.runtime = some runtime') (hplace : SamePlace runtime runtime')
    (hpoll' : s'.poll = none ∨ ∃ stage, s'.poll = some { poll with stage })
    (hlogs : SameLogs s s') : Move config library s s' := by
  refine .kept (fun last hlast => ⟨runtime, hruntime, ?_⟩) (fun hnone => ?_) ?_ hlogs
  · rw [hruntime'] at hlast
    cases hlast
    exact hplace
  · rw [hruntime'] at hnone
    cases hnone
  · rcases hpoll' with hnone | ⟨stage, hsome⟩
    · exact .inl hnone
    · exact .inr ⟨poll, { poll with stage }, hpoll, hsome, rfl, rfl⟩

theorem errorReply_move {errorAppended : Bool} {id : Json F} {message : Text} (hruntime : s.runtime = some runtime)
    (hpoll : s.poll = some poll) (hplace : SamePlace runtime runtime') :
    let middle : Bridge F := { s with runtime := some runtime' }
    Move config library s (middle.errorReply poll errorAppended id message).1 := by
  intro middle
  cases errorAppended with
  | true => exact move_of_samePlace hruntime hpoll rfl hplace (.inr ⟨.handled, rfl⟩) (.of_disk rfl)
  | false => exact move_of_samePlace hruntime hpoll rfl hplace (.inl rfl) (.of_disk rfl)

theorem carryOut_move {clock : Nat → UInt64} {appended written : Except Text Unit} {errorAppended : Bool} {id : Json F}
    {handling : Handling F} (hruntime : s.runtime = some runtime) (hpoll : s.poll = some poll)
    (hplace : SamePlace runtime runtime') :
    let middle : Bridge F := { s with runtime := some runtime' }
    Move config library s
      (middle.carryOut config library clock appended written errorAppended id runtime' poll handling).1 := by
  intro middle
  cases handling with
  | reply reply =>
      cases appended with
      | error message => exact errorReply_move hruntime hpoll hplace
      | ok u => exact move_of_samePlace hruntime hpoll rfl hplace (.inr ⟨.handled, rfl⟩) (.of_disk rfl)
  | replyAndStore id result storageKey requestKey fingerprint =>
      cases appended with
      | error message => exact errorReply_move hruntime hpoll hplace
      | ok u =>
          unfold Bridge.carryOut
          simp only
          split
          · next state' disk' hstored =>
            have hprocessed := (storeIdempotencyResult_processed hstored).trans hplace.processed
            exact move_of_samePlace hruntime hpoll rfl ⟨hplace.1, hplace.2, hplace.3, hprocessed⟩ (.inr ⟨.handled, rfl⟩)
              (storeIdempotencyResult_sameLogs hstored rfl)
          · exact errorReply_move hruntime hpoll hplace
  | dispatch pending =>
      exact move_of_samePlace hruntime hpoll rfl hplace (.inr ⟨.allocating pending, rfl⟩) (.of_disk rfl)
  | throws message => exact errorReply_move hruntime hpoll hplace

theorem handleNext_move {clock : Nat → Int64} {account : Option (Json F)} {appended written : Except Text Unit}
    {errorAppended : Bool} {record : NdjsonRecord (Json F)} (hruntime : s.runtime = some runtime)
    (hpoll : s.poll = some poll) :
    Move config library s
      (s.handleNext config library clock account appended written errorAppended runtime poll record).1 := by
  obtain ⟨hpruned, -⟩ : Spec config (clock 0).toUInt64 runtime.idempotency (handleCommandRecord config library clock account
    record poll.hasSignalAllocator poll.hasTradeSignalCallback runtime.idempotency) := handleCommandRecord_spec
  exact carryOut_move hruntime hpoll ⟨rfl, rfl, rfl, hpruned.processed⟩

theorem storeResult_move {clock : Nat → UInt64} {written : Except Text Unit} {pending : PendingSignalDispatch F}
    {result : Json F} {middle : Bridge F} (hruntime : s.runtime = some runtime) (hpoll : s.poll = some poll)
    (h : s.storeResult config library clock written runtime pending result = some middle)
    (hpoll' : s'.poll = none ∨ ∃ stage, s'.poll = some { poll with stage }) (hruntime' : s'.runtime = middle.runtime)
    (hdisk : s'.disk = middle.disk) : Move config library s s' := by
  obtain ⟨state', disk', hstored, rfl⟩ := storeResult_eq_some h
  refine move_of_samePlace hruntime hpoll hruntime' ⟨rfl, rfl, rfl, storeIdempotencyResult_processed hstored⟩ hpoll' ?_
  exact storeIdempotencyResult_sameLogs hstored hdisk

theorem commit_eq {nextOffset : Nat} :
    commitCommandScanOffset nextOffset runtime =
      { runtime with commandScanOffset := max runtime.commandScanOffset nextOffset } := by
  unfold commitCommandScanOffset
  split
  · next hlt => rw [max_eq_right hlt.le]
  · next hle => rw [max_eq_left (Nat.le_of_not_lt hle)]

/-- After the mark and the checkpoint the last number is the new one; only the state has changed otherwise. -/
theorem writeCommandsCheckpoint_place {clock : Nat → UInt64} {stateWritten : Except Text Unit} {checkpointWritten : Bool}
    {middle : Bridge F} {ok : Bool}
    (h : s.writeCommandsCheckpoint config library clock stateWritten checkpointWritten runtime = (middle, ok)) :
    middle.disk.commandsLog = s.disk.commandsLog ∧ (∃ idempotency, middle.runtime = some { runtime with idempotency } ∧
      (idempotency.processedThroughFileSeq = runtime.idempotency.processedThroughFileSeq ∨
        idempotency.processedThroughFileSeq = runtime.lastCommandFileSeq)) ∧
      (middle.disk.commandsCheckpoint = s.disk.commandsCheckpoint ∨
        middle.disk.commandsCheckpoint = some (makeLogCheckpoint runtime.lastCommandFileSeq)) := by
  unfold Bridge.writeCommandsCheckpoint at h
  simp only at h
  split at h
  · split at h
    · next state' disk' hwritten =>
      have hprocessed := writeIdempotencyRecords_processed hwritten
      cases checkpointWritten with
      | true =>
          cases h
          rw [(writeIdempotencyRecords_eq_ok hwritten).2]
          exact ⟨rfl, ⟨state', rfl, .inr hprocessed⟩, .inr rfl⟩
      | false =>
          cases h
          rw [(writeIdempotencyRecords_eq_ok hwritten).2]
          exact ⟨rfl, ⟨state', rfl, .inr hprocessed⟩, .inl rfl⟩
    · cases h
      exact ⟨rfl, ⟨_, rfl, .inl rfl⟩, .inl rfl⟩
  · cases checkpointWritten with
    | true =>
        cases h
        exact ⟨rfl, ⟨_, rfl, .inl rfl⟩, .inr rfl⟩
    | false =>
        cases h
        exact ⟨rfl, ⟨_, rfl, .inl rfl⟩, .inl rfl⟩

theorem finishRecord_move {clock : Nat → UInt64} {stateWritten : Except Text Unit} {checkpointWritten : Bool}
    {record : NdjsonRecord (Json F)} {rest : List (NdjsonRecord (Json F))} (hruntime : s.runtime = some runtime)
    (hpoll : s.poll = some poll) (hstage : poll.stage = .handled) (hrecords : poll.records = record :: rest) :
    Move config library s
      (s.finishRecord config library clock stateWritten checkpointWritten runtime poll record rest) := by
  unfold Bridge.finishRecord
  split
  next middle written hwritten =>
  split at hwritten
  · next hnew =>
    obtain ⟨hlog, ⟨idempotency, hmiddle, hprocessed⟩, hcheckpoint⟩ := writeCommandsCheckpoint_place hwritten
    have hlast : record.fileSeq = max runtime.lastCommandFileSeq record.fileSeq := (max_eq_right hnew.le).symm
    split
    · refine .advanced hruntime hpoll hstage hrecords (by rw [hmiddle]; rfl) ?_ ?_ ?_ (.inr ⟨?_, _, rfl, rfl, rfl⟩)
        hlog ?_
      · rw [commit_eq]
        exact hlast
      · rw [commit_eq]
        exact hprocessed
      · rw [commit_eq]
      · rw [commit_eq]
      · rw [commit_eq]
        exact hcheckpoint
    · exact .advanced hruntime hpoll hstage hrecords hmiddle hlast hprocessed rfl (.inl ⟨rfl, rfl⟩) hlog hcheckpoint
  · next hold =>
    cases hwritten
    have hlast : runtime.lastCommandFileSeq = max runtime.lastCommandFileSeq record.fileSeq :=
      (max_eq_left (not_lt.mp hold)).symm
    refine .advanced hruntime hpoll hstage hrecords rfl ?_ (.inl ?_) ?_ (.inr ⟨?_, _, rfl, rfl, rfl⟩) rfl (.inl rfl)
    · rw [commit_eq]
      exact hlast
    · rw [commit_eq]
    · rw [commit_eq]
    · rw [commit_eq]

theorem ensureRuntimeStarted_eq (config : MetaTraderFileBridgeConfig) (library : Library F) (s : Bridge F)
    (eventsReadable : Bool) :
    s.ensureRuntimeStarted config library eventsReadable = s ∨
      s.runtime = none ∧ ∃ runtime, startRuntime config library s.disk = .ok runtime ∧
        s.ensureRuntimeStarted config library eventsReadable = { s with runtime := some runtime } := by
  unfold Bridge.ensureRuntimeStarted
  split
  · exact .inl rfl
  · next hnone =>
    split
    · next runtime hstart =>
      cases eventsReadable with
      | true => exact .inr ⟨hnone, runtime, hstart, rfl⟩
      | false => exact .inl rfl
    · exact .inl rfl

theorem beginPoll_move {allocator callback eventsReadable : Bool} (hpoll : s.poll = none) :
    Move config library s (s.beginPoll config library allocator callback eventsReadable) := by
  unfold Bridge.beginPoll
  simp only
  rcases ensureRuntimeStarted_eq config library s eventsReadable with hsame | ⟨hnone, runtime, hstart, hmiddle⟩
  · rw [hsame]
    cases hruntime : s.runtime with
    | none => exact .refl
    | some runtime =>
        simp only
        split
        · next runtime' message hread => exact .read hpoll (.inl hruntime) hread rfl (.inl hpoll) (.of_disk rfl)
        · next runtime' window hread =>
          exact .read hpoll (.inl hruntime) hread rfl (.inr ⟨window, _, rfl, rfl, rfl, rfl⟩) (.of_disk rfl)
  · rw [hmiddle]
    simp only
    split
    · next runtime' message hread => exact .read hpoll (.inr ⟨hnone, hstart⟩) hread rfl (.inl hpoll) (.of_disk rfl)
    · next runtime' window hread =>
      exact .read hpoll (.inr ⟨hnone, hstart⟩) hread rfl (.inr ⟨window, _, rfl, rfl, rfl, rfl⟩) (.of_disk rfl)

/-- The events that need a poll in progress. -/
theorem whilePolling_move {e : Event F}
    (h : ∀ runtime poll, s.runtime = some runtime → s.poll = some poll →
      Move config library s (s.inPoll config library runtime poll e).1) :
    Move config library s (s.whilePolling config library e).1 := by
  unfold Bridge.whilePolling
  split
  · next runtime poll hruntime hpoll => exact h runtime poll hruntime hpoll
  · exact .refl

theorem step_move (e : Event F) (hown : ∀ file, e ≠ .log file) :
    Move config library s (Bridge.step config library s e).1 := by
  cases e with
  | crash => exact .ended rfl rfl rfl
  | log file => exact absurd rfl (hown file)
  | start eventsReadable =>
      rcases ensureRuntimeStarted_eq config library s eventsReadable with hsame | ⟨hnone, runtime, hstart, hmiddle⟩
      · simp only [Bridge.step, hsame]
        exact .refl
      · simp only [Bridge.step, hmiddle]
        exact .started hnone hstart rfl rfl (.of_disk rfl)
  | poll allocator callback eventsReadable =>
      unfold Bridge.step
      simp only
      split
      · next hpoll => exact beginPoll_move hpoll
      · exact .refl
  | handle clock account appended written errorAppended =>
      refine whilePolling_move fun runtime poll hruntime hpoll => ?_
      unfold Bridge.inPoll
      simp only
      split
      · exact handleNext_move hruntime hpoll
      · exact .refl
  | allocated result =>
      refine whilePolling_move fun runtime poll hruntime hpoll => ?_
      unfold Bridge.inPoll
      simp only
      split
      · next pending hstage =>
        have hmoves : ∀ stage, Move config library s (s.goOn poll stage) := fun stage =>
          move_of_samePlace hruntime hpoll hruntime .refl (.inr ⟨stage, rfl⟩) (.of_disk rfl)
        cases result with
        | returned signalId => cases signalId <;> exact hmoves _
        | threw message => exact hmoves _
        | threwUnknown => exact move_of_samePlace hruntime hpoll hruntime .refl (.inl rfl) (.of_disk rfl)
      · exact .refl
  | mark clock written =>
      refine whilePolling_move fun runtime poll hruntime hpoll => ?_
      unfold Bridge.inPoll
      simp only
      split
      · next pending signalId hstage =>
        split
        · next middle hmiddle => exact storeResult_move hruntime hpoll hmiddle (.inr ⟨_, rfl⟩) rfl rfl
        · exact move_of_samePlace hruntime hpoll hruntime .refl (.inl rfl) (.of_disk rfl)
      · exact .refl
  | called result =>
      refine whilePolling_move fun runtime poll hruntime hpoll => ?_
      unfold Bridge.inPoll
      simp only
      split
      · next pending signalId hstage =>
        have hmoves : ∀ stage, Move config library s (s.goOn poll stage) := fun stage =>
          move_of_samePlace hruntime hpoll hruntime .refl (.inr ⟨stage, rfl⟩) (.of_disk rfl)
        cases result <;> exact hmoves _
      · exact .refl
  | store clock written appended =>
      refine whilePolling_move fun runtime poll hruntime hpoll => ?_
      unfold Bridge.inPoll
      simp only
      split
      · next pending signalId hstage =>
        split
        · next middle hmiddle =>
          cases appended with
          | true => exact storeResult_move hruntime hpoll hmiddle (.inr ⟨_, rfl⟩) rfl rfl
          | false => exact storeResult_move hruntime hpoll hmiddle (.inl rfl) rfl rfl
        · exact move_of_samePlace hruntime hpoll hruntime .refl (.inl rfl) (.of_disk rfl)
      · exact .refl
  | fail errorAppended =>
      refine whilePolling_move fun runtime poll hruntime hpoll => ?_
      unfold Bridge.inPoll
      simp only
      split
      · cases errorAppended with
        | true => exact move_of_samePlace hruntime hpoll hruntime .refl (.inr ⟨.handled, rfl⟩) (.of_disk rfl)
        | false => exact move_of_samePlace hruntime hpoll hruntime .refl (.inl rfl) (.of_disk rfl)
      · exact .refl
  | checkpoint clock stateWritten checkpointWritten =>
      refine whilePolling_move fun runtime poll hruntime hpoll => ?_
      unfold Bridge.inPoll
      simp only
      split
      · next record rest hstage hrecords => exact finishRecord_move hruntime hpoll hstage hrecords
      · exact .refl
  | finish =>
      refine whilePolling_move fun runtime poll hruntime hpoll => ?_
      unfold Bridge.inPoll
      simp only
      split
      · next hstage hrecords =>
        refine .finished hruntime hpoll hrecords rfl ?_ ?_ ?_ ?_ rfl (.of_disk rfl)
        · rw [commit_eq]
        · rw [commit_eq]
        · rw [commit_eq]
        · rw [commit_eq]
      · exact .refl

end OptionX.Bridges.MetaTraderFile
