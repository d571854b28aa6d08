import OptionX.Bridges.Lemmas.CommandLog

/-!
# The file bridge over whole runs

Runs start from files and go through polls, restarts, failed writes and changes of the command log in any order.
-/

namespace OptionX.Bridges.MetaTraderFile

open Lib.Lines (complete)
open Lib.Run (exec trace stepOf)
open MetaTraderFileProtocol (Bytes NdjsonRecord lineFeed)
open TradingView (CallResult Json Text text)

variable {F : Type}

/-! ## Operations -/

/-- Between two calls of the callback for one idempotency key, whatever happens and wherever the process ends in between,
the final result of an operation with the key is stored, and the clock is read twice so far apart as the retention. -/
theorem dispatched_once (config : MetaTraderFileBridgeConfig) (library : Library F) (disk : Disk F)
    (before between : List (Event F)) (e e' : Event F) (key : Text)
    (hcalled : (Bridge.step config library (exec (Bridge.step config library) { disk } before) e).2.called = some key)
    (hagain : (Bridge.step config library
      (exec (Bridge.step config library) { disk } (before ++ e :: between)) e').2.called = some key) :
    let steps := trace (Bridge.step config library) (exec (Bridge.step config library) { disk } (before ++ [e])) between
    Accepted key steps ∧ Outlived config.idempotencyRetentionMs (Read steps) := by
  rw [Lib.Run.exec_append, Lib.Run.exec_cons] at hagain
  rw [Lib.Run.exec_append, Lib.Run.exec_cons, Lib.Run.exec_nil]
  have hready := run_ready config library disk before
  obtain ⟨poll, pending, signalId, -, -, rfl, hfollowed⟩ := followed_of_called hready hcalled
  have hrun := run_history library (hready.effect (step_effect e)) hfollowed between
  exact hrun.2.called_again hagain

/-! A bridge that keeps one record, over a log whose lines are letters: the first command and the third have one key. -/

/-- A command that submits a signal under a key. -/
def submission (fileSeq : UInt64) (key : String) : Json Unit :=
  .object [
    (text "file_seq", .unsigned fileSeq), (text "jsonrpc", str "2.0"), (text "id", .unsigned fileSeq),
    (text "method", str "signal.submit"),
    (text "params", .object [
      (text "context", .object [(text "idempotency_key", str key), (text "valid_until_ms", .integer 90000)])])]

def letters : Library Unit where
  dump := fun
    | .unsigned value => [value.toUInt8]
    | _ => []
  parse := fun line =>
    if line = text "a" then .ok (submission 1 "a")
    else if line = text "b" then .ok (submission 2 "b")
    else if line = text "c" then .ok (submission 3 "a")
    else .error "parse_error"
  dumpSize := fun _ => 2
  typeError := text "type_error"
  fingerprint := fun _ _ => .ok (text "EURUSD")
  attach := fun _ _ => .ok ()

def oneRecord : MetaTraderFileBridgeConfig where
  bridgeId := 7
  maxScannedRecordsPerPoll := 1
  maxIdempotencyRecords := 1
  idempotencyRetentionMs := 1000

def lettersDisk : Disk Unit := { commandsLog := some (text "a\nb\nc\n") }

def handleAt (nowMs : Int64) : Event Unit := .handle (fun _ => nowMs) none (.ok ()) (.ok ()) true

/-- A poll that handles one command, up to the call of the callback. -/
def handedOver (nowMs : Int64) (signalId : Nat) : List (Event Unit) :=
  [.poll true true true, handleAt nowMs, .allocated (.returned signalId), .mark (fun _ => nowMs.toUInt64) (.ok ())]

/-- The rest of the poll. -/
def completed (nowMs : UInt64) : List (Event Unit) :=
  [.store (fun _ => nowMs) (.ok ()) true, .checkpoint (fun _ => nowMs) (.ok ()) true, .finish]

/-- A poll that finds an old command. -/
def skipped : List (Event Unit) := [.poll true true true, .finish]

/-- The second command moves the first one out of the records; two seconds later its key is free again. -/
theorem dispatched_once_letters :
    let steps := trace (Bridge.step oneRecord letters)
      (exec (Bridge.step oneRecord letters) { disk := lettersDisk } (handedOver 5000 40 ++ [.called (.returned ())]))
      (completed 5000 ++ handedOver 6000 41 ++ .called (.returned ()) :: completed 6000 ++
        .crash :: skipped ++ skipped ++ handedOver 8000 42)
    Accepted (text "signal.submit\na") steps ∧ Outlived 1000 (Read steps) :=
  dispatched_once oneRecord letters lettersDisk (handedOver 5000 40) _ (.called (.returned ()))
    (.called (.returned ())) (text "signal.submit\na") (by decide +kernel) (by decide +kernel)

/-- A command that asks for an operation which was handed over is answered with the result that is stored for it, or with a
conflict, and is not handed over: also after the process has ended, and until the operation is done and outlived. -/
theorem repeat_answered (config : MetaTraderFileBridgeConfig) (library : Library F) (disk : Disk F)
    (before between : List (Event F)) (e : Event F) (pending : PendingSignalDispatch F) (signalId : Nat)
    (poll poll' : Poll F) (record : NdjsonRecord (Json F)) (rest : List (NdjsonRecord (Json F))) (fingerprint : Text)
    (method : String) (clock : Nat → Int64) (account : Option (Json F)) (appended written : Except Text Unit)
    (errorAppended : Bool)
    (hpoll : (exec (Bridge.step config library) { disk } before).poll = some poll)
    (hstage : poll.stage = .calling pending signalId)
    (hcalled : (Bridge.step config library (exec (Bridge.step config library) { disk } before) e).2.called =
      some pending.idempotencyStorageKey)
    (hpoll' : (exec (Bridge.step config library) { disk } (before ++ e :: between)).poll = some poll')
    (hstage' : poll'.stage = .records) (hrecords : poll'.records = record :: rest)
    (hasks : Asks library pending record fingerprint method) :
    let asked : Event F := .handle clock account appended written errorAppended
    let s := exec (Bridge.step config library) { disk } (before ++ e :: between)
    let steps := trace (Bridge.step config library) (exec (Bridge.step config library) { disk } (before ++ [e]))
      (between ++ [asked])
    let id := (record.document.member? (text "id")).getD .null
    Accepted pending.idempotencyStorageKey steps ∧ Outlived config.idempotencyRetentionMs (Read steps) ∨
      (Bridge.step config library s asked).1.disk = s.disk ∧ Quiet (Bridge.step config library s asked).1 ∧
        ∀ reply ∈ (Bridge.step config library s asked).2.replies,
          Answered config pending signalId (Accepted pending.idempotencyStorageKey steps) fingerprint id reply ∨
            ∃ message, appended = .error message ∧ reply = .failure id jsonrpcInternalError message := by
  intro asked s steps id
  have hready := run_ready config library disk before
  obtain ⟨_, _, _, hpoll₁, hstage₁, -, hfollowed⟩ := followed_of_called hready hcalled
  rw [hpoll] at hpoll₁
  cases hpoll₁
  rw [hstage] at hstage₁
  cases hstage₁
  have hrun := run_history library (hready.effect (step_effect e)) hfollowed between
  have hafter : exec (Bridge.step config library) { disk } (before ++ [e]) =
      (Bridge.step config library (exec (Bridge.step config library) { disk } before) e).1 := Lib.Run.exec_append _ _
  rw [← hafter] at hrun
  have hs : s = exec (Bridge.step config library) (exec (Bridge.step config library) { disk } (before ++ [e])) between := by
    rw [← Lib.Run.exec_append, List.append_assoc]
    rfl
  have hsteps : steps = trace (Bridge.step config library) (exec (Bridge.step config library) { disk } (before ++ [e]))
      between ++ [stepOf (Bridge.step config library) s asked] := by
    rw [hs]
    exact Lib.Run.trace_append between [asked]
  rw [← hs] at hrun
  have hlast := hrun.2.append (stepOf (Bridge.step config library) s asked)
  rw [← hsteps] at hlast
  have hread : Read steps (clock 0).toUInt64 := by
    rw [hsteps]
    exact ⟨_, List.mem_append_right _ (List.mem_singleton.mpr rfl), 0, rfl⟩
  exact handle_answered hlast hread hpoll' hstage' hrecords hasks

/-- The process ends right after the call; the command is read again, and the operation is in doubt. -/
theorem repeat_answered_afterCrash :
    let between : List (Event Unit) := [.crash, .poll true true true]
    let pending : PendingSignalDispatch Unit :=
      { fileSeq := 1, id := .unsigned 1, idempotencyStorageKey := text "signal.submit\na"
        requestStorageKey := text "signal.submit\n" ++ [1], payloadFingerprint := text "EURUSD" }
    let s := exec (Bridge.step oneRecord letters) { disk := lettersDisk }
      (handedOver 5000 40 ++ .called (.returned ()) :: between)
    let steps := trace (Bridge.step oneRecord letters) (exec (Bridge.step oneRecord letters) { disk := lettersDisk }
      (handedOver 5000 40 ++ [.called (.returned ())])) (between ++ [handleAt 5001])
    Accepted (text "signal.submit\na") steps ∧ Outlived 1000 (Read steps) ∨
      (Bridge.step oneRecord letters s (handleAt 5001)).1.disk = s.disk ∧
        Quiet (Bridge.step oneRecord letters s (handleAt 5001)).1 ∧
        ∀ reply ∈ (Bridge.step oneRecord letters s (handleAt 5001)).2.replies,
          Answered oneRecord pending 40 (Accepted (text "signal.submit\na") steps) (text "EURUSD") (.unsigned 1) reply ∨
            ∃ message, (.ok () : Except Text Unit) = .error message ∧
              reply = .failure (.unsigned 1) jsonrpcInternalError message := by
  intro between pending
  have hasks : Asks letters pending ⟨submission 1 "a", 0, 2, 1⟩ (text "EURUSD") "signal.submit" :=
    ⟨rfl, rfl, .inl rfl, by decide +kernel, by decide +kernel, rfl⟩
  have hpoll : (exec (Bridge.step oneRecord letters) { disk := lettersDisk } (handedOver 5000 40)).poll =
      some ⟨true, true, [⟨submission 1 "a", 0, 2, 1⟩], 2, .calling pending 40⟩ := by
    with_unfolding_all rfl
  have hpoll' : (exec (Bridge.step oneRecord letters) { disk := lettersDisk }
      (handedOver 5000 40 ++ .called (.returned ()) :: between)).poll =
      some ⟨true, true, [⟨submission 1 "a", 0, 2, 1⟩], 2, .records⟩ := by
    with_unfolding_all rfl
  exact repeat_answered oneRecord letters lettersDisk (handedOver 5000 40) between (.called (.returned ())) pending 40 _ _ _
    [] (text "EURUSD") "signal.submit" (fun _ => 5001) none (.ok ()) (.ok ()) true hpoll rfl (by decide +kernel) hpoll' rfl
    rfl hasks

/-! ## Restarts -/

/-- The state that a restart at any moment begins with has the records and the mark that were in memory, and all the
tombstones. -/
theorem restart_remembers (config : MetaTraderFileBridgeConfig) (library : Library F) (disk : Disk F)
    (es : List (Event F)) (runtime restarted : Runtime F)
    (hruntime : (exec (Bridge.step config library) { disk } es).runtime = some runtime)
    (hrestart : startRuntime config library (exec (Bridge.step config library) { disk } es).disk = .ok restarted) :
    Durable runtime.idempotency restarted.idempotency :=
  run_restartable config library disk es runtime hruntime restarted.idempotency (startRuntime_idempotency hrestart)

/-- A restart after the first command finds its record. -/
theorem restart_remembers_letters :
    ∃ runtime restarted : Runtime Unit,
      (exec (Bridge.step oneRecord letters) { disk := lettersDisk } (handedOver 5000 40)).runtime = some runtime ∧
        runtime.idempotency.known (text "signal.submit\na") = true ∧
        Durable runtime.idempotency restarted.idempotency := by
  let s := exec (Bridge.step oneRecord letters) { disk := lettersDisk } (handedOver 5000 40)
  have hknown : (s.runtime.any fun runtime => runtime.idempotency.known (text "signal.submit\na")) = true := by
    decide +kernel
  have hstarts : (startRuntime oneRecord letters s.disk).isOk = true := by
    decide +kernel
  cases hruntime : s.runtime with
  | none =>
      rw [hruntime] at hknown
      cases hknown
  | some runtime =>
      rw [hruntime] at hknown
      cases hrestart : startRuntime oneRecord letters s.disk with
      | error message =>
          rw [hrestart] at hstarts
          cases hstarts
      | ok restarted =>
          exact ⟨runtime, restarted, rfl, hknown,
            restart_remembers oneRecord letters lettersDisk (handedOver 5000 40) runtime restarted hruntime hrestart⟩

/-- From the command log alone on, no restart needs the checkpoint: the mark in the state file is never behind it. -/
theorem restart_without_checkpoint (config : MetaTraderFileBridgeConfig) (library : Library F)
    (commandsLog : Option Bytes) (es : List (Event F)) :
    let disk := (exec (Bridge.step config library) { disk := { commandsLog } } es).disk
    startRuntime config library { disk with commandsCheckpoint := none } = startRuntime config library disk := by
  intro disk
  obtain ⟨-, checkpoint, hbehind⟩ := run_behind config library commandsLog es
  have hreadable : readLastFileSeqCheckpoint disk.commandsCheckpoint = .ok checkpoint := hbehind.readable
  unfold startRuntime
  rw [hreadable]
  simp only [readLastFileSeqCheckpoint, bind, Except.bind]
  split
  · rfl
  · cases hread : readIdempotencyState "" disk.idempotencyState with
    | error message => rfl
    | ok state =>
        have hle := hbehind.file state hread
        simp [max_eq_right hle]

/-! ## The command log

Several writers append commands to one log and may clear it, the bridge reads it, and any of the processes may end at any
moment. -/

section CommandLog

variable {W : Type} [DecidableEq W]

/-- A command that was appended and not yet handled is still a line of the log, ahead of the reader and of any restart. -/
theorem no_command_lost (config : MetaTraderFileBridgeConfig) (library : Library F) (es : List (ProtocolEvent F W))
    (hmax : 0 < config.maxLineBytes) (hscan : 0 < config.maxScannedRecordsPerPoll)
    (hstorable : ∀ e ∈ es, e.Storable library) :
    let steps := trace (Protocol.step config library) {} es
    let bridge := (exec (Protocol.step config library) {} es).bridge
    ∀ fileSeq ∈ appendedSeqs steps, Handled steps fileSeq ∨
      (∃ line ∈ complete lineFeed (bridge.disk.commandsLog.getD []), Line library config.maxLineBytes line fileSeq) ∧
        (∀ runtime, bridge.runtime = some runtime → runtime.lastCommandFileSeq < fileSeq) ∧
        ∀ restarted, startRuntime config library bridge.disk = .ok restarted → restarted.lastCommandFileSeq < fileSeq := by
  intro steps bridge fileSeq hmem
  obtain ⟨-, seqs, checkpoint, hlog, hreader⟩ := run_safe hmax hscan es hstorable
  by_cases hhandled : Handled steps fileSeq
  · exact .inl hhandled
  · have hahead : ∀ n, Covered (appendedSeqs steps) (Handled steps) n → n < fileSeq := fun n hn =>
      lt_of_not_ge fun hle => hhandled (hn.handled fileSeq hmem hle)
    refine .inr ⟨?_, fun runtime hruntime => hahead _ (hreader.last runtime hruntime).1,
      fun restarted hrestart => hahead _ (hreader.started hrestart).1.1⟩
    rcases hlog.kept fileSeq hmem with hseq | hle
    · exact exists_line hlog.holds.lines hseq
    · exact absurd (hahead _ hreader.checkpoint) (not_lt.mpr hle)

/-! Two writers, over a library that writes only the number of a command. -/

/-- A number is written as one mark more than it counts. -/
def tally : Library Unit where
  dump := fun document =>
    match document.member? (text "file_seq") with
    | some (.unsigned fileSeq) => List.replicate (fileSeq.toNat + 1) 49
    | _ => []
  parse := fun line => .ok (.object [(text "file_seq", .unsigned (UInt64.ofNat (line.length - 1)))])
  dumpSize := fun _ => 2
  typeError := text "type_error"
  fingerprint := fun _ _ => .ok (text "EURUSD")
  attach := fun _ _ => .ok ()

def hello : Request Unit := { id := .unsigned 1, method := text "protocol.hello", params := .object [] }

theorem hello_storable : hello.Storable tally := by
  have hdump : ∀ fileSeq, tally.dump (makeFileJsonrpcRequest fileSeq hello) = List.replicate (fileSeq.toNat + 1) 49 :=
    fun _ => rfl
  refine ⟨fun fileSeq => ?_, fun fileSeq => ?_, fun fileSeq => ?_, fun fileSeq => ?_⟩
  · rw [hdump, List.mem_replicate]
    rintro ⟨-, hfeed⟩
    cases hfeed
  · rw [hdump, List.mem_replicate]
    rintro ⟨-, hreturn⟩
    cases hreturn
  · simp [hdump]
  · refine ⟨_, rfl, ?_⟩
    rw [hdump, List.length_replicate, Nat.add_sub_cancel, UInt64.ofNat_toNat]
    rfl

def shortLines : MetaTraderFileBridgeConfig where
  bridgeId := 7
  maxLineBytes := 8
  maxCommandLogBytes := 16
  maxScannedRecordsPerPoll := 1

def handleHello : ProtocolEvent Unit Bool := .bridge ⟨.handle (fun _ => 5000) none (.ok ()) (.ok ()) true, nofun⟩

def pollLog : ProtocolEvent Unit Bool := .bridge ⟨.poll true true true, nofun⟩

def writeCheckpoint : ProtocolEvent Unit Bool := .bridge ⟨.checkpoint (fun _ => 5000) (.ok ()) true, nofun⟩

/-- One writer ends in the middle of a line, the other one clears the log behind the reader, and a command is appended. -/
def clearedLog : List (ProtocolEvent Unit Bool) :=
  [.append true hello .none, .append false hello (.afterBytes 1), pollLog, handleHello, writeCheckpoint, .clear true,
    .append false hello .none]

theorem clearedLog_storable : ∀ e ∈ clearedLog, e.Storable tally := by
  simp [clearedLog, pollLog, handleHello, writeCheckpoint, ProtocolEvent.Storable, hello_storable]

theorem no_command_lost_clearedLog :
    let steps := trace (Protocol.step shortLines tally) {} clearedLog
    let bridge := (exec (Protocol.step shortLines tally) {} clearedLog).bridge
    ∀ fileSeq ∈ appendedSeqs steps, Handled steps fileSeq ∨
      (∃ line ∈ complete lineFeed (bridge.disk.commandsLog.getD []), Line tally shortLines.maxLineBytes line fileSeq) ∧
        (∀ runtime, bridge.runtime = some runtime → runtime.lastCommandFileSeq < fileSeq) ∧
        ∀ restarted, startRuntime shortLines tally bridge.disk = .ok restarted →
          restarted.lastCommandFileSeq < fileSeq :=
  no_command_lost shortLines tally clearedLog (by decide) (by decide) clearedLog_storable

/-- Only commands that were appended are handled, and none before all that were appended before it. -/
theorem handled_in_order (config : MetaTraderFileBridgeConfig) (library : Library F) (es : List (ProtocolEvent F W))
    (hmax : 0 < config.maxLineBytes) (hscan : 0 < config.maxScannedRecordsPerPoll)
    (hstorable : ∀ e ∈ es, e.Storable library) :
    let steps := trace (Protocol.step config library) {} es
    ∀ fileSeq, (exec (Protocol.step config library) {} es).bridge.Handles fileSeq →
      fileSeq ∈ appendedSeqs steps ∧ ∀ before ∈ appendedSeqs steps, before ≤ fileSeq → Handled steps before := by
  intro steps fileSeq hhandles
  obtain ⟨hhandled, seqs, checkpoint, hlog, hreader⟩ := run_safe hmax hscan es hstorable
  have hdone := hhandled fileSeq hhandles
  obtain ⟨poll, record, rest, hpoll, -, hrecords, rfl⟩ := hhandles
  obtain ⟨runtime, hruntime, hok⟩ := hreader.poll poll hpoll
  have hfresh := hok.fresh_of_cons hrecords
  obtain ⟨hmem, -, -⟩ := hfresh.new record (by rw [hrecords]; exact List.mem_cons_self)
  have hcovered := hfresh.covered hrecords hlog (hreader.last runtime hruntime).1 hreader.checkpoint hdone
  exact ⟨hlog.visible _ hmem, hcovered.handled⟩

/-- Both writers append, and the bridge goes through their commands. -/
def bothHandled : List (ProtocolEvent Unit Bool) :=
  [.append true hello .none, .append false hello .none, pollLog, handleHello, writeCheckpoint, .bridge ⟨.finish, nofun⟩,
    pollLog, handleHello]

theorem bothHandled_storable : ∀ e ∈ bothHandled, e.Storable tally := by
  simp [bothHandled, pollLog, handleHello, writeCheckpoint, ProtocolEvent.Storable, hello_storable]

theorem handled_in_order_bothHandled :
    let steps := trace (Protocol.step shortLines tally) {} bothHandled
    2 ∈ appendedSeqs steps ∧ ∀ before ∈ appendedSeqs steps, before ≤ 2 → Handled steps before := by
  have hpoll : (exec (Protocol.step shortLines tally) {} bothHandled).bridge.poll =
      some ⟨true, true, [⟨.object [(text "file_seq", .unsigned 2)], 3, 7, 2⟩], 7, .handled⟩ := by
    with_unfolding_all rfl
  exact handled_in_order shortLines tally bothHandled (by decide) (by decide) bothHandled_storable 2
    ⟨_, _, [], hpoll, rfl, rfl, rfl⟩

/-- No sequence number is given twice, and each is beyond those before it, whichever writer gives it. -/
theorem sequence_numbers_grow (config : MetaTraderFileBridgeConfig) (library : Library F) (es : List (ProtocolEvent F W))
    (hmax : 0 < config.maxLineBytes) (hscan : 0 < config.maxScannedRecordsPerPoll)
    (hstorable : ∀ e ∈ es, e.Storable library) :
    (appendedSeqs (trace (Protocol.step config library) {} es)).Pairwise (· < ·) := by
  obtain ⟨-, seqs, checkpoint, hlog, -⟩ := run_safe hmax hscan es hstorable
  exact hlog.sorted

theorem sequence_numbers_grow_clearedLog :
    (appendedSeqs (trace (Protocol.step shortLines tally) {} clearedLog)).Pairwise (· < ·) :=
  sequence_numbers_grow shortLines tally clearedLog (by decide) (by decide) clearedLog_storable


end CommandLog

end OptionX.Bridges.MetaTraderFile
