import OptionX.Bridges.MetaTraderFileBridge

/-!
# Writers of the command log

`MetaTraderFileCommandWriter.hpp`: each public call holds the lock on the log, and the process that makes it may end on the
way. With the bridge, whose limits they have, the writers make up the command log protocol; what they put into the
parameters of a request is left open.
-/

namespace OptionX.Bridges.MetaTraderFile

open MetaTraderFileProtocol (Bytes Crash appendSerializedJsonLine lineFeed readNdjsonFromOffset repairIncompleteNdjsonTail)
open TradingView (Json Text text)

variable {F W : Type}

structure Writer where
  nextFileSeq : UInt64 := 1
  initialized : Bool := false

/-- `std::numeric_limits<std::uint64_t>::max()`. -/
def maxUint64 : UInt64 := 0xFFFFFFFFFFFFFFFF

/-! ## Sequence numbers -/

def readReaderCheckpoint : Option (Json F) → Except String UInt64
  | none => .ok 0
  | some checkpoint =>
      match checkpoint.member? (text "last_file_seq") with
      | none => .error "MetaTrader command checkpoint is missing last_file_seq."
      | some (.unsigned value) => .ok value
      | some (.integer value) =>
          if 0 ≤ value then .ok value.toUInt64
          else .error "MetaTrader command checkpoint last_file_seq must be a non-negative integer."
      | some _ => .error "MetaTrader command checkpoint last_file_seq must be a non-negative integer."

def maxFileSeqInNdjson (library : Library F) (file : Option Bytes) (maxLineBytes : Nat) : Except String UInt64 := do
  let all ← readNdjsonFromOffset library.log file 0 maxLineBytes 0
  return all.records.foldl (fun maxSeq record => if maxSeq < record.fileSeq then record.fileSeq else maxSeq) 0

def nextFileSeqAfterCheckpoint (library : Library F) (writerLog : Option Bytes) (readerLastFileSeq : UInt64)
    (maxLineBytes : Nat) : Except String UInt64 := do
  let visibleMax ← maxFileSeqInNdjson library writerLog maxLineBytes
  let base := max visibleMax readerLastFileSeq
  if base = maxUint64 then .error "MetaTrader file transport file_seq overflow." else return base + 1

namespace Writer

def refreshNextFileSeq (config : MetaTraderFileBridgeConfig) (library : Library F) (disk : Disk F) (writer : Writer) :
    Except String Writer := do
  let checkpoint ← readReaderCheckpoint disk.commandsCheckpoint
  let recovered ← nextFileSeqAfterCheckpoint library disk.commandsLog checkpoint config.maxLineBytes
  return if !writer.initialized || decide (writer.nextFileSeq < recovered) then { writer with nextFileSeq := recovered }
    else writer

def initializeWriter (config : MetaTraderFileBridgeConfig) (library : Library F) (disk : Disk F) (writer : Writer) :
    Except String Writer := do
  let writer ← writer.refreshNextFileSeq config library disk
  return { writer with initialized := true }

def ensureInitialized (config : MetaTraderFileBridgeConfig) (library : Library F) (disk : Disk F) (writer : Writer) :
    Except String Writer :=
  if writer.initialized then .ok writer else writer.initializeWriter config library disk

end Writer

/-! ## Clearing and appending -/

/-- A writer and the files, and what a call came to. -/
structure Call (F α : Type) where
  disk : Disk F
  writer : Writer
  result : Except String α

def clearCommandsIfCheckpointCaughtUp (config : MetaTraderFileBridgeConfig) (library : Library F) (disk : Disk F)
    (writer : Writer) : Call F Bool :=
  match readReaderCheckpoint disk.commandsCheckpoint with
  | .error message => ⟨disk, writer, .error message⟩
  | .ok checkpoint =>
      match maxFileSeqInNdjson library disk.commandsLog config.maxLineBytes with
      | .error message => ⟨disk, writer, .error message⟩
      | .ok visibleMax =>
          if visibleMax = 0 ∨ checkpoint < visibleMax then ⟨disk, writer, .ok false⟩
          else
            let disk := { disk with commandsLog := some [] }
            if checkpoint = maxUint64 then
              ⟨disk, writer, .error "MetaTrader file command writer file_seq overflow."⟩
            else ⟨disk, { writer with nextFileSeq := checkpoint + 1 }, .ok true⟩

def hasRoom (config : MetaTraderFileBridgeConfig) (disk : Disk F) (appendedBytes : Nat) : Prop :=
  (disk.commandsLog.getD []).length ≤ config.maxCommandLogBytes ∧
    appendedBytes ≤ config.maxCommandLogBytes - (disk.commandsLog.getD []).length

instance instDecidableHasRoom (config : MetaTraderFileBridgeConfig) (disk : Disk F) (appendedBytes : Nat) :
    Decidable (hasRoom config disk appendedBytes) := inferInstanceAs (Decidable (_ ∧ _))

def ensureCommandLogCapacity (config : MetaTraderFileBridgeConfig) (library : Library F) (appendedBytes : Nat)
    (disk : Disk F) (writer : Writer) : Call F Unit :=
  if config.maxCommandLogBytes < appendedBytes then
    ⟨disk, writer, .error "MetaTrader file command would exceed configured command log byte limit."⟩
  else
    let disk := { disk with commandsLog := (repairIncompleteNdjsonTail disk.commandsLog).1 }
    if hasRoom config disk appendedBytes then ⟨disk, writer, .ok ()⟩
    else
      let cleared := clearCommandsIfCheckpointCaughtUp config library disk writer
      match cleared.result with
      | .error message => ⟨cleared.disk, cleared.writer, .error message⟩
      | .ok true =>
          if hasRoom config cleared.disk appendedBytes then ⟨cleared.disk, cleared.writer, .ok ()⟩
          else
            ⟨cleared.disk, cleared.writer, .error ("MetaTrader command log would exceed configured byte limit; " ++
              "wait for bridge checkpoint or clean up commands.ndjson.")⟩
      | .ok false =>
          ⟨cleared.disk, cleared.writer, .error ("MetaTrader command log would exceed configured byte limit; " ++
            "wait for bridge checkpoint or clean up commands.ndjson.")⟩

/-- The request without its number: the library keeps the members sorted. -/
structure Request (F : Type) where
  id : Json F
  method : Text
  params : Json F

def makeFileJsonrpcRequest (fileSeq : UInt64) (request : Request F) : Json F :=
  .object [
    (text "file_seq", .unsigned fileSeq), (text "id", request.id), (text "jsonrpc", str "2.0"),
    (text "method", .string request.method), (text "params", request.params)]

/-- What a call that may end on the way leaves, and the sequence number of the line, if its line feed was written. -/
structure Appended (F : Type) where
  disk : Disk F
  writer : Writer
  fileSeq : Option UInt64

/-- The line is written, as far as the process comes. -/
def writeLine (config : MetaTraderFileBridgeConfig) (disk : Disk F) (writer : Writer) (fileSeq : UInt64) (line : Bytes) :
    Crash → Appended F
  | .none =>
      match appendSerializedJsonLine disk.commandsLog line config.maxLineBytes with
      | (commandsLog, .error _) => ⟨{ disk with commandsLog }, writer, none⟩
      | (commandsLog, .ok ()) =>
          if writer.nextFileSeq = maxUint64 then ⟨{ disk with commandsLog }, writer, some fileSeq⟩
          else ⟨{ disk with commandsLog }, { writer with nextFileSeq := writer.nextFileSeq + 1 }, some fileSeq⟩
  | .beforeRepair => ⟨disk, {}, none⟩
  | .afterBytes count =>
      if config.maxLineBytes < line.length then ⟨disk, {}, none⟩
      else
        ⟨{ disk with commandsLog := some (disk.commandsLog.getD [] ++ (line ++ [lineFeed]).take count) }, {},
          if line.length < count then some fileSeq else none⟩

/-- A process that ends before the repair ends before anything is written. -/
def appendRequest (config : MetaTraderFileBridgeConfig) (library : Library F) (request : Request F) (crash : Crash)
    (disk : Disk F) (writer : Writer) : Appended F :=
  match crash with
  | .beforeRepair => ⟨disk, {}, none⟩
  | crash =>
      match writer.ensureInitialized config library disk with
      | .error _ => ⟨disk, writer, none⟩
      | .ok writer =>
          match writer.refreshNextFileSeq config library disk with
          | .error _ => ⟨disk, writer, none⟩
          | .ok writer =>
              let fileSeq := writer.nextFileSeq
              let line := library.dump (makeFileJsonrpcRequest fileSeq request)
              let ensured := ensureCommandLogCapacity config library (line.length + 1) disk writer
              match ensured.result with
              | .error _ => ⟨ensured.disk, ensured.writer, none⟩
              | .ok () => writeLine config ensured.disk ensured.writer fileSeq line crash

/-! ## The protocol -/

/-- What the bridge does on its own: it never writes the command log. -/
def BridgeEvent (F : Type) : Type := { event : Event F // ∀ file, event ≠ .log file }

structure Protocol (F W : Type) where
  bridge : Bridge F := {}
  writers : W → Writer := fun _ => {}

inductive ProtocolEvent (F W : Type) where
  | bridge (event : BridgeEvent F)
  /-- Another writer takes the place of one. -/
  | newWriter (w : W)
  | initializeWriter (w : W)
  | nextFileSeq (w : W)
  | append (w : W) (request : Request F) (crash : Crash)
  | clear (w : W)

namespace Protocol

variable [DecidableEq W]

def set (s : Protocol F W) (w : W) (disk : Disk F) (writer : Writer) : Protocol F W :=
  { bridge := { s.bridge with disk }, writers := Function.update s.writers w writer }

/-- The answer is the sequence number of the line that was appended, if there is one. -/
def step (config : MetaTraderFileBridgeConfig) (library : Library F) (s : Protocol F W) :
    ProtocolEvent F W → Protocol F W × Option UInt64
  | .bridge event => ({ s with bridge := (Bridge.step config library s.bridge event.val).1 }, none)
  | .newWriter w => (s.set w s.bridge.disk {}, none)
  | .initializeWriter w =>
      match (s.writers w).initializeWriter config library s.bridge.disk with
      | .ok writer => (s.set w s.bridge.disk writer, none)
      | .error _ => (s, none)
  | .nextFileSeq w =>
      match (s.writers w).ensureInitialized config library s.bridge.disk with
      | .error _ => (s, none)
      | .ok writer =>
          match writer.refreshNextFileSeq config library s.bridge.disk with
          | .ok writer => (s.set w s.bridge.disk writer, none)
          | .error _ => (s.set w s.bridge.disk writer, none)
  | .append w request crash =>
      let appended := appendRequest config library request crash s.bridge.disk (s.writers w)
      (s.set w appended.disk appended.writer, appended.fileSeq)
  | .clear w =>
      match (s.writers w).ensureInitialized config library s.bridge.disk with
      | .error _ => (s, none)
      | .ok writer =>
          let cleared := clearCommandsIfCheckpointCaughtUp config library s.bridge.disk writer
          (s.set w cleared.disk cleared.writer, none)

end Protocol

end OptionX.Bridges.MetaTraderFile
