import OptionX.Lib.Lines

/-!
# Append logs of the file transport

The NDJSON functions of `MetaTraderFileProtocol.hpp`. A log is a file of bytes, or no file; JSON is the library's and
stays a parameter. Errors of the file system are left out.
-/

namespace OptionX.Bridges.MetaTraderFileProtocol

abbrev Bytes := List UInt8

def lineFeed : UInt8 := 10

def carriageReturn : UInt8 := 13

/-- What a document has under `file_seq`. -/
inductive SeqValue where
  | unsigned (value : UInt64)
  | integer (value : Int64)
  | other

/-- The JSON library: `dump(-1)`, `parse`, and the lookup of `file_seq`. -/
structure Json (Doc : Type) where
  dump : Doc → Bytes
  parse : Bytes → Except String Doc
  findFileSeq : Doc → Option SeqValue

variable {Doc : Type}

def parseRequiredFileSeq (json : Json Doc) (document : Doc) : Except String UInt64 :=
  match json.findFileSeq document with
  | none => throw "NDJSON record is missing required file_seq."
  | some (.unsigned value) =>
      if value = 0 then throw "NDJSON record file_seq must be positive." else return value
  | some (.integer value) =>
      if value ≤ 0 then throw "NDJSON record file_seq must be positive." else return value.toUInt64
  | some .other => throw "NDJSON record file_seq must be an integer."

structure NdjsonRecord (Doc : Type) where
  document : Doc
  startOffset : Nat
  nextOffset : Nat
  fileSeq : UInt64

structure NdjsonMalformedRecord where
  startOffset : Nat
  nextOffset : Nat
  message : String

structure NdjsonReadResult (Doc : Type) where
  records : List (NdjsonRecord Doc) := []
  malformedRecords : List NdjsonMalformedRecord := []
  startOffset : Nat := 0
  nextOffset : Nat := 0
  scannedRecords : Nat := 0
  sourceTruncated : Bool := false
  incompleteTail : Bool := false
  stoppedByRecordLimit : Bool := false

/-! ## Repair and append -/

/-- The chunk is searched from its end; `i` bytes of it are left. -/
def scanChunk (buffer : Bytes) (scanEnd : Nat) : Nat → Option Nat
  | 0 => none
  | i + 1 => if buffer[i]? = some lineFeed then some (scanEnd + (i + 1)) else scanChunk buffer scanEnd i

/-- The size that the log is cut to: behind the last line feed before `scanEnd`. -/
def scanTail (data : Bytes) (scanEnd : Nat) : Nat :=
  if scanEnd = 0 then 0
  else
    let chunk := min 4096 scanEnd
    let buffer := (data.drop (scanEnd - chunk)).take chunk
    match scanChunk buffer (scanEnd - chunk) chunk with
    | some size => size
    | none => scanTail data (scanEnd - chunk)
termination_by scanEnd

/-- The log afterwards, and whether it was cut. -/
def repairIncompleteNdjsonTail : Option Bytes → Option Bytes × Bool
  | none => (none, false)
  | some data =>
      if data.length = 0 then (some data, false)
      else if data[data.length - 1]? = some lineFeed then (some data, false)
      else (some (data.take (scanTail data data.length)), true)

def appendSerializedJsonLine (file : Option Bytes) (line : Bytes) (maxLineBytes : Nat) :
    Option Bytes × Except String Unit :=
  if line.length > maxLineBytes then
    (file, throw "MetaTrader file transport NDJSON line exceeds configured byte limit.")
  else (some (file.getD [] ++ (line ++ [lineFeed])), return ())

def appendJsonLine (json : Json Doc) (file : Option Bytes) (document : Doc) (maxLineBytes : Nat) :
    Option Bytes × Except String Unit :=
  appendSerializedJsonLine (repairIncompleteNdjsonTail file).1 (json.dump document) maxLineBytes

/-- How far an append came. -/
inductive Crash where
  | none
  | beforeRepair
  /-- So many bytes of the line and its line feed were written. -/
  | afterBytes (count : Nat)

/-- The log that an append leaves behind that may be cut off by a crash. -/
def crashedAppend (json : Json Doc) (maxLineBytes : Nat) (file : Option Bytes) (document : Doc) : Crash → Option Bytes
  | .none => (appendJsonLine json file document maxLineBytes).1
  | .beforeRepair => file
  | .afterBytes count =>
      let file := (repairIncompleteNdjsonTail file).1
      if (json.dump document).length > maxLineBytes then file
      else some (file.getD [] ++ (json.dump document ++ [lineFeed]).take count)

/-! ## Reading from an offset -/

/-- A line that is not empty: a record, or a malformed record. -/
abbrev Entry (Doc : Type) := NdjsonRecord Doc ⊕ NdjsonMalformedRecord

def Entry.startOffset : Entry Doc → Nat
  | .inl record => record.startOffset
  | .inr malformed => malformed.startOffset

def Entry.nextOffset : Entry Doc → Nat
  | .inl record => record.nextOffset
  | .inr malformed => malformed.nextOffset

def dropCarriageReturn (line : Bytes) : Bytes :=
  if line.getLast? = some carriageReturn then line.dropLast else line

def readLine (json : Json Doc) (line : Bytes) (lineStart recordNext : Nat) : Entry Doc :=
  match json.parse line with
  | .error message => .inr ⟨lineStart, recordNext, message⟩
  | .ok document =>
      match parseRequiredFileSeq json document with
      | .error message => .inr ⟨lineStart, recordNext, message⟩
      | .ok fileSeq => .inl ⟨document, lineStart, recordNext, fileSeq⟩

def NdjsonReadResult.push (result : NdjsonReadResult Doc) : Entry Doc → NdjsonReadResult Doc
  | .inl record => { result with records := result.records ++ [record] }
  | .inr malformed => { result with malformedRecords := result.malformedRecords ++ [malformed] }

def readLoop (json : Json Doc) (maxLineBytes maxRecords : Nat) :
    Bytes → NdjsonReadResult Doc → Bytes → Nat → Nat → Nat → Except String (NdjsonReadResult Doc)
  | [], result, line, _, _, _ => return { result with incompleteTail := !line.isEmpty }
  | ch :: rest, result, line, currentOffset, lineStart, completeRecords =>
      if ch ≠ lineFeed then
        if line.length ≥ maxLineBytes then throw "NDJSON line exceeds configured byte limit."
        else readLoop json maxLineBytes maxRecords rest result (line ++ [ch]) (currentOffset + 1) lineStart
          completeRecords
      else
        let recordNext := currentOffset + 1
        let line := dropCarriageReturn line
        let completeRecords := if line.isEmpty then completeRecords else completeRecords + 1
        let result := { result with nextOffset := recordNext }
        let result :=
          if line.isEmpty then result
          else { result with scannedRecords := completeRecords }.push (readLine json line lineStart recordNext)
        if maxRecords ≠ 0 ∧ completeRecords ≥ maxRecords then
          return { result with stoppedByRecordLimit := !rest.isEmpty }
        else readLoop json maxLineBytes maxRecords rest result [] recordNext recordNext completeRecords

def readNdjsonFromOffset (json : Json Doc) (file : Option Bytes) (offset maxLineBytes maxRecords : Nat) :
    Except String (NdjsonReadResult Doc) :=
  if maxLineBytes = 0 then throw "MetaTrader file transport max_line_bytes must be positive."
  else match file with
    | none => return { sourceTruncated := decide (offset ≠ 0) }
    | some data =>
        let sourceTruncated := decide (offset > data.length)
        let startOffset := if offset > data.length then 0 else offset
        let result : NdjsonReadResult Doc := { startOffset, nextOffset := startOffset, sourceTruncated }
        if data.length = startOffset then return result
        else readLoop json maxLineBytes maxRecords (data.drop startOffset) result [] startOffset startOffset 0

/-! ## Reading by sequence -/

/-- The loop over one batch: what passed so far, and whether enough did. -/
def pushNew (lastFileSeq : UInt64) (maxRecords : Nat) :
    List (NdjsonRecord Doc) → List (NdjsonRecord Doc) → List (NdjsonRecord Doc) × Bool
  | filtered, [] => (filtered, false)
  | filtered, record :: records =>
      if record.fileSeq > lastFileSeq then
        let filtered := filtered ++ [record]
        if maxRecords ≠ 0 ∧ filtered.length ≥ maxRecords then (filtered, true)
        else pushNew lastFileSeq maxRecords filtered records
      else pushNew lastFileSeq maxRecords filtered records

/-- The loop over the batches, with a bound on their number. -/
def readSinceLoop (json : Json Doc) (file : Option Bytes) (lastFileSeq : UInt64) (maxLineBytes maxRecords : Nat) :
    Nat → List (NdjsonRecord Doc) → Nat → Option (Except String (List (NdjsonRecord Doc)))
  | 0, _, _ => none
  | fuel + 1, filtered, offset =>
      let scanLimit := if maxRecords = 0 then 0 else max maxRecords 1
      match readNdjsonFromOffset json file offset maxLineBytes scanLimit with
      | .error message => some (.error message)
      | .ok batch =>
          match pushNew lastFileSeq maxRecords filtered batch.records with
          | (filtered, true) => some (.ok filtered)
          | (filtered, false) =>
              if maxRecords = 0 ∨ batch.incompleteTail = true ∨ batch.nextOffset ≤ offset ∨
                  batch.records.length + batch.malformedRecords.length < scanLimit then
                some (.ok filtered)
              else readSinceLoop json file lastFileSeq maxLineBytes maxRecords fuel filtered batch.nextOffset

def readNdjsonSinceFileSeq (json : Json Doc) (fuel : Nat) (file : Option Bytes) (lastFileSeq : UInt64)
    (maxLineBytes maxRecords : Nat) : Option (Except String (List (NdjsonRecord Doc))) :=
  readSinceLoop json file lastFileSeq maxLineBytes maxRecords fuel [] 0

structure NdjsonSequenceReadResult (Doc : Type) where
  records : List (NdjsonRecord Doc) := []
  malformedRecords : List NdjsonMalformedRecord := []
  nextOffset : Nat := 0
  scannedRecords : Nat := 0
  sourceTruncated : Bool := false
  incompleteTail : Bool := false
  hasMore : Bool := false

/-- The loop over the entries; it ends at the first new record that is too many. -/
def windowLoop (lastFileSeq : UInt64) (maxReturnedRecords : Nat) :
    List (Entry Doc) → NdjsonSequenceReadResult Doc → NdjsonSequenceReadResult Doc
  | [], result => result
  | .inr malformed :: entries, result =>
      windowLoop lastFileSeq maxReturnedRecords entries
        { result with
          malformedRecords := result.malformedRecords ++ [malformed], nextOffset := malformed.nextOffset }
  | .inl record :: entries, result =>
      if record.fileSeq > lastFileSeq then
        if maxReturnedRecords ≠ 0 ∧ result.records.length ≥ maxReturnedRecords then { result with hasMore := true }
        else windowLoop lastFileSeq maxReturnedRecords entries
          { result with records := result.records ++ [record], nextOffset := record.nextOffset }
      else windowLoop lastFileSeq maxReturnedRecords entries { result with nextOffset := record.nextOffset }

def readNdjsonSequenceWindow (json : Json Doc) (file : Option Bytes) (startOffset : Nat) (lastFileSeq : UInt64)
    (maxLineBytes maxScannedRecords maxReturnedRecords : Nat) : Except String (NdjsonSequenceReadResult Doc) :=
  if maxScannedRecords = 0 then throw "MetaTrader file transport max_scanned_records must be positive."
  else match readNdjsonFromOffset json file startOffset maxLineBytes maxScannedRecords with
    | .error message => throw message
    | .ok batch =>
        let entries : List (Entry Doc) :=
          (batch.records.map Sum.inl ++ batch.malformedRecords.map Sum.inr).mergeSort
            fun lhs rhs => decide (Entry.startOffset lhs ≤ Entry.startOffset rhs)
        let result := windowLoop lastFileSeq maxReturnedRecords entries
          { scannedRecords := batch.scannedRecords, sourceTruncated := batch.sourceTruncated,
            incompleteTail := batch.incompleteTail, hasMore := batch.stoppedByRecordLimit, nextOffset := startOffset }
        let result := if result.nextOffset < batch.nextOffset then { result with hasMore := true } else result
        let result := if entries.isEmpty then { result with nextOffset := batch.nextOffset } else result
        if result.nextOffset = startOffset ∧ batch.sourceTruncated = true then
          return { result with nextOffset := batch.nextOffset }
        else return result

end OptionX.Bridges.MetaTraderFileProtocol
