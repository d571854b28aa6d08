import OptionX.Bridges.Lemmas.NdjsonRead

/-!
# Lemmas on appending to logs

The repair cuts a log behind its last line feed, so that what is appended begins a line, and what was complete before
stays as it is.
-/

namespace OptionX.Bridges.MetaTraderFileProtocol

open Lib.Lines

variable {Doc : Type} {json : Json Doc} {maxLineBytes : Nat} {data : Bytes}

/-! ## Repair -/

/-- `size` bytes reach to the last line feed before `scanEnd`, or are none where there is no line feed. -/
structure CutAt (data : Bytes) (scanEnd size : Nat) : Prop where
  le : size ≤ scanEnd
  ends : size = 0 ∨ data[size - 1]? = some lineFeed
  last : ∀ i, size ≤ i → i < scanEnd → data[i]? ≠ some lineFeed

theorem scanChunk_none {buffer : Bytes} {scanEnd n : Nat} (h : scanChunk buffer scanEnd n = none) :
    ∀ i, i < n → buffer[i]? ≠ some lineFeed := by
  induction n with
  | zero => intro i hi; omega
  | succ n ih =>
      rw [scanChunk] at h
      split at h
      · cases h
      · next hlast =>
        intro i hi
        obtain hi | rfl := Nat.lt_succ_iff_lt_or_eq.mp hi
        · exact ih h i hi
        · exact hlast

theorem scanChunk_some {buffer : Bytes} {scanEnd n size : Nat} (h : scanChunk buffer scanEnd n = some size) :
    ∃ i, i < n ∧ size = scanEnd + (i + 1) ∧ buffer[i]? = some lineFeed ∧
      ∀ j, i < j → j < n → buffer[j]? ≠ some lineFeed := by
  induction n with
  | zero => cases h
  | succ n ih =>
      rw [scanChunk] at h
      split at h
      · next hlast => exact ⟨n, by omega, (Option.some.inj h).symm, hlast, fun j hij hj => by omega⟩
      · next hlast =>
        obtain ⟨i, hi, hsize, hfound, hrest⟩ := ih h
        refine ⟨i, by omega, hsize, hfound, fun j hij hj => ?_⟩
        obtain hj | rfl := Nat.lt_succ_iff_lt_or_eq.mp hj
        · exact hrest j hij hj
        · exact hlast

/-- The bytes of a chunk are those of the log. -/
theorem getElem?_chunk {start chunk i : Nat} (hi : i < chunk) :
    ((data.drop start).take chunk)[i]? = data[start + i]? := by
  rw [List.getElem?_take_of_lt hi, List.getElem?_drop]

theorem scanTail_cutAt (data : Bytes) (scanEnd : Nat) : CutAt data scanEnd (scanTail data scanEnd) := by
  induction scanEnd using Nat.strong_induction_on with
  | _ scanEnd ih =>
      rw [scanTail]
      split
      · next hzero => exact ⟨by omega, .inl rfl, fun i _ hi => by omega⟩
      · next hpos =>
        have hchunk : 0 < min 4096 scanEnd ∧ min 4096 scanEnd ≤ scanEnd := by omega
        generalize min 4096 scanEnd = chunk at hchunk
        dsimp only
        split
        · next size hfound =>
          obtain ⟨i, hi, rfl, hlast, hrest⟩ := scanChunk_some hfound
          rw [getElem?_chunk hi] at hlast
          refine ⟨by omega, .inr hlast, fun j hij hj => ?_⟩
          have hj' := hrest (j - (scanEnd - chunk)) (by omega) (by omega)
          rw [getElem?_chunk (by omega)] at hj'
          rwa [Nat.add_sub_cancel' (by omega)] at hj'
        · next hnone =>
          obtain ⟨hle, hends, hlast⟩ := ih (scanEnd - chunk) (by omega)
          refine ⟨by omega, hends, fun j hij hj => ?_⟩
          by_cases hfront : j < scanEnd - chunk
          · exact hlast j hij hfront
          · have hj' := scanChunk_none hnone (j - (scanEnd - chunk)) (by omega)
            rw [getElem?_chunk (by omega)] at hj'
            rwa [Nat.add_sub_cancel' (by omega)] at hj'

/-- The complete lines of a log. -/
def kept (data : Bytes) : Bytes := joined lineFeed (complete lineFeed data)

theorem take_eq_kept {size : Nat} (h : CutAt data data.length size) : data.take size = kept data := by
  have hlength : (data.take size).length = size := by rw [List.length_take, Nat.min_eq_left h.le]
  refine LongestComplete.unique ⟨List.take_prefix _ _, ?_, fun other hother hends => ?_⟩ (longestComplete lineFeed data)
  · by_cases hzero : size = 0
    · exact .inl (by rw [hzero, List.take_zero])
    · right
      rw [List.getLast?_eq_getElem?, hlength, List.getElem?_take_of_lt (by omega)]
      exact h.ends.resolve_left hzero
  · -- a longer part would end with a line feed behind the last one
    by_contra hlonger
    rw [hlength, Nat.not_le] at hlonger
    obtain rfl | hends := hends
    · cases hlonger
    have hle := hother.length_le
    obtain ⟨rest, rfl⟩ := hother
    have hpos : 0 < other.length := by omega
    have hinside : (other ++ rest)[other.length - 1]? = other[other.length - 1]? :=
      List.getElem?_append_left (by omega)
    rw [List.getLast?_eq_getElem?, ← hinside] at hends
    exact h.last (other.length - 1) (by omega) (by omega) hends

theorem repairIncompleteNdjsonTail_eq (file : Option Bytes) :
    (repairIncompleteNdjsonTail file).1 = file.map kept := by
  cases file with
  | none => rfl
  | some data =>
      rw [repairIncompleteNdjsonTail]
      split
      · next hempty =>
        obtain rfl := List.length_eq_zero_iff.mp hempty
        rfl
      · split
        · next hempty hlast =>
          have hcut : CutAt data data.length data.length := ⟨le_rfl, .inr hlast, fun i hi hi' => by omega⟩
          have hkept := take_eq_kept hcut
          rw [List.take_length] at hkept
          rw [Option.map_some, ← hkept]
        · rw [Option.map_some, ← take_eq_kept (scanTail_cutAt data data.length)]

theorem getD_repair (file : Option Bytes) :
    ((repairIncompleteNdjsonTail file).1).getD [] = kept (file.getD []) := by
  rw [repairIncompleteNdjsonTail_eq]
  cases file with
  | none => rfl
  | some data => rfl

/-! ## One append -/

theorem appendJsonLine_eq {document : Doc} (hfit : (json.dump document).length ≤ maxLineBytes) (file : Option Bytes) :
    appendJsonLine json file document maxLineBytes =
      (some (kept (file.getD []) ++ (json.dump document ++ [lineFeed])), .ok ()) := by
  rw [appendJsonLine, appendSerializedJsonLine, if_neg (by omega), getD_repair]
  rfl

/-- What the log relies on when it stores a document: its text is one line that the library reads back. -/
structure Json.Stores (json : Json Doc) (document : Doc) : Prop where
  noLineFeed : lineFeed ∉ json.dump document
  noCarriageReturn : carriageReturn ∉ json.dump document
  notEmpty : json.dump document ≠ []
  parse : json.parse (json.dump document) = .ok document

theorem dropCarriageReturn_of_not_mem {line : Bytes} (h : carriageReturn ∉ line) : dropCarriageReturn line = line := by
  rw [dropCarriageReturn, if_neg fun hlast => h (List.mem_of_getLast? hlast)]

variable (data) in
theorem complete_kept_append {line : Bytes} (h : lineFeed ∉ line) :
    complete lineFeed (kept data ++ (line ++ [lineFeed])) = complete lineFeed data ++ [line] ∧
      partialTail lineFeed (kept data ++ (line ++ [lineFeed])) = [] := by
  have htext : kept data ++ (line ++ [lineFeed]) = joined lineFeed (complete lineFeed data ++ [line]) ++ [] := by
    rw [kept, joined_append, List.append_nil]
    rfl
  have hlines : ∀ l ∈ complete lineFeed data ++ [line], lineFeed ∉ l := by
    intro l hl
    obtain hl | hl := List.mem_append.mp hl
    · exact (sep_not_mem lineFeed data).1 l hl
    · rwa [List.mem_singleton.mp hl]
  rw [htext]
  exact ⟨complete_joined hlines List.not_mem_nil, partialTail_joined hlines List.not_mem_nil⟩

variable (data) in
theorem complete_kept_append_tail {tail : Bytes} (h : lineFeed ∉ tail) :
    complete lineFeed (kept data ++ tail) = complete lineFeed data ∧
      partialTail lineFeed (kept data ++ tail) = tail :=
  ⟨complete_joined (sep_not_mem lineFeed data).1 h, partialTail_joined (sep_not_mem lineFeed data).1 h⟩

/-! ## Runs -/

/-- Whether the append came as far as the line feed. -/
def Crash.writes (line : Bytes) : Crash → Bool
  | .none => true
  | .beforeRepair => false
  | .afterBytes count => decide (line.length < count)

/-- Appends one after another, each cut off where its crash is. -/
def runAppends (json : Json Doc) (maxLineBytes : Nat) (file : Option Bytes) (attempts : List (Doc × Crash)) :
    Option Bytes :=
  attempts.foldl (fun file attempt => crashedAppend json maxLineBytes file attempt.1 attempt.2) file

/-- The documents whose line feed was written. -/
def written (json : Json Doc) (attempts : List (Doc × Crash)) : List Doc :=
  (attempts.filter fun attempt => attempt.2.writes (json.dump attempt.1)).map Prod.fst

/-- Documents that the log can store. -/
def Storable (json : Json Doc) (maxLineBytes : Nat) (document : Doc) : Prop :=
  json.Stores document ∧ (json.dump document).length ≤ maxLineBytes

/-- An append adds its line where the line feed was written, and changes no complete line. -/
theorem crashedAppend_lines {file : Option Bytes} {document : Doc} (h : Storable json maxLineBytes document)
    (hfit : LinesFit maxLineBytes (file.getD [])) (crash : Crash) :
    complete lineFeed ((crashedAppend json maxLineBytes file document crash).getD []) =
      complete lineFeed (file.getD []) ++ (if crash.writes (json.dump document) then [json.dump document] else []) ∧
    LinesFit maxLineBytes ((crashedAppend json maxLineBytes file document crash).getD []) := by
  have hwhole : ∀ data : Bytes, LinesFit maxLineBytes data →
      complete lineFeed (kept data ++ (json.dump document ++ [lineFeed])) =
        complete lineFeed data ++ [json.dump document] ∧
      LinesFit maxLineBytes (kept data ++ (json.dump document ++ [lineFeed])) := by
    intro data hdata
    obtain ⟨hlines, htail⟩ := complete_kept_append data h.1.noLineFeed
    refine ⟨hlines, fun line hline => ?_, by rw [htail]; exact Nat.zero_le _⟩
    rw [hlines] at hline
    obtain hline | hline := List.mem_append.mp hline
    · exact hdata.1 line hline
    · rw [List.mem_singleton.mp hline]
      exact h.2
  cases crash with
  | none =>
      rw [crashedAppend, appendJsonLine_eq h.2]
      exact hwhole _ hfit
  | beforeRepair => exact ⟨(List.append_nil _).symm, hfit⟩
  | afterBytes count =>
      rw [crashedAppend]
      simp only [getD_repair, if_neg (Nat.not_lt.mpr h.2), Option.getD_some]
      by_cases hcount : (json.dump document).length < count
      · rw [List.take_of_length_le (by simp; omega), Crash.writes, decide_eq_true hcount]
        exact hwhole _ hfit
      · have htake : (json.dump document ++ [lineFeed]).take count = (json.dump document).take count :=
          List.take_append_of_le_length (by omega)
        obtain ⟨hlines, htail⟩ := complete_kept_append_tail (file.getD [])
          fun hmem => h.1.noLineFeed (List.mem_of_mem_take (i := count) hmem)
        rw [htake, Crash.writes, decide_eq_false hcount]
        refine ⟨by simpa using hlines, fun line hline => hfit.1 line (hlines ▸ hline), ?_⟩
        rw [htail, List.length_take]
        have := h.2
        omega

theorem runAppends_lines {file : Option Bytes} {attempts : List (Doc × Crash)}
    (h : ∀ attempt ∈ attempts, Storable json maxLineBytes attempt.1) (hfit : LinesFit maxLineBytes (file.getD [])) :
    complete lineFeed ((runAppends json maxLineBytes file attempts).getD []) =
      complete lineFeed (file.getD []) ++ (written json attempts).map json.dump ∧
    LinesFit maxLineBytes ((runAppends json maxLineBytes file attempts).getD []) := by
  induction attempts generalizing file with
  | nil => exact ⟨(List.append_nil _).symm, hfit⟩
  | cons attempt attempts ih =>
      obtain ⟨hlines, hfit'⟩ := crashedAppend_lines (h attempt List.mem_cons_self) hfit attempt.2
      obtain ⟨hrest, hfit''⟩ := ih (fun a ha => h a (List.mem_cons_of_mem _ ha)) hfit'
      refine ⟨?_, hfit''⟩
      rw [runAppends, List.foldl_cons, ← runAppends, hrest, hlines, List.append_assoc, written, written,
        List.filter_cons]
      split <;> rfl

theorem runAppends_append (file : Option Bytes) (attempts attempts' : List (Doc × Crash)) :
    runAppends json maxLineBytes file (attempts ++ attempts') =
      runAppends json maxLineBytes (runAppends json maxLineBytes file attempts) attempts' := List.foldl_append

/-! ## Reading back -/

variable (json) in
theorem readNdjsonFromOffset_all (file : Option Bytes) (hmax : 0 < maxLineBytes)
    (hfit : LinesFit maxLineBytes (file.getD [])) :
    ∃ result, readNdjsonFromOffset json file 0 maxLineBytes 0 = .ok result ∧
      result.records = recordsOf (entriesOf json 0 (complete lineFeed (file.getD []))) ∧
      result.malformedRecords = malformedOf (entriesOf json 0 (complete lineFeed (file.getD []))) := by
  cases file with
  | none =>
      rw [readNdjsonFromOffset, if_neg (by omega)]
      exact ⟨_, rfl, rfl, rfl⟩
  | some data =>
      obtain ⟨result, used, left, hlines, hresult, hpassed⟩ :=
        @readNdjsonFromOffset_passed Doc json maxLineBytes 0 data 0 hmax (boundary_zero data) hfit
      have hleft : left = [] := hpassed.finished (Bool.eq_false_of_not_eq_true fun hstopped =>
        (hpassed.stopped.mp hstopped).1 rfl)
      rw [List.drop_zero, hleft, List.append_nil] at hlines
      refine ⟨result, hresult, ?_, ?_⟩
      · rw [Option.getD_some, hlines]
        exact hpassed.records
      · rw [Option.getD_some, hlines]
        exact hpassed.malformed

/-- Whether the reader accepts the sequence number of a document. -/
def hasFileSeq (json : Json Doc) (document : Doc) : Bool := (parseRequiredFileSeq json document).toBool

/-- The lines of stored documents are read as these documents, and where one has no valid sequence number, as a
malformed record. -/
theorem entriesOf_dump {documents : List Doc} (h : ∀ document ∈ documents, json.Stores document) (offset : Nat) :
    (recordsOf (entriesOf json offset (documents.map json.dump))).map (·.document) =
        documents.filter (hasFileSeq json) ∧
      (malformedOf (entriesOf json offset (documents.map json.dump))).length =
        (documents.filter fun document => !hasFileSeq json document).length := by
  induction documents generalizing offset with
  | nil => exact ⟨rfl, rfl⟩
  | cons document documents ih =>
      have hdocument := h document List.mem_cons_self
      obtain ⟨hrecords, hmalformed⟩ := ih (fun d hd => h d (List.mem_cons_of_mem _ hd))
        (offset + ((json.dump document).length + 1))
      rw [List.map_cons, entriesOf, dropCarriageReturn_of_not_mem hdocument.noCarriageReturn,
        if_neg hdocument.notEmpty, readLine, hdocument.parse]
      cases hseq : parseRequiredFileSeq json document with
      | error message => simp [hasFileSeq, hseq, Except.toBool, hrecords, hmalformed]
      | ok fileSeq => simp [hasFileSeq, hseq, Except.toBool, hrecords, hmalformed]

end OptionX.Bridges.MetaTraderFileProtocol
