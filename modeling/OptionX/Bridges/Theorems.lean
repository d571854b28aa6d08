import OptionX.Bridges.Lemmas.Canonicalization
import OptionX.Bridges.Lemmas.NdjsonAppend
import OptionX.Bridges.Lemmas.NdjsonPolling
import OptionX.Bridges.Lemmas.OperationSections

/-!
# Bridges

What the protocols between the trading system and its clients promise.
-/

namespace OptionX.Bridges

open Lib.Decimal (Plain)

/-! ## Canonical decimal text -/

/-- Two literals have the same canonical text exactly when they denote the same number; the text denotes it too, in
plain notation. Any other text is trimmed and otherwise unchanged, and a second time changes nothing. -/
theorem canonical_decimal_complete :
    (∀ s t q r, Denotes s q → Denotes t r → (canonicalDecimalText s = canonicalDecimalText t ↔ q = r)) ∧
    (∀ s q, Denotes s q → Denotes (canonicalDecimalText s) q ∧
      ∃ p : Plain, p.text = canonicalDecimalText s ∧ p.toRat = q) ∧
    (∀ s, (∀ q, ¬ Denotes s q) → canonicalDecimalText s = trimAsciiCopy s) ∧
    ∀ s, canonicalDecimalText (canonicalDecimalText s) = canonicalDecimalText s := by
  have hplain : ∀ s q, Denotes s q → ∃ p : Plain, p.text = canonicalDecimalText s ∧ p.toRat = q := by
    rintro s q ⟨l, hl, rfl⟩
    exact canonicalDecimalText_of_literal hl
  refine ⟨?_, ?_, ?_, canonicalDecimalText_idem⟩
  · intro s t q r hs ht
    obtain ⟨p, hp, rfl⟩ := hplain s q hs
    obtain ⟨p', hp', rfl⟩ := hplain t r ht
    constructor
    · intro heq
      obtain ⟨l, hl, hrat⟩ := denotes_plain p
      obtain ⟨l', hl', hrat'⟩ := denotes_plain p'
      -- One text is read in one way.
      have htext : l.text = l'.text := by rw [hl, hl', hp, hp', heq]
      have hscan := scanDecimal_eq_some.mpr ⟨l, rfl, rfl, rfl, rfl⟩
      rw [htext, scanDecimal_eq_some.mpr ⟨l', rfl, rfl, rfl, rfl⟩] at hscan
      simp only [Option.some.injEq, Prod.mk.injEq] at hscan
      rw [← hrat, ← hrat', DecimalLiteral.toRat, DecimalLiteral.toRat, hscan.1, hscan.2.1, ← neg_sub (l.fraction.length : Int),
        ← hscan.2.2, neg_sub]
    · intro heq
      rw [← hp, ← hp']
      exact Plain.text_inj_of_toRat heq
  · intro s q hs
    obtain ⟨p, hp, rfl⟩ := hplain s q hs
    exact ⟨hp ▸ denotes_plain p, p, hp, rfl⟩
  · intro s hs
    exact canonicalDecimalText_of_not_literal fun l hl => hs _ ⟨l, hl, rfl⟩

theorem canonical_decimal_complete_half :
    canonicalDecimalText [' ', '0', '.', '5', '0'] = canonicalDecimalText ['+', '5', 'e', '-', '1'] := by
  have hfive : '5'.toNat - 48 = 5 := rfl
  have hone : '1'.toNat - 48 = 1 := rfl
  refine (canonical_decimal_complete.1 _ _ (1 / 2) (1 / 2) ?_ ?_).mpr rfl
  · refine ⟨⟨.none, ['0'], true, ['5', '0'], none, by simp [Lib.Decimal.Digits, Char.isDigit], by simp, by simp⟩, rfl, ?_⟩
    norm_num [DecimalLiteral.toRat, Sign.negative, exponentValue, Lib.Decimal.value, Lib.Decimal.digitValue, hfive]
  · refine ⟨⟨.plus, ['5'], false, [], some ⟨'e', .minus, ['1'], .inl rfl, by simp [Lib.Decimal.Digits, Char.isDigit],
      by simp, by decide⟩, by simp [Lib.Decimal.Digits, Char.isDigit], by simp, by simp⟩, rfl, ?_⟩
    norm_num [DecimalLiteral.toRat, Sign.negative, exponentValue, Lib.Decimal.value, Lib.Decimal.digitValue, hfive,
      hone]

/-! ## The operation cache -/

namespace OperationCache

open Lib.Run (exec trace)

variable {R : Type}

theorem good_run (dumpSize : R → Nat) (limits : CacheLimits) (es : List (Event R)) :
    Good limits (exec (step dumpSize limits) {} es) :=
  Lib.Run.exec_induct (fun _ e h => h.step dumpSize e) (.empty limits) es

/-- After every critical section: the counter holds the bytes of the stored operations and no subtraction from it has
gone below zero, the order list names each stored key once, and the number and the bytes of the operations are within
the limits. An operation in flight is left as it is by every section but the one that settles it, and by any pruning. -/
theorem cache_exact_bounded (dumpSize : R → Nat) (limits : CacheLimits) (es : List (Event R)) :
    (∀ st ∈ trace (step dumpSize limits) {} es,
      st.after.operationCacheBytes.value = (st.after.operations.values.map (·.byteSize)).sum ∧
      st.after.operationCacheBytes.underflowed = false ∧
      st.after.operationOrder.Perm st.after.operations.keys ∧ st.after.operationOrder.Nodup ∧
      st.after.operations.keys.length ≤ limits.dedupeCacheSize ∧
      st.after.operationCacheBytes.value ≤ limits.maxOperationCacheBytes ∧
      ∀ k o, st.before.operations.find? k = some o → o.dispatching = true → ¬ st.event.Settles k →
        st.after.operations.find? k = some o) ∧
    ∀ (s : OperationCache R) now requiredBytes requiredRecords k o, s.operations.find? k = some o →
      o.dispatching = true →
      (s.pruneCompletedOperations limits now requiredBytes requiredRecords).operations.find? k = some o := by
  refine ⟨?_, fun s now requiredBytes requiredRecords k o hk hd => (prune_shrinks ..).keeps k o hk hd⟩
  intro st hst
  obtain ⟨pre, e, -, -, rfl⟩ := Lib.Run.mem_trace hst
  have h := (good_run dumpSize limits pre).step dumpSize e
  have hnodup := h.order.nodup_iff.mpr (Lib.OrderedMap.keys_nodup _)
  exact ⟨h.bytes, h.fits, h.order, hnodup, h.records, h.size, step_keepsFlight e⟩

end OperationCache

/-! ## Append logs -/

namespace MetaTraderFileProtocol

open Lib.Lines

variable {Doc : Type}

/-- Two documents, an object with a sequence number and one without. -/
def sampleJson : Json Bool where
  dump
    | true => [123, 34, 102, 105, 108, 101, 95, 115, 101, 113, 34, 58, 49, 125]
    | false => [123, 125]
  parse text :=
    if text = [123, 34, 102, 105, 108, 101, 95, 115, 101, 113, 34, 58, 49, 125] then .ok true
    else if text = [123, 125] then .ok false
    else .error "parse error"
  findFileSeq
    | true => some (.unsigned 1)
    | false => none

/-- The log of a record and the beginning of another one. -/
def tornLog : Bytes := sampleJson.dump true ++ [lineFeed, 123]

theorem tornLog_read :
    readNdjsonFromOffset sampleJson (some tornLog) 0 100 1 = .ok
      { records := [⟨true, 0, 15, 1⟩], nextOffset := 15, scannedRecords := 1, stoppedByRecordLimit := true } := rfl

/-- An append leaves the complete lines of the log, and behind them its own line. Whatever crashes cut off the appends,
the documents whose line feed was written are read back in their order, those with a valid sequence number as records
and the others as malformed ones, and what was read before is read again as it was. -/
theorem appends_survive_crashes (json : Json Doc) {maxLineBytes : Nat} (hmax : 0 < maxLineBytes) :
    (∀ (file : Option Bytes) document, (json.dump document).length ≤ maxLineBytes → ∃ part,
      LongestComplete lineFeed (file.getD []) part ∧
      appendJsonLine json file document maxLineBytes =
        (some (part ++ (json.dump document ++ [lineFeed])), .ok ())) ∧
    ∀ (file : Option Bytes) (earlier later : List (Doc × Crash)), LinesFit maxLineBytes (file.getD []) →
      (∀ attempt ∈ earlier ++ later, Storable json maxLineBytes attempt.1) →
      ∃ before after, readNdjsonFromOffset json (runAppends json maxLineBytes file earlier) 0 maxLineBytes 0 =
          .ok before ∧
        readNdjsonFromOffset json (runAppends json maxLineBytes file (earlier ++ later)) 0 maxLineBytes 0 =
          .ok after ∧
        ∃ records malformed, after.records = before.records ++ records ∧
          after.malformedRecords = before.malformedRecords ++ malformed ∧
          records.map (·.document) = (written json later).filter (hasFileSeq json) ∧
          malformed.length = ((written json later).filter fun document => !hasFileSeq json document).length := by
  refine ⟨fun file document hfit => ⟨_, longestComplete lineFeed _, appendJsonLine_eq hfit file⟩, ?_⟩
  intro file earlier later hfit hstorable
  obtain ⟨-, hfit'⟩ := runAppends_lines (fun a ha => hstorable a (List.mem_append_left _ ha)) hfit
  have hlater : ∀ attempt ∈ later, Storable json maxLineBytes attempt.1 := fun a ha =>
    hstorable a (List.mem_append_right _ ha)
  obtain ⟨hlines, hfit''⟩ := runAppends_lines hlater hfit'
  rw [← runAppends_append] at hlines hfit''
  obtain ⟨before, hbefore, hrecords, hmalformed⟩ := readNdjsonFromOffset_all json _ hmax hfit'
  obtain ⟨after, hafter, hrecords', hmalformed'⟩ := readNdjsonFromOffset_all json _ hmax hfit''
  rw [hlines, entriesOf_append] at hrecords' hmalformed'
  have hstored : ∀ document ∈ written json later, json.Stores document := by
    intro document hdocument
    obtain ⟨attempt, hattempt, rfl⟩ := List.mem_map.mp hdocument
    exact (hlater attempt (List.mem_of_mem_filter hattempt)).1
  obtain ⟨hdocuments, hothers⟩ := entriesOf_dump hstored
    (0 + (joined lineFeed (complete lineFeed ((runAppends json maxLineBytes file earlier).getD []))).length)
  refine ⟨before, after, hbefore, hafter, _, _, ?_, ?_, hdocuments, hothers⟩
  · rw [hrecords', recordsOf_append, hrecords]
  · rw [hmalformed', malformedOf_append, hmalformed]

theorem sampleJson_storable (document : Bool) : Storable sampleJson 100 document := by
  cases document with
  | true => exact ⟨⟨by decide, by decide, by decide, rfl⟩, by decide⟩
  | false => exact ⟨⟨by decide, by decide, by decide, rfl⟩, by decide⟩

theorem appends_survive_crashes_torn :
    0 < 100 ∧ ∃ after, readNdjsonFromOffset sampleJson
        (runAppends sampleJson 100 none [(true, .afterBytes 3), (true, .none)]) 0 100 0 = .ok after ∧
      after.records.map (·.document) = [true] := by
  obtain ⟨before, after, hbefore, hafter, records, malformed, hrecords, -, hdocuments, -⟩ :=
    (appends_survive_crashes sampleJson (by decide : 0 < 100)).2 none [] [(true, .afterBytes 3), (true, .none)]
      (by constructor <;> decide) (fun attempt _ => sampleJson_storable attempt.1)
  refine ⟨by decide, after, hafter, ?_⟩
  obtain rfl := Except.ok.inj hbefore
  rw [hrecords]
  exact hdocuments

/-- A document without a sequence number is not read back as a record. -/
theorem document_without_file_seq : ¬ ∀ (json : Json Bool) (maxLineBytes : Nat) (attempts : List (Bool × Crash)),
    0 < maxLineBytes → (∀ attempt ∈ attempts, Storable json maxLineBytes attempt.1) →
    ∀ result, readNdjsonFromOffset json (runAppends json maxLineBytes none attempts) 0 maxLineBytes 0 = .ok result →
      result.records.map (·.document) = written json attempts := by
  intro h
  have hread := h sampleJson 100 [(false, .none)] (by decide) (fun attempt _ => sampleJson_storable attempt.1) _ rfl
  revert hread
  decide

end MetaTraderFileProtocol

end OptionX.Bridges
