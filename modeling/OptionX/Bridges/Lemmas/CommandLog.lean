import OptionX.Bridges.Lemmas.CommandLines
import OptionX.Bridges.MetaTraderFileCommandWriter

/-!
# The command log

The reader passes a command only after it has handled it: what it has of the log, what it takes a place of the log for, and
what it has written down stay behind the commands that were handled. A writer numbers its command beyond all that was
appended before, also when the log was cleared or another writer ended in the middle of a line, and clears a log only when the
reader is done with it.
-/

namespace OptionX.Bridges.MetaTraderFile

open Lib.Lines
open MetaTraderFileProtocol (Bytes NdjsonRecord NdjsonSequenceReadResult lineFeed)
open TradingView (Json text)

section Reader

variable {F : Type} {config : MetaTraderFileBridgeConfig} {library : Library F} {appended : List UInt64}
  {handled : UInt64 → Prop} {lines lines' : List Bytes} {seqs : List UInt64} {s s' : Bridge F} {poll poll' : Poll F}
  {runtime runtime' : Runtime F} {checkpoint : UInt64}

/-- The number is not beyond the commands that were appended, and those up to it were handled. -/
structure Covered (appended : List UInt64) (handled : UInt64 → Prop) (fileSeq : UInt64) : Prop where
  reached : fileSeq = 0 ∨ ∃ n ∈ appended, fileSeq ≤ n
  handled : ∀ n ∈ appended, n ≤ fileSeq → handled n

theorem covered_zero (h : ∀ n ∈ appended, n ≠ 0) : Covered appended handled 0 :=
  ⟨.inl rfl, fun n hmem hle => absurd (UInt64.le_antisymm hle UInt64.zero_le) (h n hmem)⟩

theorem Covered.of_le {fileSeq fileSeq' : UInt64} (h : Covered appended handled fileSeq') (hle : fileSeq ≤ fileSeq') :
    Covered appended handled fileSeq := by
  refine ⟨?_, fun n hmem hn => h.handled n hmem (hn.trans hle)⟩
  rcases h.reached with rfl | ⟨n, hmem, hn⟩
  · exact .inl (UInt64.le_antisymm hle UInt64.zero_le)
  · exact .inr ⟨n, hmem, hle.trans hn⟩

theorem Covered.max {fileSeq fileSeq' : UInt64} (h : Covered appended handled fileSeq)
    (h' : Covered appended handled fileSeq') : Covered appended handled (max fileSeq fileSeq') := by
  rcases le_total fileSeq fileSeq' with hle | hle
  · rwa [max_eq_right hle]
  · rwa [max_eq_left hle]

theorem Covered.mono {handled' : UInt64 → Prop} {fileSeq : UInt64} (h : Covered appended handled fileSeq)
    (hhandled : ∀ n, handled n → handled' n) : Covered appended handled' fileSeq :=
  ⟨h.reached, fun n hmem hle => hhandled n (h.handled n hmem hle)⟩

/-- A new command is beyond all that is covered. -/
theorem Covered.lt {fileSeq new : UInt64} (h : Covered appended handled fileSeq) (hnew : ∀ n ∈ appended, n < new)
    (hpositive : new ≠ 0) : fileSeq < new := by
  rcases h.reached with rfl | ⟨n, hmem, hle⟩
  · exact UInt64.pos_iff_ne_zero.mpr hpositive
  · exact lt_of_le_of_lt hle (hnew n hmem)

theorem Covered.append {fileSeq new : UInt64} (h : Covered appended handled fileSeq) (hnew : ∀ n ∈ appended, n < new)
    (hpositive : new ≠ 0) : Covered (appended ++ [new]) handled fileSeq := by
  have hlt := h.lt hnew hpositive
  refine ⟨h.reached.imp_right fun ⟨n, hmem, hle⟩ => ⟨n, List.mem_append_left _ hmem, hle⟩, fun n hmem hle => ?_⟩
  rcases List.mem_append.mp hmem with hmem | hmem
  · exact h.handled n hmem hle
  · rw [List.mem_singleton.mp hmem] at hle
    exact absurd hlt (not_lt.mpr hle)

/-! ## Polls -/

/-- The commands of a poll are the next ones of the log, in their order, and each offset is behind its command. -/
structure Fresh (lines : List Bytes) (seqs : List UInt64) (runtime : Runtime F) (poll : Poll F) : Prop where
  sorted : poll.records.Pairwise (·.fileSeq < ·.fileSeq)
  new : ∀ record ∈ poll.records, record.fileSeq ∈ seqs ∧ runtime.lastCommandFileSeq < record.fileSeq ∧
    ValidAt lines seqs record.nextOffset record.fileSeq
  next : ∀ n ∈ seqs, runtime.lastCommandFileSeq < n →
    (∃ record ∈ poll.records, record.fileSeq = n) ∨ ∀ record ∈ poll.records, record.fileSeq < n
  offset : ValidAt lines seqs runtime.commandScanOffset runtime.lastCommandFileSeq
  nextOffset : ∀ bound, runtime.lastCommandFileSeq ≤ bound → (∀ record ∈ poll.records, record.fileSeq ≤ bound) →
    ValidAt lines seqs poll.nextOffset bound

/-- What a poll in progress has of the log: the log may have been cleared since it was read, and hold new commands only. -/
inductive PollOk (lines : List Bytes) (seqs : List UInt64) (runtime : Runtime F) (poll : Poll F) : Prop where
  | fresh (hfresh : Fresh lines seqs runtime poll)
  | stale (hrecords : poll.records = []) (hnew : ∀ n ∈ seqs, runtime.lastCommandFileSeq < n)
  | idle (hrecords : poll.records = []) (hoffset : poll.nextOffset ≤ runtime.commandScanOffset)

theorem PollOk.goOn (h : PollOk lines seqs runtime poll) (hlast : runtime'.lastCommandFileSeq = runtime.lastCommandFileSeq)
    (hoffset : runtime'.commandScanOffset = runtime.commandScanOffset) (hrecords : poll'.records = poll.records)
    (hnext : poll'.nextOffset = poll.nextOffset) : PollOk lines seqs runtime' poll' := by
  cases h with
  | fresh hfresh =>
      obtain ⟨hsorted, hnew, hnextSeq, hat, hnextAt⟩ := hfresh
      rw [← hrecords] at hsorted hnew hnextSeq hnextAt
      rw [← hlast] at hnew hnextSeq hat hnextAt
      rw [← hoffset] at hat
      rw [← hnext] at hnextAt
      exact .fresh ⟨hsorted, hnew, hnextSeq, hat, hnextAt⟩
  | stale hnone hnew =>
      rw [← hrecords] at hnone
      rw [← hlast] at hnew
      exact .stale hnone hnew
  | idle hnone hle =>
      rw [← hrecords] at hnone
      rw [← hnext, ← hoffset] at hle
      exact .idle hnone hle

/-- Only the next commands of the log are in hand. -/
theorem PollOk.fresh_of_cons {record : NdjsonRecord (Json F)} {rest : List (NdjsonRecord (Json F))}
    (h : PollOk lines seqs runtime poll) (hrecords : poll.records = record :: rest) :
    Fresh lines seqs runtime poll := by
  cases h with
  | fresh hfresh => exact hfresh
  | stale hnone => simp [hnone] at hrecords
  | idle hnone => simp [hnone] at hrecords

/-- A window that was read makes such a poll. -/
theorem Found.pollOk {window : NdjsonSequenceReadResult (Json F)} (h : Found lines seqs runtime window)
    (hsorted : seqs.Pairwise (· < ·)) (hrecords : poll.records = window.records)
    (hnext : poll.nextOffset = window.nextOffset) : PollOk lines seqs runtime poll := by
  cases h with
  | blank hblank hle => exact .idle (hrecords.trans hblank) (hnext ▸ hle)
  | @between i n hin hn hoffset hold hwindow hseqs hplaces =>
      rw [← hrecords] at hseqs hplaces
      have hmem : ∀ fileSeq, (∃ record ∈ poll.records, record.fileSeq = fileSeq) ↔
          fileSeq ∈ (seqs.take n).drop i ∧ runtime.lastCommandFileSeq < fileSeq := fun fileSeq => by
        rw [← List.mem_map, hseqs, List.mem_filter, decide_eq_true_eq]
      have hsplit : seqs = (seqs.take n).take i ++ (seqs.take n).drop i ++ seqs.drop n := by
        rw [List.take_append_drop, List.take_append_drop]
      have hbelow : ∀ j fileSeq, seqs[j]? = some fileSeq → ∀ m ∈ seqs.take (j + 1), m ≤ fileSeq := by
        intro j fileSeq hj m hm
        obtain ⟨k, hk⟩ := List.mem_iff_getElem?.mp hm
        have hkj : k < j + 1 := by
          have := (List.getElem?_eq_some_iff.mp hk).1
          rw [List.length_take] at this
          omega
        rw [List.getElem?_take_of_lt hkj] at hk
        obtain ⟨hklt, rfl⟩ := List.getElem?_eq_some_iff.mp hk
        obtain ⟨hjlt, rfl⟩ := List.getElem?_eq_some_iff.mp hj
        rcases Nat.lt_or_eq_of_le (Nat.le_of_lt_succ hkj) with hlt | rfl
        · exact (List.pairwise_iff_getElem.mp hsorted k j hklt hjlt hlt).le
        · exact le_rfl
      refine .fresh ⟨?_, fun record hrecord => ?_, fun m hm hlast => ?_, ⟨i, hin.trans hn, hoffset, hold⟩,
        fun bound hlast hbound => ⟨n, hn, hnext.trans hwindow, fun m hm => ?_⟩⟩
      · have hpart : (((seqs.take n).drop i).filter fun fileSeq => decide (runtime.lastCommandFileSeq < fileSeq)).Pairwise
            (· < ·) := ((hsorted.sublist (List.take_sublist ..)).sublist (List.drop_sublist ..)).filter _
        rw [← hseqs] at hpart
        exact List.pairwise_map.mp hpart
      · obtain ⟨j, hjn, hj, hat⟩ := hplaces record hrecord
        obtain ⟨-, hlast⟩ := (hmem record.fileSeq).mp ⟨record, hrecord, rfl⟩
        refine ⟨List.mem_of_getElem? hj, hlast, j + 1, (Nat.succ_le_of_lt hjn).trans hn, hat, hbelow j _ hj⟩
      · rw [hsplit, List.mem_append, List.mem_append] at hm
        rcases hm with (hm | hm) | hm
        · rw [List.take_take, Nat.min_eq_left hin] at hm
          exact absurd (hold m hm) (not_le.mpr hlast)
        · exact .inl ((hmem m).mpr ⟨hm, hlast⟩)
        · refine .inr fun record hrecord => ?_
          obtain ⟨hfront, -⟩ := (hmem record.fileSeq).mp ⟨record, hrecord, rfl⟩
          have hpairwise := hsorted
          rw [← List.take_append_drop n seqs] at hpairwise
          exact (List.pairwise_append.mp hpairwise).2.2 _ (List.mem_of_mem_drop hfront) m hm
      · rw [← List.take_append_drop i (seqs.take n), List.mem_append, List.take_take, Nat.min_eq_left hin] at hm
        rcases hm with hm | hm
        · exact (hold m hm).trans hlast
        · rcases le_or_gt m runtime.lastCommandFileSeq with hle | hlt
          · exact hle.trans hlast
          · obtain ⟨record, hrecord, rfl⟩ := (hmem m).mpr ⟨hm, hlt⟩
            exact hbound record hrecord

/-- The first command in hand was handled: the others are the next ones after it. -/
theorem Fresh.advance {record : NdjsonRecord (Json F)} {rest : List (NdjsonRecord (Json F))}
    (h : Fresh lines seqs runtime poll) (hrecords : poll.records = record :: rest)
    (hlast : runtime'.lastCommandFileSeq = max runtime.lastCommandFileSeq record.fileSeq)
    (hoffset : runtime'.commandScanOffset = max runtime.commandScanOffset record.nextOffset)
    (hrecords' : poll'.records = rest) (hnext : poll'.nextOffset = poll.nextOffset) :
    Fresh lines seqs runtime' poll' := by
  obtain ⟨hsorted, hnew, hnextSeq, hat, hnextAt⟩ := h
  rw [hrecords] at hsorted hnew hnextSeq hnextAt
  obtain ⟨-, hfirst, hplace⟩ := hnew record List.mem_cons_self
  rw [max_eq_right hfirst.le] at hlast
  obtain ⟨hless, hrest⟩ := List.pairwise_cons.mp hsorted
  subst hrecords'
  refine ⟨hrest, fun r hr => ?_, fun n hn hlt => ?_, ?_, fun bound hle hbound => ?_⟩
  · obtain ⟨hmem, -, hvalid⟩ := hnew r (List.mem_cons_of_mem _ hr)
    rw [hlast]
    exact ⟨hmem, hless r hr, hvalid⟩
  · rw [hlast] at hlt
    rcases hnextSeq n hn (hfirst.trans hlt) with ⟨r, hr, rfl⟩ | habove
    · rcases List.mem_cons.mp hr with rfl | hr
      · exact absurd hlt (lt_irrefl _)
      · exact .inl ⟨r, hr, rfl⟩
    · exact .inr fun r hr => habove r (List.mem_cons_of_mem _ hr)
  · rw [hoffset, hlast]
    exact (hat.mono hfirst.le).max hplace
  · rw [hlast] at hle
    rw [hnext]
    refine hnextAt bound (hfirst.le.trans hle) fun r hr => ?_
    rcases List.mem_cons.mp hr with rfl | hr
    · exact hle
    · exact hbound r hr

/-! ## The reader -/

/-- The command with the number is done with, and the checkpoint is next. -/
def Bridge.Handles (s : Bridge F) (fileSeq : UInt64) : Prop :=
  ∃ poll record rest, s.poll = some poll ∧ poll.stage = .handled ∧ poll.records = record :: rest ∧
    record.fileSeq = fileSeq

/-- What the reader knows of a log is true of it, and what it has passed and written down was handled. -/
structure ReaderSafe (appended : List UInt64) (handled : UInt64 → Prop) (lines : List Bytes) (seqs : List UInt64)
    (checkpoint : UInt64) (s : Bridge F) : Prop where
  restartable : Restartable s
  behind : Behind checkpoint s
  checkpoint : Covered appended handled checkpoint
  file : ∀ file, readIdempotencyState "" s.disk.idempotencyState = .ok file →
    Covered appended handled file.processedThroughFileSeq
  last : ∀ runtime, s.runtime = some runtime → Covered appended handled runtime.lastCommandFileSeq ∧
    runtime.idempotency.processedThroughFileSeq ≤ runtime.lastCommandFileSeq
  cursor : ∀ runtime, s.runtime = some runtime → Cursor lines seqs runtime
  poll : ∀ poll, s.poll = some poll → ∃ runtime, s.runtime = some runtime ∧ PollOk lines seqs runtime poll

/-- The log of the bridge, and what was appended to it: what is gone from it is not after the checkpoint. -/
structure LogSafe (library : Library F) (maxLineBytes : Nat) (appended seqs : List UInt64) (checkpoint : UInt64)
    (data : Bytes) : Prop where
  holds : LogHolds library maxLineBytes data seqs
  visible : ∀ n ∈ seqs, n ∈ appended
  kept : ∀ n ∈ appended, n ∈ seqs ∨ n ≤ checkpoint
  sorted : appended.Pairwise (· < ·)
  positive : ∀ n ∈ appended, n ≠ 0

theorem SamePlace.cursor (h : SamePlace runtime runtime') (hcursor : Cursor lines seqs runtime) :
    Cursor lines seqs runtime' := by
  unfold Cursor
  rw [h.lastCommandFileSeq, h.commandScanOffset, h.commandFirstFileSeq]
  exact hcursor

theorem startRuntime_last {disk : Disk F} (h : startRuntime config library disk = .ok runtime)
    (hreadable : readLastFileSeqCheckpoint disk.commandsCheckpoint = .ok checkpoint) :
    runtime.lastCommandFileSeq = max checkpoint runtime.idempotency.processedThroughFileSeq ∧
      runtime.commandScanOffset = 0 := by
  unfold startRuntime at h
  obtain ⟨found, hfound, h⟩ := bind_eq_ok.mp h
  rw [hreadable] at hfound
  cases hfound
  split at h
  · cases h
  · obtain ⟨idempotency, -, h⟩ := bind_eq_ok.mp h
    cases h
    exact ⟨rfl, rfl⟩

/-- A restart takes up the reading behind commands that were handled. -/
theorem ReaderSafe.started (h : ReaderSafe appended handled lines seqs checkpoint s)
    (hstart : startRuntime config library s.disk = .ok runtime) :
    (Covered appended handled runtime.lastCommandFileSeq ∧
      runtime.idempotency.processedThroughFileSeq ≤ runtime.lastCommandFileSeq) ∧ Cursor lines seqs runtime := by
  obtain ⟨hlast, hoffset⟩ := startRuntime_last hstart h.behind.readable
  rw [hlast]
  refine ⟨⟨h.checkpoint.max (h.file _ (startRuntime_idempotency hstart)), le_max_right _ _⟩, cursor_of_validAt ?_⟩
  rw [hoffset]
  exact validAt_zero _ _ _

theorem LogSafe.mono {maxLineBytes : Nat} {checkpoint' : UInt64} {data : Bytes}
    (h : LogSafe library maxLineBytes appended seqs checkpoint data) (hle : checkpoint ≤ checkpoint') :
    LogSafe library maxLineBytes appended seqs checkpoint' data :=
  ⟨h.holds, h.visible, fun n hmem => (h.kept n hmem).imp_right (·.trans hle), h.sorted, h.positive⟩

/-- The checkpoint is as it was, or it is where the reader is now. -/
def CheckpointMoves (checkpoint : UInt64) (s s' : Bridge F) : Prop :=
  s'.disk.commandsCheckpoint = s.disk.commandsCheckpoint ∨ ∃ runtime', s'.runtime = some runtime' ∧
    checkpoint ≤ runtime'.lastCommandFileSeq ∧
      s'.disk.commandsCheckpoint = some (makeLogCheckpoint runtime'.lastCommandFileSeq)

/-- After an event of the bridge the files are behind the reader again. -/
theorem ReaderSafe.effect {read : UInt64 → Prop} {called accepted : Option TradingView.Text} {maxLineBytes : Nat}
    {data : Bytes} (h : ReaderSafe appended handled lines seqs checkpoint s)
    (hlog : LogSafe library maxLineBytes appended seqs checkpoint data)
    (heffect : Effect config library read s s' called accepted)
    (hlast : ∀ runtime', s'.runtime = some runtime' → Covered appended handled runtime'.lastCommandFileSeq ∧
      runtime'.idempotency.processedThroughFileSeq ≤ runtime'.lastCommandFileSeq)
    (hcursor : ∀ runtime', s'.runtime = some runtime' → Cursor lines seqs runtime')
    (hpoll : ∀ poll', s'.poll = some poll' → ∃ runtime', s'.runtime = some runtime' ∧ PollOk lines seqs runtime' poll')
    (hnone : s'.runtime = none → s'.disk = s.disk) (hcheckpoint : CheckpointMoves checkpoint s s') :
    ∃ checkpoint', ReaderSafe appended handled lines seqs checkpoint' s' ∧
      LogSafe library maxLineBytes appended seqs checkpoint' data := by
  have hrestartable := h.restartable.effect heffect
  obtain ⟨checkpoint', hbehind⟩ := h.behind.effect h.restartable heffect
  have hfile : ∀ file, readIdempotencyState "" s'.disk.idempotencyState = .ok file →
      Covered appended handled file.processedThroughFileSeq := by
    intro file hfile
    cases hruntime' : s'.runtime with
    | none =>
        rw [hnone hruntime'] at hfile
        exact h.file file hfile
    | some runtime' =>
        obtain ⟨hcovered, hprocessed⟩ := hlast runtime' hruntime'
        rw [(hrestartable runtime' hruntime' file hfile).processedThroughFileSeq]
        exact hcovered.of_le hprocessed
  have hmoved : Covered appended handled checkpoint' ∧ checkpoint ≤ checkpoint' := by
    have hreadable := hbehind.readable
    rcases hcheckpoint with hsame | ⟨runtime', hruntime', hle, hwritten⟩
    · rw [hsame, h.behind.readable] at hreadable
      cases hreadable
      exact ⟨h.checkpoint, le_rfl⟩
    · rw [hwritten] at hreadable
      cases hreadable
      exact ⟨(hlast runtime' hruntime').1, hle⟩
  exact ⟨checkpoint', ⟨hrestartable, hbehind, hmoved.1, hfile, hlast, hcursor, hpoll⟩, hlog.mono hmoved.2⟩

/-- The commands before the one that was handled were handled before. -/
theorem Fresh.covered {maxLineBytes : Nat} {data : Bytes} {record : NdjsonRecord (Json F)}
    {rest : List (NdjsonRecord (Json F))} (h : Fresh lines seqs runtime poll) (hrecords : poll.records = record :: rest)
    (hlog : LogSafe library maxLineBytes appended seqs checkpoint data)
    (hlast : Covered appended handled runtime.lastCommandFileSeq) (hcheckpoint : Covered appended handled checkpoint)
    (hhandled : handled record.fileSeq) : Covered appended handled record.fileSeq := by
  obtain ⟨hmem, -, -⟩ := h.new record (by rw [hrecords]; exact List.mem_cons_self)
  refine ⟨.inr ⟨_, hlog.visible _ hmem, le_rfl⟩, fun n hn hle => ?_⟩
  rcases hlog.kept n hn with hseq | hbefore
  · rcases le_or_gt n runtime.lastCommandFileSeq with hold | hnew
    · exact hlast.handled n hn hold
    · rcases h.next n hseq hnew with ⟨r, hr, rfl⟩ | habove
      · rw [hrecords] at hr
        rcases List.mem_cons.mp hr with rfl | hr
        · exact hhandled
        · have hsorted := h.sorted
          rw [hrecords] at hsorted
          exact absurd ((List.pairwise_cons.mp hsorted).1 r hr) (not_lt.mpr hle)
      · exact absurd (habove record (by rw [hrecords]; exact List.mem_cons_self)) (not_lt.mpr hle)
  · exact hcheckpoint.handled n hn hbefore

/-- Nothing that the bridge does makes its reader pass a command that it has not handled. -/
theorem ReaderSafe.move {read : UInt64 → Prop} {called accepted : Option TradingView.Text}
    (h : ReaderSafe appended handled (complete lineFeed (s.disk.commandsLog.getD [])) seqs checkpoint s)
    (hlog : LogSafe library config.maxLineBytes appended seqs checkpoint (s.disk.commandsLog.getD []))
    (hhandled : ∀ n, s.Handles n → handled n) (hmax : 0 < config.maxLineBytes)
    (hscan : 0 < config.maxScannedRecordsPerPoll) (heffect : Effect config library read s s' called accepted)
    (hmove : Move config library s s') :
    ∃ checkpoint', ReaderSafe appended handled (complete lineFeed (s.disk.commandsLog.getD [])) seqs checkpoint' s' ∧
      LogSafe library config.maxLineBytes appended seqs checkpoint' (s.disk.commandsLog.getD []) := by
  cases hmove with
  | ended hruntime hpoll hdisk =>
      have hnone : ∀ runtime', s'.runtime ≠ some runtime' := by simp [hruntime]
      exact h.effect hlog heffect (fun r hr => absurd hr (hnone r)) (fun r hr => absurd hr (hnone r)) (by simp [hpoll])
        (fun _ => hdisk) (.inl (by rw [hdisk]))
  | kept hruntime hnone hpoll hlogs =>
      refine h.effect hlog heffect (fun runtime' h' => ?_) (fun runtime' h' => ?_) (fun poll' hpoll' => ?_)
        (fun h' => (hnone h').2) (.inl hlogs.commandsCheckpoint)
      · obtain ⟨runtime, hbefore, hplace⟩ := hruntime runtime' h'
        rw [hplace.lastCommandFileSeq, hplace.processed]
        exact h.last runtime hbefore
      · obtain ⟨runtime, hbefore, hplace⟩ := hruntime runtime' h'
        exact hplace.cursor (h.cursor runtime hbefore)
      · rcases hpoll with hended | ⟨before, after, hbefore, hafter, hrecords, hnext⟩
        · rw [hended] at hpoll'
          cases hpoll'
        · rw [hafter] at hpoll'
          cases hpoll'
          obtain ⟨runtime, hsome, hok⟩ := h.poll before hbefore
          cases h' : s'.runtime with
          | none =>
              rw [(hnone h').1] at hsome
              cases hsome
          | some runtime' =>
              obtain ⟨_, hsome', hplace⟩ := hruntime runtime' h'
              rw [hsome] at hsome'
              cases hsome'
              exact ⟨runtime', rfl, hok.goOn hplace.lastCommandFileSeq hplace.commandScanOffset hrecords hnext⟩
  | @started runtime hnone hstart hruntime hpoll hlogs =>
      obtain ⟨hlast, hcursor⟩ := h.started hstart
      refine h.effect hlog heffect (fun runtime' h' => ?_) (fun runtime' h' => ?_) (fun poll' hpoll' => ?_)
        (fun h' => ?_) (.inl hlogs.commandsCheckpoint)
      · rw [hruntime] at h'
        cases h'
        exact hlast
      · rw [hruntime] at h'
        cases h'
        exact hcursor
      · rw [hpoll] at hpoll'
        obtain ⟨runtime', hsome, -⟩ := h.poll poll' hpoll'
        rw [hnone] at hsome
        cases hsome
      · rw [hruntime] at h'
        cases h'
  | @read runtime runtime' result hnone hruntime hread hruntime' hpoll hlogs =>
      have hbefore : (Covered appended handled runtime.lastCommandFileSeq ∧
          runtime.idempotency.processedThroughFileSeq ≤ runtime.lastCommandFileSeq) ∧
          Cursor (complete lineFeed (s.disk.commandsLog.getD [])) seqs runtime := by
        rcases hruntime with hsome | ⟨-, hstart⟩
        · exact ⟨h.last runtime hsome, h.cursor runtime hsome⟩
        · exact h.started hstart
      obtain ⟨hlast, hcursor⟩ := hbefore
      have hok := readCommandsWindow_readOk hlog.holds hmax hscan hcursor
      have hsame : (readCommandsWindow config library s.disk runtime).1.idempotency = runtime.idempotency :=
        readCommandsWindow_idempotency
      rw [hread] at hok hsame
      refine h.effect hlog heffect (fun last h' => ?_) (fun last h' => ?_) (fun poll' hpoll' => ?_)
        (fun h' => ?_) (.inl hlogs.commandsCheckpoint)
      · rw [hruntime'] at h'
        cases h'
        rw [hok.last, hsame]
        exact hlast
      · rw [hruntime'] at h'
        cases h'
        exact hok.cursor
      · rcases hpoll with hended | ⟨window, poll, hwindow, hsome, hrecords, hnext⟩
        · rw [hended] at hpoll'
          cases hpoll'
        · rw [hsome] at hpoll'
          cases hpoll'
          exact ⟨runtime', hruntime', (hok.found window hwindow).pollOk hlog.holds.sorted hrecords hnext⟩
      · rw [hruntime'] at h'
        cases h'
  | @advanced runtime runtime' poll record rest hruntime hpoll hstage hrecords hruntime' hlast hprocessed hfirst hgoesOn
      hlog' hcheckpoint =>
      obtain ⟨hcovered, hle⟩ := h.last runtime hruntime
      obtain ⟨_, hsome, hok⟩ := h.poll poll hpoll
      rw [hruntime] at hsome
      cases hsome
      have hfresh := hok.fresh_of_cons hrecords
      obtain ⟨-, hnew, -⟩ := hfresh.new record (by rw [hrecords]; exact List.mem_cons_self)
      have hlast' : runtime'.lastCommandFileSeq = record.fileSeq := by rw [hlast, max_eq_right hnew.le]
      have hmark : runtime'.idempotency.processedThroughFileSeq ≤ runtime'.lastCommandFileSeq := by
        rcases hprocessed with hsame | hsame
        · rw [hsame, hlast']
          exact hle.trans hnew.le
        · rw [hsame]
      have hrecord := hfresh.covered hrecords hlog hcovered h.checkpoint
        (hhandled _ ⟨poll, record, rest, hpoll, hstage, hrecords, rfl⟩)
      refine h.effect hlog heffect (fun last h' => ?_) (fun last h' => ?_) (fun poll' hpoll' => ?_)
        (fun h' => ?_) ?_
      · rw [hruntime'] at h'
        cases h'
        rw [hlast'] at hmark ⊢
        exact ⟨hrecord, hmark⟩
      · rw [hruntime'] at h'
        cases h'
        refine cursor_of_validAt ?_
        rcases hgoesOn with ⟨-, hoffset⟩ | ⟨hoffset, -⟩
        · rw [hoffset, hlast']
          exact hfresh.offset.mono hnew.le
        · exact (hfresh.advance hrecords hlast hoffset rfl rfl : Fresh _ _ _ { poll with records := rest }).offset
      · rcases hgoesOn with ⟨hended, -⟩ | ⟨hoffset, poll₁, hsome, hrecords', hnext⟩
        · rw [hended] at hpoll'
          cases hpoll'
        · rw [hsome] at hpoll'
          cases hpoll'
          exact ⟨runtime', hruntime', .fresh (hfresh.advance hrecords hlast hoffset hrecords' hnext)⟩
      · rw [hruntime'] at h'
        cases h'
      · refine hcheckpoint.imp_right fun hwritten => ⟨runtime', hruntime', ?_, hwritten⟩
        rw [hlast']
        exact ((h.behind.memory runtime hruntime).trans hle).trans hnew.le
  | @finished runtime runtime' poll hruntime hpoll hrecords hruntime' hlast hprocessed hfirst hoffset hended hlogs =>
      refine h.effect hlog heffect (fun last h' => ?_) (fun last h' => ?_) (by simp [hended])
        (fun h' => ?_) (.inl hlogs.commandsCheckpoint)
      · rw [hruntime'] at h'
        cases h'
        rw [hlast, hprocessed]
        exact h.last runtime hruntime
      · rw [hruntime'] at h'
        cases h'
        obtain ⟨_, hsome, hok⟩ := h.poll poll hpoll
        rw [hruntime] at hsome
        cases hsome
        cases hok with
        | fresh hfresh =>
            refine cursor_of_validAt ?_
            rw [hoffset, hlast]
            exact hfresh.offset.max (hfresh.nextOffset _ le_rfl (by simp [hrecords]))
        | stale hnone hnew =>
            intro first hhead hle
            rw [hlast] at hle
            exact absurd (hnew first (List.mem_of_mem_head? hhead)) (not_lt.mpr hle)
        | idle hnone hle =>
            unfold Cursor
            rw [hoffset, max_eq_left hle, hlast, hfirst]
            exact h.cursor runtime hruntime
      · rw [hruntime'] at h'
        cases h'


end Reader

section Writer

open MetaTraderFileProtocol

variable {F : Type} {config : MetaTraderFileBridgeConfig} {library : Library F} {appended seqs : List UInt64}
  {handled : UInt64 → Prop} {lines : List Bytes} {line : Bytes} {s : Bridge F} {poll : Poll F} {runtime : Runtime F}
  {checkpoint new : UInt64} {disk : Disk F} {data : Bytes} {file : Option Bytes} {writer writer' : Writer}
  {request : Request F} {maxLineBytes : Nat}

/-! ## New lines and cleared logs -/

theorem Cursor.append (h : Cursor lines seqs runtime) (hlength : lines.length = seqs.length)
    (hlast : runtime.lastCommandFileSeq < new) : Cursor (lines ++ [line]) (seqs ++ [new]) runtime := by
  intro first hfirst hle hknown
  cases seqs with
  | nil =>
      cases hfirst
      exact absurd hlast (not_lt.mpr hle)
  | cons head rest =>
      cases hfirst
      exact (h first rfl hle hknown).append hlength

theorem PollOk.append (h : PollOk lines seqs runtime poll) (hlength : lines.length = seqs.length)
    (hnew : ∀ n ∈ seqs, n < new) (hlast : runtime.lastCommandFileSeq < new) :
    PollOk (lines ++ [line]) (seqs ++ [new]) runtime poll := by
  cases h with
  | fresh hfresh =>
      refine .fresh ⟨hfresh.sorted, fun record hrecord => ?_, fun n hn hlt => ?_, hfresh.offset.append hlength,
        fun bound hle hbound => (hfresh.nextOffset bound hle hbound).append hlength⟩
      · obtain ⟨hmem, hlt, hvalid⟩ := hfresh.new record hrecord
        exact ⟨List.mem_append_left _ hmem, hlt, hvalid.append hlength⟩
      · rcases List.mem_append.mp hn with hn | hn
        · exact hfresh.next n hn hlt
        · rw [List.mem_singleton.mp hn]
          exact .inr fun record hrecord => hnew _ (hfresh.new record hrecord).1
  | stale hnone hold =>
      refine .stale hnone fun n hn => ?_
      rcases List.mem_append.mp hn with hn | hn
      · exact hold n hn
      · rwa [List.mem_singleton.mp hn]
  | idle hnone hle => exact .idle hnone hle

/-- Nothing of a poll is left to do when the log is cleared. -/
theorem PollOk.clear (h : PollOk lines seqs runtime poll) (hdone : ∀ n ∈ seqs, n ≤ runtime.lastCommandFileSeq) :
    PollOk [] [] runtime poll := by
  cases h with
  | fresh hfresh =>
      refine .stale (List.eq_nil_iff_forall_not_mem.mpr fun record hrecord => ?_) nofun
      obtain ⟨hmem, hlt, -⟩ := hfresh.new record hrecord
      exact absurd hlt (not_lt.mpr (hdone _ hmem))
  | stale hnone => exact .stale hnone nofun
  | idle hnone => exact .stale hnone nofun

/-- Only the command log changes. -/
theorem ReaderSafe.withLog {appended' seqs' : List UInt64} {lines' : List Bytes}
    (h : ReaderSafe appended handled lines seqs checkpoint s)
    (hcovered : ∀ n, Covered appended handled n → Covered appended' handled n)
    (hcursor : ∀ runtime, s.runtime = some runtime → Cursor lines' seqs' runtime)
    (hpoll : ∀ runtime poll, s.runtime = some runtime → PollOk lines seqs runtime poll → PollOk lines' seqs' runtime poll)
    (commandsLog : Option Bytes) :
    ReaderSafe appended' handled lines' seqs' checkpoint { s with disk := { s.disk with commandsLog } } := by
  refine ⟨h.restartable, ⟨h.behind.readable, h.behind.file, h.behind.memory⟩, hcovered _ h.checkpoint,
    fun file hfile => hcovered _ (h.file file hfile), fun runtime hruntime => ?_, hcursor, fun poll hsome => ?_⟩
  · exact ⟨hcovered _ (h.last runtime hruntime).1, (h.last runtime hruntime).2⟩
  · obtain ⟨runtime, hruntime, hok⟩ := h.poll poll hsome
    exact ⟨runtime, hruntime, hpoll runtime poll hruntime hok⟩

/-- The log and its reader, with the numbers that the log holds and the checkpoint. -/
structure Safe (config : MetaTraderFileBridgeConfig) (library : Library F) (appended : List UInt64)
    (handled : UInt64 → Prop) (seqs : List UInt64) (checkpoint : UInt64) (s : Bridge F) : Prop where
  log : LogSafe library config.maxLineBytes appended seqs checkpoint (s.disk.commandsLog.getD [])
  reader : ReaderSafe appended handled (complete lineFeed (s.disk.commandsLog.getD [])) seqs checkpoint s

/-- What is after the last line feed does not matter, as long as it is no longer than a line. -/
theorem Safe.sameLines (h : Safe config library appended handled seqs checkpoint s) (file : Option Bytes)
    (hlines : complete lineFeed (file.getD []) = complete lineFeed (s.disk.commandsLog.getD []))
    (htail : (partialTail lineFeed (file.getD [])).length ≤ config.maxLineBytes) :
    Safe config library appended handled seqs checkpoint { s with disk := { s.disk with commandsLog := file } } := by
  refine ⟨⟨⟨?_, htail, h.log.holds.sorted⟩, h.log.visible, h.log.kept, h.log.sorted, h.log.positive⟩, ?_⟩
  · exact hlines ▸ h.log.holds.lines
  · simp only [hlines]
    exact h.reader.withLog (fun _ hn => hn) h.reader.cursor (fun _ _ _ hok => hok) file

theorem Safe.clear (h : Safe config library appended handled seqs checkpoint s) (hdone : ∀ n ∈ seqs, n ≤ checkpoint) :
    Safe config library appended handled [] checkpoint { s with disk := { s.disk with commandsLog := some [] } } := by
  refine ⟨⟨⟨.nil, Nat.zero_le _, .nil⟩, nofun, fun n hn => .inr ?_, h.log.sorted, h.log.positive⟩, ?_⟩
  · exact (h.log.kept n hn).elim (hdone n) id
  · refine h.reader.withLog (fun _ hn => hn) (fun runtime _ first hfirst => by cases hfirst)
      (fun runtime poll hruntime hok => hok.clear ?_) _
    have hbehind := (h.reader.behind.memory runtime hruntime).trans (h.reader.last runtime hruntime).2
    exact fun n hn => (hdone n hn).trans hbehind

/-- A line with a new number, and nothing behind it. -/
theorem Safe.append (h : Safe config library appended handled seqs checkpoint s) (file : Option Bytes)
    (hlines : complete lineFeed (file.getD []) = complete lineFeed (s.disk.commandsLog.getD []) ++ [line])
    (htail : partialTail lineFeed (file.getD []) = []) (hline : Line library config.maxLineBytes line new)
    (hnew : ∀ n ∈ seqs, n < new) (hcheckpoint : checkpoint < new) :
    (∀ n ∈ appended, n < new) ∧
      Safe config library (appended ++ [new]) handled (seqs ++ [new]) checkpoint
        { s with disk := { s.disk with commandsLog := file } } := by
  have hbeyond : ∀ n ∈ appended, n < new := fun n hn =>
    (h.log.kept n hn).elim (hnew n) fun hle => lt_of_le_of_lt hle hcheckpoint
  have hlength := h.log.holds.lines.length_eq
  refine ⟨hbeyond, ⟨⟨?_, ?_, ?_⟩, fun n hn => ?_, fun n hn => ?_, ?_, fun n hn => ?_⟩, ?_⟩
  · simp only [hlines]
    exact List.rel_append h.log.holds.lines (.cons hline .nil)
  · simp [htail]
  · simpa [List.pairwise_append, h.log.holds.sorted] using hnew
  · rcases List.mem_append.mp hn with hn | hn
    · exact List.mem_append_left _ (h.log.visible n hn)
    · exact List.mem_append_right _ hn
  · rcases List.mem_append.mp hn with hn | hn
    · exact (h.log.kept n hn).imp_left fun hmem => List.mem_append_left _ hmem
    · exact .inl (List.mem_append_right _ hn)
  · simpa [List.pairwise_append, h.log.sorted] using hbeyond
  · rcases List.mem_append.mp hn with hn | hn
    · exact h.log.positive n hn
    · rw [List.mem_singleton.mp hn]
      exact hline.positive
  · simp only [hlines]
    refine h.reader.withLog (fun _ hn => hn.append hbeyond hline.positive) (fun runtime hruntime => ?_)
      (fun runtime poll hruntime hok => ?_) file
    · exact (h.reader.cursor runtime hruntime).append hlength ((h.reader.last runtime hruntime).1.lt hbeyond hline.positive)
    · exact hok.append hlength hnew ((h.reader.last runtime hruntime).1.lt hbeyond hline.positive)

/-! ## Sequence numbers -/

theorem readReaderCheckpoint_eq {file : Option (TradingView.Json F)} (h : readLastFileSeqCheckpoint file = .ok checkpoint) :
    readReaderCheckpoint file = .ok checkpoint := by
  cases file with
  | none => exact h
  | some found =>
      simp only [readLastFileSeqCheckpoint] at h
      simp only [readReaderCheckpoint]
      cases hmember : found.member? (text "last_file_seq") with
      | none =>
          rw [hmember] at h
          cases h
      | some value =>
          rw [hmember] at h
          cases value with
          | unsigned value => exact h
          | integer value =>
              by_cases hpositive : 0 ≤ value
              · simp only [if_pos hpositive] at h ⊢
                exact h
              · simp only [if_neg hpositive] at h
                cases h
          | _ => cases h

theorem le_foldl_newer (records : List (NdjsonRecord (TradingView.Json F))) (init : UInt64) :
    let newest := records.foldl (fun maxSeq record => if maxSeq < record.fileSeq then record.fileSeq else maxSeq) init
    init ≤ newest ∧ ∀ n ∈ records.map (·.fileSeq), n ≤ newest := by
  induction records generalizing init with
  | nil => exact ⟨le_rfl, nofun⟩
  | cons record records ih =>
      obtain ⟨hinit, hmem⟩ := ih (if init < record.fileSeq then record.fileSeq else init)
      have hstep : init ≤ (if init < record.fileSeq then record.fileSeq else init) ∧
          record.fileSeq ≤ if init < record.fileSeq then record.fileSeq else init := by
        split
        · next hlt => exact ⟨hlt.le, le_rfl⟩
        · next hle => exact ⟨le_rfl, not_lt.mp hle⟩
      refine ⟨hstep.1.trans hinit, fun n hn => ?_⟩
      rcases List.mem_cons.mp hn with rfl | hn
      · exact hstep.2.trans hinit
      · exact hmem n hn

/-- The writer sees all the numbers of a log. -/
theorem maxFileSeqInNdjson_spec (h : LogHolds library maxLineBytes (file.getD []) seqs) (hmax : 0 < maxLineBytes) :
    ∃ visibleMax, maxFileSeqInNdjson library file maxLineBytes = .ok visibleMax ∧ ∀ n ∈ seqs, n ≤ visibleMax := by
  obtain ⟨result, hread, hrecords, -⟩ := readNdjsonFromOffset_all library.log file hmax h.fits
  obtain ⟨records, hentries, hseqs, -⟩ := entriesOf_lines h.lines 0
  rw [hentries, recordsOf_map_inl] at hrecords
  refine ⟨_, by rw [maxFileSeqInNdjson, hread]; rfl, ?_⟩
  rw [hrecords, ← hseqs]
  exact (le_foldl_newer records 0).2

theorem lt_add_one {base : UInt64} (h : base ≠ maxUint64) : base < base + 1 := by
  have hne : base.toNat ≠ 2 ^ 64 - 1 := fun heq => h (UInt64.toNat_inj.mp heq)
  have hbound := base.toNat_lt
  have hone : (1 : UInt64).toNat = 1 := rfl
  rw [UInt64.lt_iff_toNat_lt, UInt64.toNat_add, hone, Nat.mod_eq_of_lt (by omega)]
  exact Nat.lt_succ_self _

/-- The next number is beyond the log and the checkpoint. -/
theorem refreshNextFileSeq_spec (h : LogHolds library config.maxLineBytes (disk.commandsLog.getD []) seqs)
    (hmax : 0 < config.maxLineBytes) (hreadable : readLastFileSeqCheckpoint disk.commandsCheckpoint = .ok checkpoint)
    (hok : writer.refreshNextFileSeq config library disk = .ok writer') :
    (∀ n ∈ seqs, n < writer'.nextFileSeq) ∧ checkpoint < writer'.nextFileSeq := by
  obtain ⟨visibleMax, hvisible, hle⟩ := maxFileSeqInNdjson_spec h hmax
  unfold Writer.refreshNextFileSeq at hok
  obtain ⟨found, hfound, hok⟩ := bind_eq_ok.mp hok
  rw [readReaderCheckpoint_eq hreadable] at hfound
  cases hfound
  obtain ⟨recovered, hrecovered, hok⟩ := bind_eq_ok.mp hok
  unfold nextFileSeqAfterCheckpoint at hrecovered
  rw [hvisible] at hrecovered
  have hbase : max visibleMax checkpoint < recovered := by
    simp only [bind, Except.bind, pure, Except.pure] at hrecovered
    split at hrecovered
    · cases hrecovered
    · next hne =>
      cases hrecovered
      exact lt_add_one hne
  have hnext : recovered ≤ writer'.nextFileSeq := by
    cases hok
    split
    · exact le_rfl
    · next hkept =>
      rw [Bool.or_eq_true, not_or, decide_eq_true_eq, not_lt] at hkept
      exact hkept.2
  have hbeyond := lt_of_lt_of_le hbase hnext
  exact ⟨fun n hn => lt_of_le_of_lt ((hle n hn).trans (le_max_left _ _)) hbeyond,
    lt_of_le_of_lt (le_max_right _ _) hbeyond⟩

/-! ## Calls -/

/-- The log is cleared only when the checkpoint has caught up with it. -/
theorem clear_safe (h : Safe config library appended handled seqs checkpoint { s with disk })
    (hmax : 0 < config.maxLineBytes) (writer : Writer) :
    ∃ seqs' ⊆ seqs, Safe config library appended handled seqs' checkpoint
        { s with disk := (clearCommandsIfCheckpointCaughtUp config library disk writer).disk } ∧
      ((clearCommandsIfCheckpointCaughtUp config library disk writer).disk = disk ∨
        (clearCommandsIfCheckpointCaughtUp config library disk writer).disk.commandsLog = some []) := by
  obtain ⟨visibleMax, hvisible, hle⟩ := maxFileSeqInNdjson_spec h.log.holds hmax
  unfold clearCommandsIfCheckpointCaughtUp
  rw [readReaderCheckpoint_eq h.reader.behind.readable]
  simp only at hvisible ⊢
  rw [hvisible]
  simp only
  split
  · exact ⟨seqs, List.Subset.refl _, h, .inl rfl⟩
  · next hcaughtUp =>
    have hdone : ∀ n ∈ seqs, n ≤ checkpoint := fun n hn =>
      (hle n hn).trans (not_lt.mp fun hlt => hcaughtUp (.inr hlt))
    have hcleared := h.clear hdone
    split
    · exact ⟨[], List.nil_subset _, hcleared, .inr rfl⟩
    · exact ⟨[], List.nil_subset _, hcleared, .inr rfl⟩

theorem kept_kept (data : Bytes) : kept (kept data) = kept data := by
  obtain ⟨hlines, -⟩ := @complete_kept_append_tail data [] List.not_mem_nil
  rw [List.append_nil] at hlines
  rw [kept, hlines, kept]

/-- Making room changes no line that is still to be read, and leaves no line without its line feed. -/
theorem ensureCommandLogCapacity_safe (h : Safe config library appended handled seqs checkpoint { s with disk })
    (hmax : 0 < config.maxLineBytes) (appendedBytes : Nat) (writer : Writer) :
    let call := ensureCommandLogCapacity config library appendedBytes disk writer
    ∃ seqs' ⊆ seqs, Safe config library appended handled seqs' checkpoint { s with disk := call.disk } ∧
      (call.result = .ok () → kept (call.disk.commandsLog.getD []) = call.disk.commandsLog.getD []) := by
  intro call
  have hrepaired : Safe config library appended handled seqs checkpoint
      { s with disk := { disk with commandsLog := (repairIncompleteNdjsonTail disk.commandsLog).1 } } := by
    obtain ⟨hlines, htail⟩ := @complete_kept_append_tail (disk.commandsLog.getD []) [] List.not_mem_nil
    rw [List.append_nil, ← getD_repair] at hlines htail
    exact h.sameLines _ hlines (by rw [htail]; exact Nat.zero_le _)
  have hkept : kept ((repairIncompleteNdjsonTail disk.commandsLog).1.getD []) =
      (repairIncompleteNdjsonTail disk.commandsLog).1.getD [] := by
    rw [getD_repair, kept_kept]
  obtain ⟨seqs', hsubset, hcleared, hdisk⟩ := clear_safe hrepaired hmax writer
  have hclearedKept : kept ((clearCommandsIfCheckpointCaughtUp config library
      { disk with commandsLog := (repairIncompleteNdjsonTail disk.commandsLog).1 } writer).disk.commandsLog.getD []) =
      (clearCommandsIfCheckpointCaughtUp config library
        { disk with commandsLog := (repairIncompleteNdjsonTail disk.commandsLog).1 } writer).disk.commandsLog.getD [] := by
    rcases hdisk with hsame | hempty
    · rw [hsame]
      exact hkept
    · rw [hempty]
      rfl
  show ∃ seqs' ⊆ seqs, Safe config library appended handled seqs' checkpoint
    { s with disk := (ensureCommandLogCapacity config library appendedBytes disk writer).disk } ∧ _
  unfold call ensureCommandLogCapacity
  split
  · exact ⟨seqs, List.Subset.refl _, h, nofun⟩
  · simp only
    split
    · exact ⟨seqs, List.Subset.refl _, hrepaired, fun _ => hkept⟩
    · split
      · exact ⟨seqs', hsubset, hcleared, nofun⟩
      · split
        · exact ⟨seqs', hsubset, hcleared, fun _ => hclearedKept⟩
        · exact ⟨seqs', hsubset, hcleared, nofun⟩
      · exact ⟨seqs', hsubset, hcleared, nofun⟩

/-- The library writes the request as one line, and reads its number back. -/
structure Request.Storable (library : Library F) (request : Request F) : Prop where
  noLineFeed : ∀ fileSeq, lineFeed ∉ library.dump (makeFileJsonrpcRequest fileSeq request)
  noCarriageReturn : ∀ fileSeq, carriageReturn ∉ library.dump (makeFileJsonrpcRequest fileSeq request)
  notEmpty : ∀ fileSeq, library.dump (makeFileJsonrpcRequest fileSeq request) ≠ []
  parse : ∀ fileSeq, ∃ document, library.parse (library.dump (makeFileJsonrpcRequest fileSeq request)) = .ok document ∧
    document.member? (text "file_seq") = some (.unsigned fileSeq)

/-- What a call leaves: the number that was appended is new. -/
def AppendSafe (config : MetaTraderFileBridgeConfig) (library : Library F) (appended : List UInt64)
    (handled : UInt64 → Prop) (s : Bridge F) (result : Appended F) : Prop :=
  (∀ new, result.fileSeq = some new → ∀ n ∈ appended, n < new) ∧
    ∃ seqs checkpoint, Safe config library (appended ++ result.fileSeq.toList) handled seqs checkpoint
      { s with disk := result.disk }

theorem Safe.appendSafe (h : Safe config library appended handled seqs checkpoint { s with disk }) (writer : Writer) :
    AppendSafe config library appended handled s ⟨disk, writer, none⟩ := by
  refine ⟨nofun, seqs, checkpoint, ?_⟩
  simp only [Option.toList_none, List.append_nil]
  exact h

/-- A line that is written up to its line feed is the last one, and otherwise there is no new line. -/
theorem writeLine_safe (h : Safe config library appended handled seqs checkpoint { s with disk })
    (hkept : kept (disk.commandsLog.getD []) = disk.commandsLog.getD []) (hrequest : request.Storable library)
    (hnew : ∀ n ∈ seqs, n < new) (hcheckpoint : checkpoint < new) (writer : Writer) (crash : Crash) :
    AppendSafe config library appended handled s
      (writeLine config disk writer new (library.dump (makeFileJsonrpcRequest new request)) crash) := by
  generalize hdump : library.dump (makeFileJsonrpcRequest new request) = line
  have hfeed : lineFeed ∉ line := hdump ▸ hrequest.noLineFeed new
  have hline : ∀ {writer : Writer}, line.length ≤ config.maxLineBytes → AppendSafe config library appended handled s
      ⟨{ disk with commandsLog := some (disk.commandsLog.getD [] ++ (line ++ [lineFeed])) }, writer, some new⟩ := by
    intro writer hfits
    have hpositive : new ≠ 0 := by
      rintro rfl
      exact absurd hcheckpoint (not_lt.mpr UInt64.zero_le)
    have hread : Line library config.maxLineBytes line new :=
      ⟨hfits, hdump ▸ hrequest.noCarriageReturn new, hdump ▸ hrequest.notEmpty new, hdump ▸ hrequest.parse new, hpositive⟩
    obtain ⟨hlines, htail⟩ := complete_kept_append (disk.commandsLog.getD []) hfeed
    rw [hkept] at hlines htail
    obtain ⟨hbeyond, hsafe⟩ := h.append (some _) hlines htail hread hnew hcheckpoint
    refine ⟨fun n hn => ?_, _, _, hsafe⟩
    cases hn
    exact hbeyond
  cases crash with
  | none =>
      rw [writeLine, appendSerializedJsonLine]
      by_cases hlong : config.maxLineBytes < line.length
      · simp only [if_pos (show line.length > config.maxLineBytes from hlong)]
        exact h.appendSafe writer
      · simp only [if_neg (show ¬ line.length > config.maxLineBytes from hlong)]
        split
        · next heq => cases heq
        · next heq =>
          cases heq
          split
          · exact hline (not_lt.mp hlong)
          · exact hline (not_lt.mp hlong)
  | beforeRepair => exact h.appendSafe {}
  | afterBytes count =>
      rw [writeLine]
      by_cases hlong : config.maxLineBytes < line.length
      · rw [if_pos hlong]
        exact h.appendSafe {}
      · rw [if_neg hlong]
        by_cases hcount : line.length < count
        · rw [if_pos hcount, List.take_of_length_le (by simp; omega)]
          exact hline (not_lt.mp hlong)
        · have htake : (line ++ [lineFeed]).take count = line.take count :=
            List.take_append_of_le_length (not_lt.mp hcount)
          rw [if_neg hcount, htake]
          obtain ⟨hlines, htail⟩ := @complete_kept_append_tail (disk.commandsLog.getD [])
            (line.take count) fun hmem => hfeed (List.mem_of_mem_take hmem)
          rw [hkept] at hlines htail
          have hlength : (line.take count).length ≤ config.maxLineBytes := by
            rw [List.length_take]
            omega
          have hsafe := h.sameLines (some _) hlines (by rw [Option.getD_some, htail]; exact hlength)
          exact hsafe.appendSafe {}

theorem appendRequest_safe (h : Safe config library appended handled seqs checkpoint { s with disk })
    (hmax : 0 < config.maxLineBytes) (hrequest : request.Storable library) (crash : Crash) (writer : Writer) :
    AppendSafe config library appended handled s (appendRequest config library request crash disk writer) := by
  unfold appendRequest
  split
  · exact h.appendSafe {}
  · split
    · exact h.appendSafe writer
    · next ready hready =>
      split
      · exact h.appendSafe ready
      · next refreshed hrefreshed =>
        obtain ⟨hnew, hcheckpoint⟩ := refreshNextFileSeq_spec h.log.holds hmax h.reader.behind.readable hrefreshed
        obtain ⟨seqs', hsubset, hsafe, hkept⟩ := ensureCommandLogCapacity_safe h hmax
          ((library.dump (makeFileJsonrpcRequest refreshed.nextFileSeq request)).length + 1) refreshed
        simp only
        split
        · exact hsafe.appendSafe _
        · next hresult =>
          exact writeLine_safe hsafe (hkept hresult) hrequest (fun n hn => hnew n (hsubset hn)) hcheckpoint _ crash

/-! ## Runs -/

section Runs

open Lib (Step)
open Lib.Run (exec trace stepOf)

variable {W : Type} [DecidableEq W]

def ProtocolEvent.Storable (library : Library F) : ProtocolEvent F W → Prop
  | .append _ request _ => request.Storable library
  | _ => True

/-- The sequence numbers that were appended. -/
def appendedSeqs (steps : List (Step (Protocol F W) (ProtocolEvent F W) (Option UInt64))) : List UInt64 :=
  steps.flatMap (·.answer.toList)

/-- The bridge was done with the command. -/
def Handled (steps : List (Step (Protocol F W) (ProtocolEvent F W) (Option UInt64))) (fileSeq : UInt64) : Prop :=
  ∃ t ∈ steps, t.after.bridge.Handles fileSeq

/-- Each event of a writer or of the bridge keeps the log safe. -/
theorem step_safe {s : Protocol F W} (h : Safe config library appended handled seqs checkpoint s.bridge)
    (hhandled : ∀ n, s.bridge.Handles n → handled n) (hmax : 0 < config.maxLineBytes)
    (hscan : 0 < config.maxScannedRecordsPerPoll) (e : ProtocolEvent F W) (hstorable : e.Storable library) :
    ∃ seqs' checkpoint', Safe config library (appended ++ (Protocol.step config library s e).2.toList) handled seqs'
      checkpoint' (Protocol.step config library s e).1.bridge := by
  have hstays : ∃ seqs' checkpoint', Safe config library (appended ++ (none : Option UInt64).toList) handled seqs'
      checkpoint' s.bridge := by
    rw [Option.toList_none, List.append_nil]
    exact ⟨seqs, checkpoint, h⟩
  cases e with
  | bridge event =>
      have hmove : Move config library s.bridge (Bridge.step config library s.bridge event.val).1 :=
        step_move event.val event.property
      obtain ⟨checkpoint', hreader, hlog⟩ := h.reader.move h.log hhandled hmax hscan (step_effect event.val) hmove
      have hsame := hmove.commandsLog
      refine ⟨seqs, checkpoint', ?_⟩
      simp only [Protocol.step, Option.toList_none, List.append_nil]
      exact ⟨hsame ▸ hlog, hsame ▸ hreader⟩
  | newWriter w => exact hstays
  | initializeWriter w =>
      simp only [Protocol.step]
      split
      · exact hstays
      · exact hstays
  | nextFileSeq w =>
      simp only [Protocol.step]
      split
      · exact hstays
      · split
        · exact hstays
        · exact hstays
  | append w request crash =>
      exact (appendRequest_safe h hmax hstorable crash (s.writers w)).2
  | clear w =>
      simp only [Protocol.step]
      split
      · exact hstays
      · next writer hready =>
        obtain ⟨seqs', -, hsafe, -⟩ := clear_safe h hmax writer
        rw [Option.toList_none, List.append_nil]
        exact ⟨seqs', checkpoint, hsafe⟩

/-- What is known after a run. -/
def RunSafe (config : MetaTraderFileBridgeConfig) (library : Library F)
    (steps : List (Step (Protocol F W) (ProtocolEvent F W) (Option UInt64))) (s : Protocol F W) : Prop :=
  (∀ n, s.bridge.Handles n → Handled steps n) ∧
    ∃ seqs checkpoint, Safe config library (appendedSeqs steps) (Handled steps) seqs checkpoint s.bridge

theorem ReaderSafe.mono {handled' : UInt64 → Prop} (h : ReaderSafe appended handled lines seqs checkpoint s)
    (hhandled : ∀ n, handled n → handled' n) : ReaderSafe appended handled' lines seqs checkpoint s :=
  ⟨h.restartable, h.behind, h.checkpoint.mono hhandled, fun file hfile => (h.file file hfile).mono hhandled,
    fun runtime hruntime => (h.last runtime hruntime).imp_left (·.mono hhandled), h.cursor, h.poll⟩

theorem runSafe_step (hmax : 0 < config.maxLineBytes) (hscan : 0 < config.maxScannedRecordsPerPoll)
    (steps : List (Step (Protocol F W) (ProtocolEvent F W) (Option UInt64))) (s : Protocol F W) (e : ProtocolEvent F W)
    (h : RunSafe config library steps s) (hstorable : e.Storable library) :
    RunSafe config library (steps ++ [stepOf (Protocol.step config library) s e])
      (Protocol.step config library s e).1 := by
  obtain ⟨hhandled, seqs, checkpoint, hsafe⟩ := h
  obtain ⟨seqs', checkpoint', hnext⟩ := step_safe hsafe hhandled hmax hscan e hstorable
  have happended : appendedSeqs (steps ++ [stepOf (Protocol.step config library) s e]) =
      appendedSeqs steps ++ (Protocol.step config library s e).2.toList := by
    simp [appendedSeqs]
  have hbefore : ∀ n, Handled steps n → Handled (steps ++ [stepOf (Protocol.step config library) s e]) n :=
    fun n ⟨t, ht, hn⟩ => ⟨t, List.mem_append_left _ ht, hn⟩
  refine ⟨fun n hn => ⟨_, List.mem_append_right _ (List.mem_singleton.mpr rfl), hn⟩, seqs', checkpoint', ?_⟩
  rw [happended]
  exact ⟨hnext.log, hnext.reader.mono hbefore⟩

/-- Whatever the writers and the bridge do, in any order and wherever a process ends, the log stays safe. -/
theorem run_safe (hmax : 0 < config.maxLineBytes) (hscan : 0 < config.maxScannedRecordsPerPoll)
    (es : List (ProtocolEvent F W)) (hstorable : ∀ e ∈ es, e.Storable library) :
    RunSafe config library (trace (Protocol.step config library) {} es) (exec (Protocol.step config library) {} es) := by
  refine Lib.Run.history_induct (C := fun t => t.event.Storable library)
    (fun steps s e h hc => runSafe_step hmax hscan steps s e h hc) ⟨?_, [], 0, ?_⟩ fun t ht => ?_
  · rintro n ⟨poll, record, rest, hpoll, -⟩
    cases hpoll
  · refine ⟨⟨⟨.nil, Nat.zero_le _, .nil⟩, nofun, nofun, .nil, nofun⟩, nofun, ⟨rfl, fun file _ => UInt64.zero_le, nofun⟩,
      covered_zero nofun, fun file hfile => ?_, nofun, nofun, nofun⟩
    cases hfile
    exact covered_zero nofun
  · obtain ⟨before, e, later, rfl, rfl⟩ := Lib.Run.mem_trace ht
    exact hstorable e (by simp)

end Runs


end Writer

end OptionX.Bridges.MetaTraderFile
