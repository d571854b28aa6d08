import OptionX.Storage.Lemmas.CommandRuns
import OptionX.Storage.Lemmas.Ids
import OptionX.Storage.Lemmas.SignalRecordDB
import OptionX.Storage.Lemmas.TradeRecordDB

/-!
# Record databases

What their command queue promises over any interleaving.
-/

namespace OptionX.Storage

open Lib (Frame)
open Lib.Calls (stageOf goOn)
open Lib.Run (exec trace)

namespace RecordDB

variable {T : Type} [DecidableEq T]

/-! ## The command queue -/

/-- Everything that a run says. -/
def notices (isOpen : Bool) (es : List (Event T)) : List (Notice T) :=
  (trace step (create isOpen) es).flatMap (·.answer)

theorem control_run (isOpen : Bool) (es : List (Event T)) : Control (exec step (create (T := T) isOpen) es) :=
  Lib.Run.exec_induct (fun _ e h => h.step e) (.create isOpen) es

/-- The invariants that hold of every run. -/
theorem accounted_run (isOpen : Bool) (es : List (Event T)) :
    Accounted (notices isOpen es) (exec step (create isOpen) es) ∧
      InOrder (notices isOpen es) (exec step (create isOpen) es) := by
  suffices h : Control (exec step (create isOpen) es) ∧ Held (notices isOpen es) (exec step (create isOpen) es) ∧
      Accounted (notices isOpen es) (exec step (create isOpen) es) ∧
      InOrder (notices isOpen es) (exec step (create isOpen) es) from h.2.2
  refine Lib.Run.history_induct' (H := fun steps (s : RecordDB T) => Control s ∧ Held (steps.flatMap (·.answer)) s ∧
    Accounted (steps.flatMap (·.answer)) s ∧ InOrder (steps.flatMap (·.answer)) s) ?_ ?_ es
  · rintro steps s e ⟨hc, hh, ha, ho⟩
    rw [List.flatMap_append, List.flatMap_singleton]
    exact ⟨hc.step e, hh.step e, ha.step hc e, ho.step hc hh e⟩
  · refine ⟨.create isOpen, ⟨fun h => absurd rfl h, fun _ h => (by cases h), fun _ h => (by cases h)⟩, ?_, ?_⟩
    · exact ⟨rfl, fun _ => rfl, fun _ => rfl, fun _ => rfl, rfl⟩
    · exact ⟨fun _ => rfl, fun _ _ => rfl⟩

theorem drained_run (isOpen : Bool) (es : List (Event T))
    (hes : ∀ st ∈ trace step (create isOpen) es, Unhurried st.before st.event) :
    Drained (notices isOpen es) (exec step (create isOpen) es) := by
  suffices h : Control (exec step (create isOpen) es) ∧ Drained (notices isOpen es) (exec step (create isOpen) es) from
    h.2
  refine Lib.Run.history_induct (H := fun steps (s : RecordDB T) => Control s ∧ Drained (steps.flatMap (·.answer)) s)
    (C := fun st => Unhurried st.before st.event) ?_ ?_ hes
  · rintro steps s e ⟨hc, hd⟩ he
    rw [List.flatMap_append, List.flatMap_singleton]
    exact ⟨hc.step e, hd.step hc he⟩
  · have hnot : ∀ n, ¬ Reached n [] (create (T := T) isOpen) := by
      rintro n (⟨f, hf, -⟩ | h)
      · cases hf
      · cases h
    exact ⟨.create isOpen, fun h => absurd h (hnot 2), fun h => absurd h (hnot 3), fun h => absurd h (hnot 4)⟩

omit [DecidableEq T] in
@[simp] theorem execute_accepted (q : CommandQueue) (work : Work) :
    (q.execute (T := T) work).2.2.filterMap Notice.accepted? = [] := by
  cases work <;> rfl

theorem step_closed {s : RecordDB T} (h : s.queue.accepting = false) (e : Event T) :
    (s.step e).1.queue.accepting = false ∧ (s.step e).2.filterMap Notice.accepted? = [] := by
  have hs := stepped s e
  generalize s.step e = r at hs ⊢
  cases hs with
  | advances t stage q' stage' notices ht ha =>
      refine ⟨?_, ?_⟩
      · rcases advance_accepting ha with heq | ⟨-, heq⟩
        · exact heq.trans h
        · exact heq
      · revert ha
        fun_cases CommandQueue.advance s.queue t stage <;> intro ha <;> cases ha <;>
          simp_all +zetaDelta [List.filterMap_cons]
  | works q' notices ha =>
      revert ha
      fun_cases CommandQueue.advanceWorker s.queue <;> intro ha <;> cases ha <;>
        simp_all +zetaDelta [List.filterMap_cons]
  | _ => exact ⟨h, rfl⟩

/-- A closed queue stays closed and accepts nothing. -/
theorem closed_run (es : List (Event T)) {s : RecordDB T} (h : s.queue.accepting = false) :
    ((trace step s es).flatMap (·.answer)).filterMap Notice.accepted? = [] := by
  induction es generalizing s with
  | nil => rfl
  | cons e es ih =>
      obtain ⟨hclosed, hnone⟩ := step_closed h e
      simp [hnone, ih hclosed]

/-- Every accepted command is executed once and its callback delivered once by the time that all calls have
returned, provided that `shutdown` does not join while a call of `run` is about to start the worker. -/
theorem executes_exactly_once (isOpen : Bool) (es : List (Event T)) :
    let ns := notices isOpen es
    let s := exec step (create isOpen) es
    (∀ c, (ns.filterMap Notice.delivered?).count c ≤ (ns.filterMap Notice.executed?).count c ∧
      (ns.filterMap Notice.executed?).count c ≤ (ns.filterMap Notice.accepted?).count c ∧
      (ns.filterMap Notice.accepted?).count c ≤ 1) ∧
    ((∀ st ∈ trace step (create isOpen) es, Unhurried st.before st.event) → s.calls = [] → .shutDown ∈ ns →
      (ns.filterMap Notice.executed?).Perm (ns.filterMap Notice.accepted?) ∧
        (ns.filterMap Notice.delivered?).Perm (ns.filterMap Notice.accepted?)) ∧
    (s.queue.accepting = false → ∀ es' : List (Event T),
      ((trace step s es').flatMap (·.answer)).filterMap Notice.accepted? = []) ∧
    (ns.filterMap Notice.popped?).Perm (ns.filterMap Notice.finished? ++ s.works.map Work.ticket) ∧
    s.queue.activeWork = s.works.length ∧
    ((∃ p, PoppedBy p ns) → ns.filterMap Notice.executed? <+: ns.filterMap Notice.accepted? ∧
      ((∃ t, TakenBy t ns) → ns.filterMap Notice.delivered? <+: ns.filterMap Notice.accepted?)) := by
  obtain ⟨ha, ho⟩ := accounted_run isOpen es
  refine ⟨fun c => ⟨?_, ?_, ?_⟩, fun hes hcalls hshut => ?_, fun hclosed es' => closed_run es' hclosed, ?_, ha.active,
    fun hp => ⟨?_, fun ht => ?_⟩⟩
  · have hc := ha.callbacks c
    omega
  · have hc := ha.commands c
    omega
  · rw [ha.accepted]
    exact List.nodup_iff_count_le_one.mp List.nodup_range c
  · have hd := drained_run isOpen es hes
    obtain ⟨-, hworker, -⟩ := hd.joined (.inr hshut)
    have hworks : (exec step (create isOpen) es).works = [] := by
      rcases hworker with hworker | hworker <;> simp [works, hworker, hcalls, Worker.work]
    have htaken : (exec step (create isOpen) es).taken = [] := by simp [taken, hcalls]
    have hqueue : (exec step (create isOpen) es).queue.callbackQueue = [] := by
      rcases hd.answered (.inr hshut) with hempty | ⟨f, hf, -⟩
      · exact hempty
      · rw [hcalls] at hf
        cases hf
    have hexecuted : ((notices isOpen es).filterMap Notice.executed?).Perm
        ((notices isOpen es).filterMap Notice.accepted?) := by
      refine List.perm_iff_count.mpr fun c => ?_
      have hc := ha.commands c
      rw [hworks, hd.emptied (.inr hshut)] at hc
      simpa using hc
    refine ⟨hexecuted, .trans (List.perm_iff_count.mpr fun c => ?_) hexecuted⟩
    have hc := ha.callbacks c
    rw [hworks, htaken, hqueue] at hc
    simpa using hc
  · refine List.perm_iff_count.mpr fun c => ?_
    rw [List.count_append]
    exact (ha.popped c).symm
  · exact ⟨_, (List.append_assoc ..).symm.trans (ho.commands hp)⟩
  · have hexecuted := ho.callbacks hp ht
    rw [List.append_assoc, List.append_assoc] at hexecuted
    have hdelivered : (notices isOpen es).filterMap Notice.delivered? <+:
        (notices isOpen es).filterMap Notice.executed? := ⟨_, hexecuted⟩
    exact hdelivered.trans ⟨_, (List.append_assoc ..).symm.trans (ho.commands hp)⟩

/-- A command queued before the worker runs; one thread flushes, another shuts down. -/
def orderlyRun : List (Event Nat) :=
  [.call 0 .enqueue, .advance 0, .call 0 .run, .advance 0, .advance 0, .advance 0, .call 1 .flush, .advance 1,
    .worker, .worker, .worker, .worker, .advance 1, .call 2 .shutdown, .advance 2, .worker, .worker, .advance 2,
    .advance 2, .advance 2, .advance 1, .advance 2, .advance 1, .advance 1, .advance 2]

theorem executes_exactly_once_orderly :
    (notices true orderlyRun).filterMap Notice.accepted? = [0] ∧
      ((notices true orderlyRun).filterMap Notice.delivered?).Perm [0] := by
  have haccepted : (notices true orderlyRun).filterMap Notice.accepted? = [0] := by decide
  have hrun := (executes_exactly_once true orderlyRun).2.1 (by decide) (by decide) (by decide)
  exact ⟨haccepted, haccepted ▸ hrun.2⟩

/-- The worker executes two commands; the first callback is taken by one thread and delivered after the second,
which another thread takes and delivers at once. -/
def overtakingRun : List (Event Nat) :=
  [.call 0 .enqueue, .advance 0, .call 0 .enqueue, .advance 0, .call 0 .run, .advance 0, .advance 0, .advance 0,
    .worker, .worker, .worker, .worker, .worker, .worker, .worker, .worker,
    .call 1 .process, .advance 1, .advance 1, .call 2 .process, .advance 2, .advance 2, .advance 2, .advance 1]

/-- `shutdown` joins between the two halves of `run`: there is no thread to wait for yet, and the one that then
starts takes the command. -/
def hastyRun : List (Event Nat) :=
  [.call 0 .enqueue, .advance 0, .call 1 .run, .advance 1, .advance 1, .call 2 .shutdown, .advance 2, .advance 2,
    .advance 1, .worker, .advance 2, .advance 2, .advance 2, .advance 2]

theorem callbacks_overtake :
    ¬ (∀ es : List (Event Nat), (∃ p, PoppedBy p (notices true es)) →
        (notices true es).filterMap Notice.delivered? <+: (notices true es).filterMap Notice.accepted?) ∧
      ¬ ∀ es : List (Event Nat), (exec step (create true) es).calls = [] → .shutDown ∈ notices true es →
        ((notices true es).filterMap Notice.executed?).Perm ((notices true es).filterMap Notice.accepted?) := by
  refine ⟨fun h => ?_, fun h => ?_⟩
  · have hp : PoppedBy .worker (notices true overtakingRun) := by
      have hns : notices true overtakingRun = [.accepted 0, .accepted 1, .popped .worker 0, .executed 0, .finished 0,
        .popped .worker 1, .executed 1, .finished 1, .taken 1 0, .taken 2 1, .delivered 1, .delivered 0] := by decide
      rw [hns]
      intro q c hq
      simp at hq
      rcases hq with hq | hq <;> exact hq.1
    have hprefix := h overtakingRun ⟨_, hp⟩
    revert hprefix
    decide
  · have hperm := h hastyRun (by decide) (by decide)
    revert hperm
    decide

end RecordDB

namespace SignalRecordDB

open Lib.Run (exec trace)

theorem coherent_run (msToMin : Int → Int) (es : List Event) :
    (exec (step msToMin) {} es).Coherent msToMin :=
  Lib.Run.exec_induct (fun _ e h => h.step e) .empty es

/-- After every call: a non-zero trade id is in one record at most, and the trade index maps the trade ids of the
records, and no others, to the keys of their owners; the signal index does the same for signal ids, and each key is
built from the minute and the signal id of its record. A refused call changes nothing at all. A call that succeeds in
storing stores the given record under its id, or under the chosen one where it has none, and leaves the records of
all other signals as they are. -/
theorem trades_owned (msToMin : Int → Int) (es : List Event) : ∀ st ∈ trace (step msToMin) {} es,
    (∀ k r k' r' tradeId, st.after.records.find? k = some r → st.after.records.find? k' = some r' → tradeId ≠ 0 →
      tradeId ∈ r.tradeIds → tradeId ∈ r'.tradeIds → k = k') ∧
    (∀ tradeId k, st.after.tradeIdIndex.find? tradeId = some k ↔
      tradeId ≠ 0 ∧ ∃ r, st.after.records.find? k = some r ∧ tradeId ∈ r.tradeIds) ∧
    (∀ signalId k, st.after.signalIdIndex.find? signalId = some k ↔
      ∃ r, st.after.records.find? k = some r ∧ r.signalId = signalId) ∧
    (∀ k r, st.after.records.find? k = some r → k = r.compositeKey msToMin) ∧
    (∀ result, st.answer = .result result → Refused result.status → st.after = st.before) ∧
    (∀ status, st.answer = .status status → Refused status → st.after = st.before) ∧
    (st.answer = .id 0 → st.after = st.before) ∧
    (∀ result, st.answer = .result result → result.status = .success →
      ∃ nowMs given, (st.event = .upsert nowMs given ∨ st.event = .write nowMs given) ∧
        Stores msToMin given result.record st.before st.after) ∧
    (∀ nowMs signalId, st.event = .eraseBySignalId nowMs signalId → st.answer = .status .success → ∀ k r,
      st.after.records.find? k = some r ↔ st.before.records.find? k = some r ∧ r.signalId ≠ signalId) := by
  intro st hst
  obtain ⟨pre, e, post, rfl, rfl⟩ := Lib.Run.mem_trace hst
  have hbefore := coherent_run msToMin pre
  have hafter := hbefore.step e
  refine ⟨fun k r k' r' t hr hr' h0 ht ht' => ?_, fun t k => ?_, fun id k => ?_, fun k r hr => (hafter.keyed k r hr).1,
    ?_, ?_, ?_, ?_, ?_⟩
  · exact hafter.trades.unique hr (mem_ownedTrades.mpr ⟨ht, h0⟩) hr' (mem_ownedTrades.mpr ⟨ht', h0⟩)
  · rw [Lib.Run.stepOf_after, hafter.trades t k]
    simp only [mem_ownedTrades]
    exact ⟨fun ⟨r, hr, hmem, h0⟩ => ⟨h0, r, hr, hmem⟩, fun ⟨h0, r, hr, hmem⟩ => ⟨r, hr, hmem, h0⟩⟩
  · rw [Lib.Run.stepOf_after, hafter.signals id k]
    simp [eq_comm]
  · intro result hresult hrefused
    cases e with
    | upsert nowMs record =>
        obtain rfl := Answer.result.inj hresult
        exact upsert_failed hrefused.ne_success
    | write nowMs record =>
        obtain rfl := Answer.result.inj hresult
        exact write_failed hrefused.ne_success
    | eraseBySignalId | clear | getSignalId | shutdown | reopen => cases hresult
  · intro status hstatus hrefused
    cases e with
    | eraseBySignalId nowMs signalId =>
        obtain rfl := Answer.status.inj hstatus
        exact eraseBySignalId_failed hbefore hrefused.ne_success
    | clear nowMs =>
        obtain rfl := Answer.status.inj hstatus
        exact clear_failed hrefused.ne_success
    | upsert | write | getSignalId | shutdown | reopen => cases hstatus
  · intro hid
    cases e with
    | getSignalId nowMs => exact getSignalId_failed (Answer.id.inj hid)
    | upsert | write | eraseBySignalId | clear | shutdown | reopen => cases hid
  · intro result hresult hok
    cases e with
    | upsert nowMs record =>
        obtain rfl := Answer.result.inj hresult
        exact ⟨nowMs, record, .inl rfl, (upsert_stored hbefore hok).2⟩
    | write nowMs record =>
        obtain rfl := Answer.result.inj hresult
        exact ⟨nowMs, record, .inr rfl, (write_stored hbefore hok).2⟩
    | eraseBySignalId | clear | getSignalId | shutdown | reopen => cases hresult
  · intro nowMs signalId he hok k r
    obtain rfl : e = _ := he
    exact eraseBySignalId_find? hbefore (Answer.status.inj hok)

def rivalRun : List Event :=
  [.reopen false, .write 1000 { signalId := 1, createDate := 60000, tradeIds := [7, 0, 7] },
    .upsert 2000 { signalId := 2, createDate := 120000, tradeIds := [7] }]

theorem trades_owned_rival :
    ∃ st ∈ trace (step (· / 60000)) {} rivalRun, st.answer = .result
      (writeError .conflict { signalId := 2, createDate := 120000, tradeIds := [7] } conflictMessage) ∧
      st.after = st.before := by
  have hst : Lib.Run.stepOf (step (· / 60000)) (exec (step (· / 60000)) {} (rivalRun.take 2))
      (.upsert 2000 { signalId := 2, createDate := 120000, tradeIds := [7] }) ∈
      trace (step (· / 60000)) {} rivalRun := List.mem_of_getElem? (i := 2) rfl
  have hanswer : (Lib.Run.stepOf (step (· / 60000)) (exec (step (· / 60000)) {} (rivalRun.take 2))
      (.upsert 2000 { signalId := 2, createDate := 120000, tradeIds := [7] })).answer = .result
      (writeError .conflict { signalId := 2, createDate := 120000, tradeIds := [7] } conflictMessage) := by
    decide
  exact ⟨_, hst, hanswer, (trades_owned _ _ _ hst).2.2.2.2.1 _ hanswer (.inl rfl)⟩

end SignalRecordDB

namespace TradeRecordDB

open Lib.Run (exec trace)

/-- After the call: the trade id index maps the trade ids of the records, and no others, to their keys, each built from
the minute and the trade id of its record; the uid index keeps its promise; and an upsert without a trade id has
changed no record but one of its positive uid or its broker identity. -/
def StaysCoherent (msToMin : Int → Int) (st : Lib.Step TradeRecordDB Event Answer) : Prop :=
  (∀ tradeId k, st.after.tradeIdIndex.find? tradeId = some k ↔
    ∃ r, st.after.records.find? k = some r ∧ r.tradeId = tradeId) ∧
  (∀ k r, st.after.records.find? k = some r → k = r.compositeKey msToMin) ∧
  st.after.UidFound ∧
  ∀ nowMs record, st.event = .upsert nowMs record → record.tradeId = 0 → ∀ k o, st.before.records.find? k = some o →
    st.after.records.find? k ≠ some o →
      0 < record.uniqueId ∧ o.uniqueId = record.uniqueId ∨ record.sameBrokerIdentity o = true

/-- The tables stay coherent in a run exactly when no call of it leaves an entry of the uid index to a record of another
uid, or takes one from a record that needs it. -/
theorem coherent_iff_keeps (msToMin : Int → Int) (es : List Event) :
    (∀ st ∈ trace (step msToMin) {} es, StaysCoherent msToMin st) ↔
      ∀ st ∈ trace (step msToMin) {} es, Keeps msToMin st.before st.event := by
  refine Lib.Run.forall_trace_iff (I := fun db => db.Keyed msToMin ∧ db.UidIndexed) ?_
    (fun db e h hkeeps => ⟨h.1.step e, h.2.step h.1 hkeeps⟩) ⟨.empty, .empty⟩ es
  rintro db e ⟨hk, hu⟩
  refine ⟨fun h => keeps_of_uidFound hk hu h.2.2.1, fun hkeeps => ?_⟩
  have hk' := hk.step e
  refine ⟨fun tradeId k => ?_, fun k r hr => (hk'.key k r hr).1, (hu.step hk hkeeps).uidFound, ?_⟩
  · rw [Lib.Run.stepOf_after, hk'.trades tradeId k]
    simp [eq_comm]
  · rintro nowMs record he hid k o ho hgone
    obtain rfl : e = _ := he
    exact upsert_replaces hk hu hid ho hgone

/-- A trade gets another uid within its minute, and a new trade comes with the old uid. -/
def staleRun : List Event :=
  [.reopen false, .write 1 { tradeId := 10, uniqueId := 50, placeDate := 60000 },
    .write 2 { tradeId := 10, uniqueId := 51, placeDate := 60000 },
    .upsert 3 { uniqueId := 50, placeDate := 120000 }]

theorem stale_uid_overwrites : ¬ ∀ msToMin es, ∀ st ∈ trace (step msToMin) {} es, StaysCoherent msToMin st := by
  intro h
  have hst : Lib.Run.stepOf (step (· / 60000)) (exec (step (· / 60000)) {} (staleRun.take 3))
      (.upsert 3 { uniqueId := 50, placeDate := 120000 }) ∈ trace (step (· / 60000)) {} staleRun :=
    List.mem_of_getElem? (i := 3) rfl
  have hreplaced := (h _ _ _ hst).2.2.2 3 { uniqueId := 50, placeDate := 120000 } rfl rfl
    (TradeRecord.compositeKey (· / 60000) { tradeId := 10, placeDate := 60000 })
    { tradeId := 10, uniqueId := 51, placeDate := 60000 } (by decide) (by decide)
  revert hreplaced
  decide

end TradeRecordDB

/-! ## The id sequences -/

theorem TradeRecordDB.keyed_run (msToMin : Int → Int) (es : List TradeRecordDB.Event) :
    (Lib.Run.exec (TradeRecordDB.step msToMin) {} es).Keyed msToMin :=
  Lib.Run.exec_induct (fun _ e h => h.step e) .empty es

/-- The ids that a run on either database hands out are distinct exactly when its new ids come first. The search for
an id ends within one round from any place, and it finds none in a state of the database exactly when there is a
record of every id. -/
theorem ids_distinct_iff (msToMin : Int → Int) :
    (∀ before es, ((TradeRecordDB.tradeIds msToMin).Distinct (Lib.Run.exec (TradeRecordDB.step msToMin) {} before) es ↔
      (TradeRecordDB.tradeIds msToMin).NewIdsFirst (Lib.Run.exec (TradeRecordDB.step msToMin) {} before) es)) ∧
    (∀ before es, ((SignalRecordDB.signalIds msToMin).Distinct
        (Lib.Run.exec (SignalRecordDB.step msToMin) {} before) es ↔
      (SignalRecordDB.signalIds msToMin).NewIdsFirst (Lib.Run.exec (SignalRecordDB.step msToMin) {} before) es)) ∧
    (∀ (taken : UInt32 → Bool) (m : Meta),
      nextFreeId? taken m.firstCandidate (2 ^ 32) m.firstCandidate false = some (m.freeId taken)) ∧
    (∀ es, let db := Lib.Run.exec (TradeRecordDB.step msToMin) {} es
      db.reserveTradeId.2 = 0 ↔ ∀ id, id ≠ 0 → db.Stored id) ∧
    ∀ es, let db := Lib.Run.exec (SignalRecordDB.step msToMin) {} es
      db.reserveSignalId.2 = 0 ↔ ∀ id, id ≠ 0 → db.Stored id := by
  refine ⟨fun before es => ?_, fun before es => ?_, fun taken m => (m.freeId_finds taken).1, fun es => ?_, fun es => ?_⟩
  · refine IdSource.distinct_iff fun pre e => TradeRecordDB.takesFirst ?_ e
    have hkeyed := TradeRecordDB.keyed_run msToMin (before ++ pre)
    rwa [Lib.Run.exec_append] at hkeyed
  · refine IdSource.distinct_iff fun pre e => SignalRecordDB.takesFirst ?_ e
    have hcoherent := SignalRecordDB.coherent_run msToMin (before ++ pre)
    rwa [Lib.Run.exec_append] at hcoherent
  · dsimp only
    rw [TradeRecordDB.reserveTradeId_snd, Meta.freeId_eq_zero_iff]
    exact forall₂_congr fun id _ => (TradeRecordDB.keyed_run msToMin es).contains_iff id
  · dsimp only
    rw [SignalRecordDB.reserveSignalId_snd, Meta.freeId_eq_zero_iff]
    exact forall₂_congr fun id _ => (SignalRecordDB.coherent_run msToMin es).contains_iff id

/-- An id is taken, a record comes with the greatest id, and an id is taken again. -/
def lastIdRun : List TradeRecordDB.Event :=
  [.reopen false, .getTradeId 1, .write 2 { tradeId := 0xFFFFFFFF, placeDate := 60000 }, .getTradeId 3]

theorem id_handed_out_twice : ¬ ∀ msToMin es, (∀ nowMs, .clear nowMs ∉ es) →
    (TradeRecordDB.tradeIds msToMin).Distinct {} es := by
  intro h
  have hd := h (· / 60000) lastIdRun (by simp [lastIdRun]) (lastIdRun.take 3) (.getTradeId 3) [] rfl 1 (by decide +kernel)
  -- The second id has not been used, so there is no excuse.
  rcases hd.2.2 (by decide +kernel) 2 (by decide) with hmem | ⟨n, hstored⟩
  · revert hmem
    decide +kernel
  · rw [List.take_take] at hstored
    have hindexed := (TradeRecordDB.keyed_run (· / 60000) _).contains_iff 2 |>.mpr hstored
    have hn : min n 3 = 0 ∨ min n 3 = 1 ∨ min n 3 = 2 ∨ min n 3 = 3 := by omega
    rcases hn with hn | hn | hn | hn <;> rw [hn] at hindexed <;> revert hindexed <;> decide +kernel

end OptionX.Storage
