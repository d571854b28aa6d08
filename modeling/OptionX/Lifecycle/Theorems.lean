import OptionX.Lifecycle.Lemmas.LifecycleStack

/-!
# The lifecycle stack

Dependents stop before the modules they rest on, and a stack whose modules stop comes to a stop.
-/

namespace OptionX.Lifecycle

namespace LifecycleStack

open Lib.Run (exec trace stepOf)

variable {ι σ : Type} [DecidableEq ι] {M : Modules ι σ} {self : ι} {w : σ}

/-- The stack and its modules after a run. -/
def after (M : Modules ι σ) (self : ι) (w : σ) (es : List (Event ι)) : Run ι σ := exec (step M self) ⟨{}, w⟩ es

/-- The calls that the stack makes in a run. -/
def calls (M : Modules ι σ) (self : ι) (w : σ) (es : List (Event ι)) : List (Call ι σ) :=
  (trace (step M self) ⟨{}, w⟩ es).flatMap (·.answer)

theorem after_snoc (es : List (Event ι)) (e : Event ι) :
    after M self w (es ++ [e]) = (step M self (after M self w es) e).1 :=
  Lib.Run.exec_append es [e]

theorem calls_snoc (es : List (Event ι)) (e : Event ι) :
    calls M self w (es ++ [e]) = calls M self w es ++ (step M self (after M self w es) e).2 := by
  simp [calls, after, Lib.Run.trace_append]

theorem inv_run (M : Modules ι σ) (self : ι) (w : σ) (es : List (Event ι)) :
    Inv M (calls M self w es) (after M self w es).stack (after M self w es).world := by
  induction es using List.reverseRecOn with
  | nil => exact .initial w
  | append_singleton es e ih =>
      rw [calls_snoc, after_snoc]
      exact ih.step e

theorem requested_run (es : List (Event ι)) : (after M self w es).stack.shutdownRequested = true ↔ .shutdown ∈ es := by
  induction es using List.reverseRecOn with
  | nil => simp [after]
  | append_singleton es e ih =>
      rw [after_snoc, requested_step self (inv_run M self w es), ih]
      simp [eq_comm]

theorem asked_run (es : List (Event ι)) :
    (asked (calls M self w es)).reverse.Sublist (after M self w es).stack.modules := by
  have h := inv_run M self w es
  cases hreq : (after M self w es).stack.shutdownRequested with
  | false => simp [(h.idle hreq).2.2]
  | true => exact (h.down hreq).trans (List.drop_sublist _ _)

/-! ## Coming to a stop -/

section Endless

open Lib.Run (first first_succ)

variable {es : Nat → Event ι} {n m : Nat} {i : ι}

theorem count_mono (M : Modules ι σ) (self : ι) (w : σ) (es : Nat → Event ι) (i : ι) (h : n ≤ m) :
    (processed (calls M self w (first es n))).count i ≤ (processed (calls M self w (first es m))).count i := by
  induction m, h using Nat.le_induction with
  | base => exact le_rfl
  | succ m _ ih =>
      rw [first_succ, calls_snoc, processed_append, List.count_append]
      omega

/-- A shutdown that never ends comes to rest at one module. -/
theorem comes_to_rest (hrun : ∀ n, (after M self w (first es n)).stack.stopped = false)
    (hreq : ∀ m, n < m → (after M self w (first es m)).stack.shutdownRequested = true) :
    ∃ m, n < m ∧ ∀ k, m ≤ k →
      (after M self w (first es k)).stack.modules = (after M self w (first es m)).stack.modules ∧
      (after M self w (first es k)).stack.shutdownCursor = (after M self w (first es m)).stack.shutdownCursor := by
  have hex : ∃ c m, n < m ∧ (after M self w (first es m)).stack.shutdownCursor = c := ⟨_, n + 1, by omega, rfl⟩
  classical
  obtain ⟨m, hm, hc⟩ := Nat.find_spec hex
  refine ⟨m, hm, fun k hk => ?_⟩
  induction k, hk using Nat.le_induction with
  | base => exact ⟨rfl, rfl⟩
  | succ k hk ih =>
      have hstep := descent_step self (inv_run M self w (first es k)) (hreq k (by omega)) (hrun k) (es k)
      rw [first_succ, after_snoc]
      refine ⟨hstep.1.trans ih.1, ?_⟩
      have hmin := Nat.find_min' hex ⟨k + 1, by omega, rfl⟩
      rw [first_succ, after_snoc] at hmin
      have := ih.2
      omega

theorem comes_to_stop (hshutdown : ∃ n, es n = .shutdown) (hprocess : ∀ n, ∃ m, n ≤ m ∧ es m = .process)
    (hstops : ∀ n i v, .shutdown i v ∈ calls M self w (first es n) →
      ∃ k, ∀ m, k ≤ (processed (calls M self w (first es m))).count i →
        M.isStopped i (after M self w (first es m)).world = true) :
    ∃ n, (after M self w (first es n)).stack.stopped = true := by
  by_contra hnever
  have hrun : ∀ n, (after M self w (first es n)).stack.stopped = false := fun n => by
    by_contra hst
    exact hnever ⟨n, by simpa using hst⟩
  obtain ⟨n, hn⟩ := hshutdown
  have hreq : ∀ m, n < m → (after M self w (first es m)).stack.shutdownRequested = true := fun m hm =>
    (requested_run _).mpr (List.mem_map.mpr ⟨n, List.mem_range.mpr hm, hn⟩)
  obtain ⟨m, hm, hrest⟩ := comes_to_rest hrun hreq
  obtain ⟨i, hi, hasked, -⟩ := (inv_run M self w (first es m)).current (hreq m hm) (hrun m)
  -- The module at the cursor has been asked, and it still runs after every later call of `process`.
  have hruns : ∀ k, m ≤ k → es k = .process → M.isStopped i (after M self w (first es (k + 1))).world = false := by
    intro k hk hp
    have hcur := current_running self (e := es k) (inv_run M self w (first es k)) (.inl hp)
    rw [← after_snoc, ← first_succ] at hcur
    obtain ⟨j, hj, hjrun⟩ := hcur (hreq _ (by omega)) (hrun _)
    obtain ⟨hmodules, hcursor⟩ := hrest (k + 1) (by omega)
    rw [hmodules, hcursor, hi] at hj
    obtain rfl := Option.some.inj hj
    exact hjrun
  have hcount : ∀ c, ∃ k, m ≤ k ∧ c ≤ (processed (calls M self w (first es k))).count i := by
    intro c
    induction c with
    | zero => exact ⟨m, le_rfl, Nat.zero_le _⟩
    | succ c ih =>
        obtain ⟨k, hk, hc⟩ := ih
        obtain ⟨k', hk', hp⟩ := hprocess k
        refine ⟨k' + 1, by omega, ?_⟩
        have hr := hruns k' (by omega) hp
        rw [first_succ, after_snoc, hp] at hr
        have hmem : i ∈ (after M self w (first es k')).stack.modules := by
          rw [(hrest k' (by omega)).1]
          exact List.mem_of_getElem? hi
        have hone := List.one_le_count_iff.mpr (processed_step self (inv_run M self w (first es k')) hmem hr)
        have hmono := count_mono M self w es i hk'
        rw [first_succ, calls_snoc, hp, processed_append, List.count_append]
        omega
  obtain ⟨v, hv⟩ := exists_of_mem_asked hasked
  obtain ⟨k, hk⟩ := hstops m i v hv
  obtain ⟨m', hm', hc⟩ := hcount k
  obtain ⟨l, hl, hp⟩ := hprocess m'
  have hstopped := hk (l + 1) (hc.trans (count_mono M self w es i (by omega)))
  rw [hruns l (by omega) hp] at hstopped
  cases hstopped

end Endless

/-- In every run: each module is asked to shut down once at most, after the stack was and in the reverse order of
registration, when all modules registered after it have stopped; a call of `process` processes each module that has
not stopped once, in the order of registration, and no call processes one that has; the stack is stopped only when
all its modules are, and it is stopped after a look at them exactly when it was asked to and all of them are. If
`process` is called over and over and every module that is asked stops after some number of calls, the stack does. -/
theorem dependents_first (M : Modules ι σ) (self : ι) (w : σ) :
    (∀ es, (asked (calls M self w es)).Nodup ∧
      (asked (calls M self w es)).reverse.Sublist (after M self w es).stack.modules ∧
      ((after M self w es).stack.stopped = true → .shutdown ∈ es ∧
        ∀ i ∈ (after M self w es).stack.modules, M.isStopped i (after M self w es).world = true) ∧
      ∀ e, let s := after M self w es
        let s' := after M self w (es ++ [e])
        let answer := (step M self s e).2
        (∀ i v, .shutdown i v ∈ answer → .shutdown ∈ es ++ [e] ∧ DependentsStopped M s.stack.modules i v) ∧
        (e = .process → ∃ ps v ss, answer = ps ++ ss ∧ Pass M s.stack.modules s.world (v, ps) ∧
          M.Leads v ss s'.world ∧ processed ss = []) ∧
        (e ≠ .process → processed answer = []) ∧
        (Looks s.stack e → (s'.stack.stopped = true ↔
          .shutdown ∈ es ++ [e] ∧ ∀ i ∈ s'.stack.modules, M.isStopped i s'.world = true)) ∧
        (¬ Looks s.stack e → s'.stack.stopped = s.stack.stopped)) ∧
    ∀ es : Nat → Event ι, (∃ n, es n = .shutdown) → (∀ n, ∃ m, n ≤ m ∧ es m = .process) →
      (∀ n i v, .shutdown i v ∈ calls M self w (Lib.Run.first es n) →
        ∃ k, ∀ m, k ≤ (processed (calls M self w (Lib.Run.first es m))).count i →
          M.isStopped i (after M self w (Lib.Run.first es m)).world = true) →
      ∃ n, (after M self w (Lib.Run.first es n)).stack.stopped = true := by
  refine ⟨fun es => ⟨?_, asked_run es, fun hst => ?_, fun e => ⟨fun i v hv => ?_, ?_, ?_, fun he => ?_, fun he => ?_⟩⟩,
    fun es => comes_to_stop⟩
  · exact List.nodup_reverse.mp ((asked_run es).nodup (inv_run M self w es).distinct)
  · obtain ⟨hreq, hall⟩ := (inv_run M self w es).all_stopped hst
    exact ⟨(requested_run es).mp hreq, hall⟩
  · obtain ⟨hreq, hdeps⟩ := asked_step self (inv_run M self w es) hv
    rw [requested_run] at hreq
    exact ⟨by simpa [eq_comm] using hreq, hdeps⟩
  · rintro rfl
    rw [after_snoc]
    exact (inv_run M self w es).process
  · exact processed_of_ne (inv_run M self w es)
  · have hreq : (after M self w (es ++ [e])).stack.shutdownRequested = true ↔ .shutdown ∈ es ++ [e] := requested_run _
    rw [← hreq, after_snoc]
    exact stopped_iff self (inv_run M self w es) he
  · rw [after_snoc]
    exact (step_of_not_looks he).1

/-- Modules that stop when they are asked to. -/
def stopAtOnce : Modules Nat Bool where
  process _ w := w
  shutdown _ _ := true
  elapse w := w
  isStopped _ w := w
  process_stopped _ _ _ h := h
  shutdown_stopped _ _ _ _ := rfl
  elapse_stopped _ _ h := h

def askOne : Nat → Event Nat
  | 0 => .addModule 1
  | 1 => .shutdown
  | _ => .process

theorem askOne_stopped (n : Nat) :
    after stopAtOnce 0 false (Lib.Run.first askOne (n + 2)) =
        ⟨{ modules := [1], shutdownRequested := true, stopped := true }, true⟩ ∧
      calls stopAtOnce 0 false (Lib.Run.first askOne (n + 2)) = [.shutdown 1 false] := by
  induction n with
  | zero =>
      simp [Lib.Run.first, List.range_succ, askOne, after, calls, step, addModule, shutdown, advanceShutdown, stopAtOnce]
  | succ n ih =>
      rw [Lib.Run.first_succ, after_snoc, calls_snoc, ih.1, ih.2]
      exact ⟨rfl, rfl⟩

theorem dependents_first_askOne :
    ∃ n, (after stopAtOnce 0 false (Lib.Run.first askOne n)).stack.stopped = true := by
  refine (dependents_first stopAtOnce 0 false).2 askOne ⟨1, rfl⟩ (fun n => ⟨n + 2, by omega, rfl⟩) fun _ i _ _ =>
    ⟨1, fun m hm => ?_⟩
  rcases m with _ | _ | m
  · simp [calls] at hm
  · simp [calls, Lib.Run.first, askOne, step] at hm
  · rw [(askOne_stopped m).1]
    rfl

end LifecycleStack

end OptionX.Lifecycle
