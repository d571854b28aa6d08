import OptionX.Lifecycle.LifecycleStack

/-!
# Ordered shutdown

A shutdown goes down the list of modules: what lies beyond its cursor has stopped, and the modules it has asked are
those beyond the cursor and the current one at most.
-/

namespace OptionX.Lifecycle

variable {ι σ : Type}

def Call.processed? : Call ι σ → Option ι
  | .process i _ => some i
  | .shutdown _ _ => none

def Call.asked? : Call ι σ → Option ι
  | .process _ _ => none
  | .shutdown i _ => some i

/-- The modules that a list of calls processes, in order. -/
def processed (calls : List (Call ι σ)) : List ι := calls.filterMap Call.processed?

/-- The modules that it asks to shut down, in order. -/
def asked (calls : List (Call ι σ)) : List ι := calls.filterMap Call.asked?

@[simp] theorem processed_nil : processed ([] : List (Call ι σ)) = [] := rfl
@[simp] theorem asked_nil : asked ([] : List (Call ι σ)) = [] := rfl

@[simp] theorem processed_append (cs cs' : List (Call ι σ)) : processed (cs ++ cs') = processed cs ++ processed cs' :=
  List.filterMap_append

@[simp] theorem asked_append (cs cs' : List (Call ι σ)) : asked (cs ++ cs') = asked cs ++ asked cs' :=
  List.filterMap_append

@[simp] theorem processed_process (i : ι) (w : σ) (cs : List (Call ι σ)) :
    processed (.process i w :: cs) = i :: processed cs := rfl

@[simp] theorem processed_shutdown (i : ι) (w : σ) (cs : List (Call ι σ)) :
    processed (.shutdown i w :: cs) = processed cs := rfl

@[simp] theorem asked_process (i : ι) (w : σ) (cs : List (Call ι σ)) : asked (.process i w :: cs) = asked cs := rfl

@[simp] theorem asked_shutdown (i : ι) (w : σ) (cs : List (Call ι σ)) :
    asked (.shutdown i w :: cs) = i :: asked cs := rfl

theorem mem_asked {i : ι} {v : σ} {cs : List (Call ι σ)} (h : .shutdown i v ∈ cs) : i ∈ asked cs :=
  List.mem_filterMap.mpr ⟨_, h, rfl⟩

theorem exists_of_mem_asked {i : ι} {cs : List (Call ι σ)} (h : i ∈ asked cs) : ∃ v, .shutdown i v ∈ cs := by
  obtain ⟨c, hc, hi⟩ := List.mem_filterMap.mp h
  cases c with
  | process j v => cases hi
  | shutdown j v =>
      cases hi
      exact ⟨v, hc⟩

/-- The calls that lead the modules from one state to another. -/
def Modules.Leads (M : Modules ι σ) : σ → List (Call ι σ) → σ → Prop
  | w, [], w' => w' = w
  | w, .process i v :: cs, w' => v = w ∧ M.Leads (M.process i w) cs w'
  | w, .shutdown i v :: cs, w' => v = w ∧ M.Leads (M.shutdown i w) cs w'

variable {M : Modules ι σ} {s : LifecycleStack ι} {w w' : σ} {i j : ι} {cs cs' : List (Call ι σ)} {is : List ι}

theorem Modules.Leads.append {v : σ} (h : M.Leads w cs v) (h' : M.Leads v cs' w') : M.Leads w (cs ++ cs') w' := by
  induction cs generalizing w with
  | nil =>
      obtain rfl : v = w := h
      exact h'
  | cons c cs ih =>
      cases c with
      | process i u => exact ⟨h.1, ih h.2⟩
      | shutdown i u => exact ⟨h.1, ih h.2⟩

/-- What has stopped stays stopped under calls. -/
theorem Modules.Leads.stopped (h : M.Leads w cs w') (hj : M.isStopped j w = true) : M.isStopped j w' = true := by
  induction cs generalizing w with
  | nil =>
      obtain rfl : w' = w := h
      exact hj
  | cons c cs ih =>
      cases c with
      | process i u => exact ih h.2 (M.process_stopped i j w hj)
      | shutdown i u => exact ih h.2 (M.shutdown_stopped i j w hj)

namespace LifecycleStack

/-! ## Processing -/

/-- What a pass over modules does. -/
structure Pass (M : Modules ι σ) (is : List ι) (w : σ) (r : σ × List (Call ι σ)) : Prop where
  leads : M.Leads w r.2 r.1
  order : (processed r.2).Sublist is
  quiet : asked r.2 = []
  running : ∀ i v, .process i v ∈ r.2 → M.isStopped i v = false
  skipped : ∀ i ∈ is, i ∉ processed r.2 → M.isStopped i r.1 = true

theorem processModules_pass (M : Modules ι σ) (is : List ι) (w : σ) : Pass M is w (processModules M is w) := by
  induction is generalizing w with
  | nil => exact ⟨rfl, .slnil, rfl, fun _ _ h => (by cases h), fun _ h => (by cases h)⟩
  | cons i is ih =>
      rw [processModules]
      split
      · next hstopped =>
        refine ⟨(ih w).leads, (ih w).order.cons i, (ih w).quiet, (ih w).running, fun j hj hskip => ?_⟩
        rcases List.mem_cons.mp hj with rfl | hj
        · exact (ih w).leads.stopped hstopped
        · exact (ih w).skipped j hj hskip
      · next hrunning =>
        have h := ih (M.process i w)
        refine ⟨⟨rfl, h.leads⟩, by simpa using h.order, by simpa using h.quiet, fun j v hj => ?_, fun j hj hskip => ?_⟩
        · rcases List.mem_cons.mp hj with heq | hj
          · cases heq
            exact Bool.eq_false_iff.mpr hrunning
          · exact h.running j v hj
        · simp only [processed_process, List.mem_cons, not_or] at hskip
          rcases List.mem_cons.mp hj with rfl | hj
          · exact absurd rfl hskip.1
          · exact h.skipped j hj hskip.2

/-! ## The way down -/

/-- The modules whose turn in the shutdown has come. -/
def reached (s : LifecycleStack ι) : List ι :=
  s.modules.drop (s.shutdownCursor - if s.currentShutdownRequested then 1 else 0)

/-- Where the shutdown stands. -/
structure Descent (M : Modules ι σ) (s : LifecycleStack ι) (w : σ) : Prop where
  requested : s.shutdownRequested = true
  bound : s.shutdownCursor ≤ s.modules.length
  current : s.currentShutdownRequested = true → 0 < s.shutdownCursor
  passed : ∀ i ∈ s.modules.drop s.shutdownCursor, M.isStopped i w = true

/-- The modules registered after `i` have stopped. -/
def DependentsStopped (M : Modules ι σ) (modules : List ι) (i : ι) (w : σ) : Prop :=
  ∃ pre post, modules = pre ++ i :: post ∧ ∀ j ∈ post, M.isStopped j w = true

/-- What one advance of the shutdown does. -/
structure Advance (M : Modules ι σ) (s : LifecycleStack ι) (w : σ)
    (r : LifecycleStack ι × σ × List (Call ι σ)) : Prop where
  modules : r.1.modules = s.modules
  descent : Descent M r.1 r.2.1
  leads : M.Leads w r.2.2 r.2.1
  quiet : processed r.2.2 = []
  down : ((asked r.2.2).reverse ++ s.reached).Sublist r.1.reached
  cursor : r.1.shutdownCursor ≤ s.shutdownCursor
  ordered : ∀ i v, .shutdown i v ∈ r.2.2 → DependentsStopped M s.modules i v
  ends : r.1.stopped = true ∧ r.1.shutdownCursor = 0 ∨
    ∃ i, s.modules[r.1.shutdownCursor - 1]? = some i ∧ M.isStopped i r.2.1 = false ∧ 0 < r.1.shutdownCursor ∧
      r.1.currentShutdownRequested = true ∧ r.1.stopped = s.stopped ∧
      (i ∈ asked r.2.2 ∨ r.1.shutdownCursor = s.shutdownCursor ∧ s.currentShutdownRequested = true)

/-- The stack after its cursor has gone one module down. -/
def next (s : LifecycleStack ι) : LifecycleStack ι :=
  { s with shutdownCursor := s.shutdownCursor - 1, currentShutdownRequested := false }

variable {n : Nat} {r : LifecycleStack ι × σ × List (Call ι σ)}

theorem drop_cursor (hn : s.shutdownCursor = n + 1) (hi : s.modules[n]? = some i) :
    s.modules.drop n = i :: s.modules.drop s.shutdownCursor := by
  obtain ⟨hlt, rfl⟩ := List.getElem?_eq_some_iff.mp hi
  rw [hn, List.drop_eq_getElem_cons hlt]

theorem reached_next (hn : s.shutdownCursor = n + 1) : s.next.reached = s.modules.drop n := by
  simp [reached, next, hn]

theorem reached_sublist (hn : s.shutdownCursor = n + 1) : s.reached.Sublist s.next.reached := by
  rw [reached_next hn, reached]
  exact List.drop_sublist_drop_left _ (by split <;> omega)

theorem Descent.next (h : Descent M s w) (hn : s.shutdownCursor = n + 1) (hi : s.modules[n]? = some i)
    (hw : M.Leads w cs w') (hstopped : M.isStopped i w' = true) : Descent M s.next w' := by
  refine ⟨h.requested, ?_, fun hc => (by cases hc), fun j hj => ?_⟩
  · have := h.bound
    simp only [LifecycleStack.next]
    omega
  · have hj : j ∈ s.modules.drop n := by simpa [LifecycleStack.next, hn] using hj
    rw [drop_cursor hn hi] at hj
    rcases List.mem_cons.mp hj with rfl | hj
    · exact hstopped
    · exact hw.stopped (h.passed j hj)

/-- The modules beyond the cursor are those registered after the current one. -/
theorem Descent.dependents (h : Descent M s w) (hn : s.shutdownCursor = n + 1) (hi : s.modules[n]? = some i) :
    DependentsStopped M s.modules i w := by
  refine ⟨s.modules.take n, s.modules.drop s.shutdownCursor, ?_, h.passed⟩
  rw [← drop_cursor hn hi, List.take_append_drop]

/-- The current module is found stopped. -/
theorem Advance.skip (hn : s.shutdownCursor = n + 1) (h : Advance M s.next w r) : Advance M s w r := by
  refine ⟨h.modules, h.descent, h.leads, h.quiet, ?_, ?_, h.ordered, ?_⟩
  · exact ((List.Sublist.refl _).append (reached_sublist hn)).trans h.down
  · exact h.cursor.trans (Nat.sub_le _ _)
  · rcases h.ends with hend | ⟨i, hi, hrun, hpos, hcur, hst, hask | ⟨-, hc⟩⟩
    · exact .inl hend
    · exact .inr ⟨i, hi, hrun, hpos, hcur, hst, .inl hask⟩
    · cases hc

/-- The current module is asked and stops at once. -/
theorem Advance.ask (hd : Descent M s w) (hn : s.shutdownCursor = n + 1) (hi : s.modules[n]? = some i)
    (hfresh : s.currentShutdownRequested = false) (h : Advance M s.next (M.shutdown i w) r) :
    Advance M s w (r.1, r.2.1, .shutdown i w :: r.2.2) := by
  refine ⟨h.modules, h.descent, ⟨rfl, h.leads⟩, by simpa using h.quiet, ?_, ?_, fun j v hj => ?_, ?_⟩
  · have hreached : s.next.reached = i :: s.reached := by
      rw [reached_next hn, drop_cursor hn hi]
      simp [reached, hfresh]
    simpa [hreached] using h.down
  · exact h.cursor.trans (Nat.sub_le _ _)
  · rcases List.mem_cons.mp hj with heq | hj
    · cases heq
      exact hd.dependents hn hi
    · exact h.ordered j v hj
  · rcases h.ends with hend | ⟨j, hj, hrun, hpos, hcur, hst, hask | ⟨-, hc⟩⟩
    · exact .inl hend
    · exact .inr ⟨j, hj, hrun, hpos, hcur, hst, .inl (List.mem_cons_of_mem _ hask)⟩
    · cases hc

/-- The current module is asked and goes on for now. -/
theorem Advance.wait (hd : Descent M s w) (hn : s.shutdownCursor = n + 1) (hi : s.modules[n]? = some i)
    (hfresh : s.currentShutdownRequested = false) (hrun : M.isStopped i (M.shutdown i w) = false) :
    Advance M s w ({ s with currentShutdownRequested := true }, M.shutdown i w, [.shutdown i w]) := by
  refine ⟨rfl, ⟨hd.requested, hd.bound, fun _ => by simp [hn], fun j hj => ?_⟩, ⟨rfl, rfl⟩, rfl, ?_, le_rfl,
    fun j v hj => ?_, ?_⟩
  · exact M.shutdown_stopped i j w (hd.passed j hj)
  · have hdrop := drop_cursor hn hi
    simp only [asked_shutdown, asked_nil, List.reverse_singleton, List.singleton_append, reached, hfresh, hn,
      Bool.false_eq_true, if_false, if_true, Nat.sub_zero, Nat.add_sub_cancel] at hdrop ⊢
    rw [hdrop]
  · obtain ⟨rfl, rfl⟩ : j = i ∧ v = w := by simpa using hj
    exact hd.dependents hn hi
  · exact .inr ⟨i, by simpa [hn] using hi, hrun, by simp [hn], rfl, rfl, .inl (by simp)⟩

theorem advanceShutdown_advance (hd : Descent M s w) : Advance M s w (s.advanceShutdown M w) := by
  fun_induction advanceShutdown M s w with
  | case1 s w hn =>
      refine ⟨rfl, ⟨hd.requested, by simp [hn], fun hc => ?_, hd.passed⟩, rfl, rfl, .refl _, le_rfl,
        fun _ _ h => (by cases h), .inl ⟨rfl, hn⟩⟩
      exact hd.current hc
  | case2 s w n hn next hnone ih =>
      have := List.getElem?_eq_none_iff.mp hnone
      have := hd.bound
      omega
  | case3 s w n hn next i hi hstopped ih =>
      have hnext : s.next = next := by simp [LifecycleStack.next, next, hn]
      rw [← hnext] at ih ⊢
      exact (ih (hd.next hn hi (show M.Leads w [] w from rfl) hstopped)).skip hn
  | case4 s w n hn i hi hrunning hcurrent =>
      exact ⟨rfl, hd, rfl, rfl, .refl _, le_rfl, fun _ _ h => (by cases h),
        .inr ⟨i, by simpa [hn] using hi, Bool.eq_false_iff.mpr hrunning, by simp [hn], hcurrent, rfl, .inr ⟨rfl, hcurrent⟩⟩⟩
  | case5 s w n hn next i hi hrunning hfresh asked r ih =>
      have hnext : s.next = next := by simp [LifecycleStack.next, next, hn]
      have hfresh := Bool.eq_false_iff.mpr hfresh
      by_cases hstops : M.isStopped i asked = true
      · have hr : r = advanceShutdown M next asked := dif_pos hstops
        rw [← hnext] at ih hr
        rw [hr]
        exact (ih (hd.next hn hi (show M.Leads w [.shutdown i w] asked from ⟨rfl, rfl⟩) hstops)).ask hd hn hi hfresh
      · have hr : r = ({ s with currentShutdownRequested := true }, asked, []) := dif_neg hstops
        rw [hr]
        exact .wait hd hn hi hfresh (Bool.eq_false_iff.mpr hstops)

/-! ## Runs -/

/-- What holds of a stack and its modules in every run; `calls` are the calls that the stack has made. -/
structure Inv (M : Modules ι σ) (calls : List (Call ι σ)) (s : LifecycleStack ι) (w : σ) : Prop where
  distinct : s.modules.Nodup
  idle : s.shutdownRequested = false → s.stopped = false ∧ s.currentShutdownRequested = false ∧ asked calls = []
  descent : s.shutdownRequested = true → Descent M s w
  ended : s.shutdownRequested = true → (s.stopped = true ↔ s.shutdownCursor = 0)
  down : s.shutdownRequested = true → (asked calls).reverse.Sublist s.reached
  current : s.shutdownRequested = true → s.stopped = false →
    ∃ i, s.modules[s.shutdownCursor - 1]? = some i ∧ i ∈ asked calls ∧ s.currentShutdownRequested = true

theorem Inv.initial (w : σ) : Inv M [] {} w :=
  ⟨.nil, fun _ => ⟨rfl, rfl, rfl⟩, fun h => (by cases h), fun h => (by cases h), fun h => (by cases h),
    fun h => (by cases h)⟩

theorem Descent.leads (h : Descent M s w) (hw : M.Leads w cs w') : Descent M s w' :=
  { h with passed := fun i hi => hw.stopped (h.passed i hi) }

/-- An advance of the shutdown leads to a state with the invariant. -/
theorem Advance.inv (hr : Advance M s w r) (hdistinct : s.modules.Nodup) (hrunning : s.stopped = false)
    (hdown : (asked cs).reverse.Sublist s.reached)
    (hcurrent : s.currentShutdownRequested = true → ∃ i, s.modules[s.shutdownCursor - 1]? = some i ∧ i ∈ asked cs) :
    Inv M (cs ++ r.2.2) r.1 r.2.1 := by
  refine ⟨hr.modules ▸ hdistinct, fun hidle => ?_, fun _ => hr.descent, fun _ => ?_, fun _ => ?_, fun _ hrun => ?_⟩
  · rw [hr.descent.requested] at hidle
    cases hidle
  · rcases hr.ends with ⟨hst, hcur⟩ | ⟨i, -, -, hpos, -, hst, -⟩
    · simp [hst, hcur]
    · simp [hst, hrunning, hpos.ne']
  · have := (hdown.append_left (asked r.2.2).reverse).trans hr.down
    simpa using this
  · rcases hr.ends with ⟨hst, -⟩ | ⟨i, hi, -, -, hcur, -, hask⟩
    · rw [hst] at hrun
      cases hrun
    · refine ⟨i, hr.modules ▸ hi, ?_, hcur⟩
      rcases hask with hask | ⟨hsame, hwas⟩
      · simp [hask]
      · obtain ⟨j, hj, hasked⟩ := hcurrent hwas
        rw [← hsame] at hj
        obtain rfl : j = i := Option.some.inj (hj.symm.trans hi)
        simp [hasked]

/-- After an advance the stack has stopped exactly when all its modules have. -/
theorem Advance.stopped_iff (hr : Advance M s w r) (hrunning : s.stopped = false) :
    r.1.stopped = true ↔ ∀ i ∈ r.1.modules, M.isStopped i r.2.1 = true := by
  rcases hr.ends with ⟨hst, hcur⟩ | ⟨i, hi, hrun, -, -, hst, -⟩
  · have := hr.descent.passed
    rw [hcur, List.drop_zero] at this
    exact iff_of_true hst this
  · refine iff_of_false (by simp [hst, hrunning]) fun hall => ?_
    have := hall i (hr.modules ▸ List.mem_of_getElem? hi)
    rw [hrun] at this
    cases this

/-- The state before the first advance. -/
theorem Descent.start (hidle : s.currentShutdownRequested = false) (w : σ) :
    Descent M { s with shutdownRequested := true, shutdownCursor := s.modules.length } w :=
  ⟨rfl, le_rfl, fun h => (by rw [hidle] at h; cases h), fun i hi => (by simp at hi)⟩

/-- A stack that has stopped was asked to, and all its modules have stopped. -/
theorem Inv.all_stopped (h : Inv M cs s w) (hst : s.stopped = true) :
    s.shutdownRequested = true ∧ ∀ i ∈ s.modules, M.isStopped i w = true := by
  have hreq : s.shutdownRequested = true := by
    cases hr : s.shutdownRequested with
    | false => exact absurd (h.idle hr).1 (by simp [hst])
    | true => rfl
  have hpassed := (h.descent hreq).passed
  rw [(h.ended hreq).mp hst, List.drop_zero] at hpassed
  exact ⟨hreq, hpassed⟩

variable [DecidableEq ι] {self : ι} {calls : List (Call ι σ)} {run : Run ι σ}

theorem Inv.addModule (h : Inv M calls s w) (module : ι) : Inv M calls (s.addModule self module).1 w := by
  simp only [LifecycleStack.addModule]
  split
  · exact h
  next hc =>
  have hidle : s.shutdownRequested = false := by
    cases hr : s.shutdownRequested <;> simp [hr] at hc ⊢
  split
  · exact h
  next hnew =>
  have hidle' : ¬ s.shutdownRequested = true := by simp [hidle]
  refine ⟨?_, h.idle, fun hr => absurd hr hidle', fun hr => absurd hr hidle', fun hr => absurd hr hidle',
    fun hr => absurd hr hidle'⟩
  exact List.nodup_append.mpr ⟨h.distinct, List.nodup_singleton _, fun i hi j hj => by
    rw [List.mem_singleton.mp hj]
    rintro rfl
    exact hnew hi⟩

theorem Inv.step (h : Inv M calls run.stack run.world) (e : Event ι) :
    Inv M (calls ++ (step M self run e).2) (step M self run e).1.stack (step M self run e).1.world := by
  cases e with
  | addModule module => simpa [LifecycleStack.step] using h.addModule module
  | process =>
      simp only [LifecycleStack.step, process]
      split
      · simpa using h
      next hrunning =>
      have hrunning := Bool.eq_false_iff.mpr hrunning
      have hpass := processModules_pass M run.stack.turn run.world
      split
      · next hreq =>
        have hadv := advanceShutdown_advance ((h.descent hreq).leads hpass.leads)
        have hdown : (asked (calls ++ (processModules M run.stack.turn run.world).2)).reverse.Sublist run.stack.reached := by
          simpa [hpass.quiet] using h.down hreq
        have hinv := hadv.inv h.distinct hrunning hdown fun _ => by
            obtain ⟨i, hi, hasked, -⟩ := h.current hreq hrunning
            exact ⟨i, hi, by simp [hasked]⟩
        simpa using hinv
      · next hidle =>
        obtain ⟨hst, hcur, hasked⟩ := h.idle (by simpa using hidle)
        exact ⟨h.distinct, fun _ => ⟨hst, hcur, by simp [hasked, hpass.quiet]⟩, fun hr => absurd hr hidle,
          fun hr => absurd hr hidle, fun hr => absurd hr hidle, fun hr => absurd hr hidle⟩
  | shutdown =>
      simp only [LifecycleStack.step, shutdown]
      split
      · simpa using h
      next hc =>
      have hc : run.stack.stopped = false ∧ run.stack.shutdownRequested = false := by simpa using hc
      obtain ⟨hst, hcur, hasked⟩ := h.idle hc.2
      have hadv := advanceShutdown_advance (Descent.start hcur run.world (M := M))
      exact hadv.inv h.distinct hst (by simp [hasked]) fun hr => by simp [hcur] at hr
  | elapse =>
      simp only [LifecycleStack.step, List.append_nil]
      exact { h with
        descent := fun hr => { h.descent hr with
          passed := fun i hi => M.elapse_stopped i _ ((h.descent hr).passed i hi) } }

/-- What `process` does: it processes the modules that run, in order, and then may ask some to shut down. -/
theorem Inv.process (h : Inv M calls s w) :
    ∃ ps v ss, (s.process M w).2.2 = ps ++ ss ∧ Pass M s.modules w (v, ps) ∧ M.Leads v ss (s.process M w).2.1 ∧
      processed ss = [] := by
  have hpass := processModules_pass M s.turn w
  have hall : s.stopped = false → Pass M s.modules w (processModules M s.turn w) := fun _ =>
    { hpass with
      order := hpass.order.trans (List.take_sublist _ _)
      skipped := fun i hi hskip => by
        by_cases hturn : i ∈ s.turn
        · exact hpass.skipped i hturn hskip
        · cases hreq : s.shutdownRequested with
          | false => simp [turn, hreq, hi] at hturn
          | true =>
              have hsplit := List.take_append_drop s.shutdownCursor s.modules
              rw [← hsplit] at hi
              rcases List.mem_append.mp hi with hi | hi
              · simp [turn, hreq, hi] at hturn
              · exact hpass.leads.stopped ((h.descent hreq).passed i hi) }
  simp only [LifecycleStack.process]
  split
  · next hstopped =>
    have hreq : s.shutdownRequested = true := by
      cases hr : s.shutdownRequested with
      | false => exact absurd (h.idle hr).1 (by simp [hstopped])
      | true => rfl
    refine ⟨[], w, [], rfl, ⟨rfl, List.nil_sublist _, rfl, fun _ _ hc => (by cases hc), fun i hi _ => ?_⟩, rfl, rfl⟩
    have hpassed := (h.descent hreq).passed
    rw [(h.ended hreq).mp hstopped, List.drop_zero] at hpassed
    exact hpassed i hi
  next hrunning =>
  split
  · next hreq =>
    have hadv := advanceShutdown_advance ((h.descent hreq).leads hpass.leads)
    exact ⟨_, _, _, rfl, hall (by simpa using hrunning), hadv.leads, hadv.quiet⟩
  · exact ⟨_, _, [], (List.append_nil _).symm, hall (by simpa using hrunning), rfl, rfl⟩

/-- The calls that look at the modules. -/
def Looks (s : LifecycleStack ι) (e : Event ι) : Prop :=
  e = .process ∨ e = .shutdown ∧ s.shutdownRequested = false

/-- A look of a running stack at its modules ends in an advance, if a shutdown has been requested. -/
theorem look_advances (self : ι) (h : Inv M calls run.stack run.world) {e : Event ι} (he : Looks run.stack e)
    (hrun : run.stack.stopped = false) (hreq : run.stack.shutdownRequested = true ∨ e = .shutdown) :
    ∃ s w ps r, Advance M s w r ∧ s.modules = run.stack.modules ∧ asked ps = [] ∧
      step M self run e = (⟨r.1, r.2.1⟩, ps ++ r.2.2) := by
  rcases he with rfl | ⟨rfl, hidle⟩
  · have hreq : run.stack.shutdownRequested = true := hreq.resolve_right (by simp)
    have hpass := processModules_pass M run.stack.turn run.world
    exact ⟨_, _, _, _, advanceShutdown_advance ((h.descent hreq).leads hpass.leads), rfl, hpass.quiet,
      by simp [step, process, hrun, hreq]⟩
  · obtain ⟨-, hcur, -⟩ := h.idle hidle
    exact ⟨_, _, [], _, advanceShutdown_advance (Descent.start hcur run.world), rfl, rfl,
      by simp [step, shutdown, hrun, hidle]⟩

/-- Any other call asks no module and stops nothing. -/
theorem step_of_not_looks {e : Event ι} (he : ¬ Looks run.stack e) :
    (step M self run e).1.stack.stopped = run.stack.stopped ∧ (step M self run e).2 = [] := by
  cases e with
  | addModule module =>
      simp only [step, addModule, and_true]
      split
      · rfl
      · split <;> rfl
  | process => exact absurd (.inl rfl) he
  | shutdown =>
      have hreq : run.stack.shutdownRequested = true := by
        cases hr : run.stack.shutdownRequested with
        | false => exact absurd (.inr ⟨rfl, hr⟩) he
        | true => rfl
      simp [step, shutdown, hreq]
  | elapse => exact ⟨rfl, rfl⟩

theorem requested_step (self : ι) (h : Inv M calls run.stack run.world) (e : Event ι) :
    (step M self run e).1.stack.shutdownRequested = true ↔ run.stack.shutdownRequested = true ∨ e = .shutdown := by
  by_cases hadv : Looks run.stack e ∧ run.stack.stopped = false ∧ (run.stack.shutdownRequested = true ∨ e = .shutdown)
  · obtain ⟨s, w, ps, r, hr, -, -, hstep⟩ := look_advances self h hadv.1 hadv.2.1 hadv.2.2
    exact iff_of_true (by simpa [hstep] using hr.descent.requested) hadv.2.2
  · cases e with
    | addModule module =>
        simp only [step, addModule, reduceCtorEq, or_false]
        split
        · rfl
        · split <;> rfl
    | process =>
        cases hst : run.stack.stopped with
        | true => simp [step, process, hst]
        | false =>
            have hidle : run.stack.shutdownRequested = false := by simpa [Looks, hst] using hadv
            simp [step, process, hst, hidle]
    | shutdown =>
        have hreq : run.stack.shutdownRequested = true := by
          cases hst : run.stack.stopped with
          | true => exact (h.all_stopped hst).1
          | false => simpa [Looks, hst] using hadv
        simp [step, shutdown, hreq]
    | elapse => simp [step]

/-- After a look the current module of a shutdown that goes on still runs. -/
theorem current_running (self : ι) (h : Inv M calls run.stack run.world) {e : Event ι} (he : Looks run.stack e)
    (hreq : (step M self run e).1.stack.shutdownRequested = true)
    (hst : (step M self run e).1.stack.stopped = false) :
    ∃ i, (step M self run e).1.stack.modules[(step M self run e).1.stack.shutdownCursor - 1]? = some i ∧
      M.isStopped i (step M self run e).1.world = false := by
  have hreq := (requested_step self h e).mp hreq
  cases hrun : run.stack.stopped with
  | true =>
      have hwas := (h.all_stopped hrun).1
      rcases he with rfl | ⟨-, hidle⟩
      · simp [step, process, hrun] at hst
      · rw [hwas] at hidle
        cases hidle
  | false =>
      obtain ⟨s, w, ps, r, hr, -, -, hstep⟩ := look_advances self h he hrun hreq
      rw [hstep] at hst ⊢
      rcases hr.ends with ⟨hstopped, -⟩ | ⟨i, hi, hrun, -⟩
      · rw [hstopped] at hst
        cases hst
      · exact ⟨i, hr.modules ▸ hi, hrun⟩

/-- A look leaves the stack stopped exactly when it was asked to and all its modules have stopped. -/
theorem stopped_iff (self : ι) (h : Inv M calls run.stack run.world) {e : Event ι} (he : Looks run.stack e) :
    (step M self run e).1.stack.stopped = true ↔ (step M self run e).1.stack.shutdownRequested = true ∧
      ∀ i ∈ (step M self run e).1.stack.modules, M.isStopped i (step M self run e).1.world = true := by
  refine ⟨(h.step e).all_stopped, fun ⟨hreq, hall⟩ => ?_⟩
  by_contra hst
  obtain ⟨i, hi, hrun⟩ := current_running self h he hreq (Bool.eq_false_iff.mpr hst)
  rw [hall i (List.mem_of_getElem? hi)] at hrun
  cases hrun

/-- A module is asked only after the stack has been, and when the modules registered after it have stopped. -/
theorem asked_step (self : ι) (h : Inv M calls run.stack run.world) {e : Event ι} {v : σ}
    (hi : .shutdown i v ∈ (step M self run e).2) :
    (run.stack.shutdownRequested = true ∨ e = .shutdown) ∧ DependentsStopped M run.stack.modules i v := by
  have hlooks : Looks run.stack e := by
    by_contra hlooks
    rw [(step_of_not_looks hlooks).2] at hi
    cases hi
  cases hrun : run.stack.stopped with
  | true =>
      have hwas := (h.all_stopped hrun).1
      rcases hlooks with rfl | ⟨-, hidle⟩
      · simp [step, process, hrun] at hi
      · rw [hwas] at hidle
        cases hidle
  | false =>
      by_cases hreq : run.stack.shutdownRequested = true ∨ e = .shutdown
      · obtain ⟨s, w, ps, r, hr, hmodules, hquiet, hstep⟩ := look_advances self h hlooks hrun hreq
        rw [hstep] at hi
        rcases List.mem_append.mp hi with hi | hi
        · have := mem_asked hi
          rw [hquiet] at this
          cases this
        · exact ⟨hreq, hmodules ▸ hr.ordered i v hi⟩
      · obtain rfl : e = .process := hlooks.resolve_right fun hc => hreq (.inr hc.1)
        have hidle : run.stack.shutdownRequested = false := by simpa using hreq
        simp only [step, process, hrun, hidle, Bool.false_eq_true, if_false] at hi
        have := mem_asked hi
        rw [(processModules_pass M run.stack.turn run.world).quiet] at this
        cases this

/-- A shutdown that goes on keeps the modules, and its cursor never goes back. -/
theorem descent_step (self : ι) (h : Inv M calls run.stack run.world) (hreq : run.stack.shutdownRequested = true)
    (hrun : run.stack.stopped = false) (e : Event ι) :
    (step M self run e).1.stack.modules = run.stack.modules ∧
      (step M self run e).1.stack.shutdownCursor ≤ run.stack.shutdownCursor := by
  cases e with
  | addModule module => simp [step, addModule, hreq]
  | process =>
      simp only [step, process, hrun, hreq, Bool.false_eq_true, if_false, if_true]
      have hpass := processModules_pass M run.stack.turn run.world
      have hadv := advanceShutdown_advance ((h.descent hreq).leads hpass.leads)
      exact ⟨hadv.modules, hadv.cursor⟩
  | shutdown => simp [step, shutdown, hreq]
  | elapse => exact ⟨rfl, le_rfl⟩

/-- A module that still runs after a call of `process` was processed by it. -/
theorem processed_step (self : ι) (h : Inv M calls run.stack run.world) (hi : i ∈ run.stack.modules)
    (hrun : M.isStopped i (step M self run .process).1.world = false) :
    i ∈ processed (step M self run .process).2 := by
  obtain ⟨ps, v, ss, hcalls, hpass, hleads, -⟩ := h.process
  simp only [step] at hrun ⊢
  rw [hcalls, processed_append]
  refine List.mem_append_left _ ?_
  by_contra hskip
  rw [hleads.stopped (hpass.skipped i hi hskip)] at hrun
  cases hrun

/-- Only `process` processes. -/
theorem processed_of_ne (h : Inv M calls run.stack run.world) {e : Event ι} (he : e ≠ .process) :
    processed (step M self run e).2 = [] := by
  cases e with
  | addModule module => rfl
  | process => exact absurd rfl he
  | shutdown =>
      simp only [step, shutdown]
      split
      · rfl
      next hc =>
      have hc : run.stack.stopped = false ∧ run.stack.shutdownRequested = false := by simpa using hc
      exact (advanceShutdown_advance (Descent.start (h.idle hc.2).2.1 run.world)).quiet
  | elapse => rfl

end LifecycleStack

end OptionX.Lifecycle
