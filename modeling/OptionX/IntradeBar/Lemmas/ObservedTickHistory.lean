import OptionX.IntradeBar.ObservedTickHistory
import OptionX.Lib.Run

/-!
# What the archive of observed ticks retains

What a prune leaves, and from that what any run retains; the coverage of a range; the estimate of the clock.
-/

namespace OptionX.IntradeBar

open Lib.Machine (uint64Max int64Min int64Max)
open Lib.StableSort (sortOn)

variable {P V : Type}

/-! ## The prune by size -/

theorem eraseOldest_spec {items : List (Tick P V)} (h : items ≠ []) :
    ∃ before oldest after, items = before ++ oldest :: after ∧ eraseOldest items = before ++ after ∧
      ∀ tick ∈ items, oldest.timeMs ≤ tick.timeMs := by
  obtain ⟨least, hleast⟩ : ∃ least, (items.map (·.timeMs)).min? = some least := by
    rw [← Option.isSome_iff_exists, List.isSome_min?_iff]
    simpa using h
  obtain ⟨hmem, hle⟩ := List.min?_eq_some_iff.mp hleast
  obtain ⟨tick, htick, htime⟩ := List.mem_map.mp hmem
  obtain ⟨oldest, before, after, -, hp, hsplit, herase⟩ :=
    List.exists_of_eraseP (p := fun t : Tick P V => t.timeMs == least) htick (by simpa using htime)
  refine ⟨before, oldest, after, hsplit, by rw [eraseOldest, hleast]; exact herase, fun tick htick => ?_⟩
  rw [beq_iff_eq.mp hp]
  exact hle _ (List.mem_map_of_mem htick)

/-- What is left after so many erasures of the oldest. -/
structure Shrunk (n : Nat) (items kept : List (Tick P V)) : Prop where
  sublist : kept.Sublist items
  length : kept.length + n = items.length
  older : ∀ tick ∈ items, tick ∈ kept ∨ ∀ other ∈ kept, tick.timeMs ≤ other.timeMs
  newer : ∀ time count, count ≤ kept.length → count ≤ items.countP (time ≤ ·.timeMs) →
    count ≤ kept.countP (time ≤ ·.timeMs)

theorem eraseOldest_shrunk {items : List (Tick P V)} (h : items ≠ []) : Shrunk 1 items (eraseOldest items) := by
  obtain ⟨before, oldest, after, rfl, herase, hle⟩ := eraseOldest_spec h
  rw [herase]
  have hrest : ∀ {tick}, tick ∈ before ++ after → tick ∈ before ++ oldest :: after := by
    intro tick htick
    simp only [List.mem_append, List.mem_cons] at htick ⊢
    tauto
  constructor
  · simp
  · simp only [List.length_append, List.length_cons]
    omega
  · intro tick htick
    simp only [List.mem_append, List.mem_cons] at htick
    rcases htick with hb | rfl | ha
    · exact .inl (List.mem_append_left _ hb)
    · exact .inr fun other hother => hle other (hrest hother)
    · exact .inl (List.mem_append_right _ ha)
  · intro time count hlength hcount
    by_cases hold : time ≤ oldest.timeMs
    · have hall : (before ++ after).countP (time ≤ ·.timeMs) = (before ++ after).length := by
        rw [List.countP_eq_length]
        exact fun tick htick => decide_eq_true (hold.trans (hle tick (hrest htick)))
      rwa [hall]
    · have hsame : (before ++ oldest :: after).countP (time ≤ ·.timeMs) =
          (before ++ after).countP (time ≤ ·.timeMs) := by
        simp [List.countP_append, hold]
      rwa [← hsame]

theorem Shrunk.trans {n m : Nat} {items middle kept : List (Tick P V)} (h : Shrunk n items middle)
    (h' : Shrunk m middle kept) : Shrunk (n + m) items kept where
  sublist := h'.sublist.trans h.sublist
  length := by
    have := h.length
    have := h'.length
    omega
  older tick htick := by
    rcases h.older tick htick with hmem | hle
    · exact h'.older tick hmem
    · exact .inr fun other hother => hle other (h'.sublist.subset hother)
  newer time count hlength hcount :=
    have hmiddle : kept.length ≤ middle.length := h'.sublist.length_le
    h'.newer time count hlength (h.newer time count (hlength.trans hmiddle) hcount)

theorem iterate_eraseOldest (n : Nat) {items : List (Tick P V)} (h : n ≤ items.length) :
    Shrunk n items (eraseOldest^[n] items) := by
  induction n generalizing items with
  | zero => exact ⟨.refl _, rfl, fun tick htick => .inl htick, fun time count _ hcount => hcount⟩
  | succ n ih =>
      have hne : items ≠ [] := by
        rintro rfl
        simp at h
      have hone := eraseOldest_shrunk hne
      have hlength := hone.length
      rw [Function.iterate_succ_apply, Nat.add_comm n 1]
      exact hone.trans (ih (by omega))

/-! ## The prune -/

section

variable {options : IntradeObservedTickHistoryOptions} {items middle kept : List (Tick P V)}

/-- A tick of this time cannot be retained any more: enough others are no older, or it is too far behind the newest. -/
def OutOfReach (options : IntradeObservedTickHistoryOptions) (items : List (Tick P V)) (time : Nat) : Prop :=
  options.maxItemsPerSymbol ≤ items.countP (time ≤ ·.timeMs) ∨
    (options.maxLookbackMs ≠ 0 ∧ ∃ newest ∈ items, time + options.maxLookbackMs < newest.timeMs)

theorem OutOfReach.mono {time : Nat} (h : OutOfReach options kept time) (hsub : kept.Sublist items) :
    OutOfReach options items time := by
  rcases h with hcount | ⟨hlookback, newest, hmem, hlt⟩
  · exact .inl (hcount.trans hsub.countP_le)
  · exact .inr ⟨hlookback, newest, hsub.subset hmem, hlt⟩

/-- Nothing within reach is lost on the way from `items` to `kept`. -/
structure Forgets (options : IntradeObservedTickHistoryOptions) (items kept : List (Tick P V)) : Prop where
  sublist : kept.Sublist items
  dropped : ∀ tick ∈ items, tick ∈ kept ∨ OutOfReach options kept tick.timeMs
  outOfReach : ∀ time, OutOfReach options items time → OutOfReach options kept time

theorem Forgets.trans (h : Forgets options items middle) (h' : Forgets options middle kept) :
    Forgets options items kept where
  sublist := h'.sublist.trans h.sublist
  dropped tick htick := by
    rcases h.dropped tick htick with hmem | hout
    · exact h'.dropped tick hmem
    · exact .inr (h'.outOfReach _ hout)
  outOfReach time hout := h'.outOfReach time (h.outOfReach time hout)

theorem Shrunk.forgets (hmax : 0 < options.maxItemsPerSymbol)
    (h : Shrunk (items.length - options.maxItemsPerSymbol) items kept) : Forgets options items kept where
  sublist := h.sublist
  dropped tick htick := by
    rcases h.older tick htick with hmem | hle
    · exact .inl hmem
    · by_cases hfull : options.maxItemsPerSymbol ≤ items.length
      · have hlength := h.length
        have hall : kept.countP (tick.timeMs ≤ ·.timeMs) = kept.length :=
          List.countP_eq_length.mpr fun other hother => decide_eq_true (hle other hother)
        exact .inr (.inl (by omega))
      · have hlength := h.length
        rw [h.sublist.eq_of_length (by omega)]
        exact .inl htick
  outOfReach time hout := by
    have hlength := h.length
    rcases hout with hcount | ⟨hlookback, newest, hmem, hlt⟩
    · have : items.countP (time ≤ ·.timeMs) ≤ items.length := List.countP_le_length
      exact .inl (h.newer time _ (by omega) hcount)
    · have : 0 < items.length := List.length_pos_of_mem hmem
      obtain ⟨some, hsome⟩ := List.exists_mem_of_length_pos (by omega : 0 < kept.length)
      rcases h.older newest hmem with hkept | hle
      · exact .inr ⟨hlookback, newest, hkept, hlt⟩
      · exact .inr ⟨hlookback, some, hsome, hlt.trans_le (hle some hsome)⟩

theorem mem_recent {newest : Nat} {tick : Tick P V} :
    tick ∈ recent options newest items ↔ tick ∈ items ∧ newest ≤ tick.timeMs + options.maxLookbackMs := by
  simp only [recent, List.mem_filter, Bool.not_eq_true', decide_eq_false_iff_not, not_lt]
  refine and_congr_right fun _ => ?_
  split <;> omega

theorem recent_forgets {newest : Nat} (hnewest : (items.map (·.timeMs)).max? = some newest)
    (hlookback : options.maxLookbackMs ≠ 0) : Forgets options items (recent options newest items) := by
  obtain ⟨hmem, hle⟩ := List.max?_eq_some_iff.mp hnewest
  obtain ⟨top, htop, htime⟩ := List.mem_map.mp hmem
  have hkept : top ∈ recent options newest items := mem_recent.mpr ⟨htop, by omega⟩
  have hbehind : ∀ time, time + options.maxLookbackMs < newest →
      OutOfReach options (recent options newest items) time :=
    fun time hlt => .inr ⟨hlookback, top, hkept, by omega⟩
  constructor
  · exact List.filter_sublist
  · intro tick htick
    by_cases hrecent : newest ≤ tick.timeMs + options.maxLookbackMs
    · exact .inl (mem_recent.mpr ⟨htick, hrecent⟩)
    · exact .inr (hbehind _ (by omega))
  · intro time hout
    by_cases hrecent : newest ≤ time + options.maxLookbackMs
    · rcases hout with hcount | ⟨-, other, hother, hlt⟩
      · have hsame : (recent options newest items).countP (time ≤ ·.timeMs) = items.countP (time ≤ ·.timeMs) := by
          rw [recent, List.countP_filter]
          apply List.countP_congr
          intro tick _
          simp only [Bool.and_eq_true, decide_eq_true_eq, Bool.not_eq_true', decide_eq_false_iff_not, not_lt]
          split <;> omega
        exact .inl (hsame ▸ hcount)
      · have : other.timeMs ≤ newest := hle _ (List.mem_map_of_mem hother)
        omega
    · exact hbehind time (by omega)

/-! ## The prune -/

structure Pruned (options : IntradeObservedTickHistoryOptions) (items kept : List (Tick P V)) : Prop extends
    Forgets options items kept where
  bounded : kept.length ≤ options.maxItemsPerSymbol
  span : options.maxLookbackMs ≠ 0 →
    ∀ tick ∈ kept, ∀ other ∈ kept, tick.timeMs ≤ other.timeMs + options.maxLookbackMs

theorem prune_pruned (hmax : 0 < options.maxItemsPerSymbol) (items : List (Tick P V)) :
    Pruned options items (prune options items) := by
  have hshrunk : Shrunk _ items _ := iterate_eraseOldest _ (Nat.sub_le items.length options.maxItemsPerSymbol)
  have hforgets := hshrunk.forgets hmax
  have hlength := hshrunk.length
  unfold prune
  generalize eraseOldest^[items.length - options.maxItemsPerSymbol] items = kept at *
  cases hnewest : (kept.map (·.timeMs)).max? with
  | none =>
      have hnil : kept = [] := by simpa using List.max?_eq_none_iff.mp hnewest
      simp only [hnewest]
      exact { hforgets with
        bounded := by omega
        span := fun _ tick htick => by simp [hnil] at htick }
  | some newest =>
      simp only [hnewest]
      by_cases hlookback : options.maxLookbackMs = 0
      · rw [if_pos hlookback]
        exact { hforgets with
          bounded := by omega
          span := fun h => absurd hlookback h }
      · have hrecent := recent_forgets hnewest hlookback
        have hle := (List.max?_eq_some_iff.mp hnewest).2
        have hsub : (recent options newest kept).length ≤ kept.length := hrecent.sublist.length_le
        rw [if_neg hlookback]
        exact { hforgets.trans hrecent with
          bounded := by omega
          span := fun _ tick htick other hother => by
            have hother' := (mem_recent.mp hother).2
            have htick' := hle _ (List.mem_map_of_mem (mem_recent.mp htick).1)
            omega }

end

/-! ## What a symbol retains -/

section

variable [BEq P] [BEq V] {options : IntradeObservedTickHistoryOptions}

/-- The tick is retained, or a tick that is the same market observation. -/
def Represented (items : List (Tick P V)) (tick : Tick P V) : Prop :=
  ∃ stored ∈ items, stored = tick ∨ sameMarketObservation stored tick = true

theorem Represented.timeMs {items : List (Tick P V)} {tick : Tick P V} (h : Represented items tick) :
    ∃ stored ∈ items, stored.timeMs = tick.timeMs ∧ (stored = tick ∨ sameMarketObservation stored tick = true) := by
  obtain ⟨stored, hmem, hsame⟩ := h
  refine ⟨stored, hmem, ?_, hsame⟩
  rcases hsame with rfl | hsame
  · rfl
  · simp only [sameMarketObservation, Bool.and_eq_true, beq_iff_eq] at hsame
    exact hsame.2

theorem Represented.mono {items items' : List (Tick P V)} {tick : Tick P V} (h : Represented items tick)
    (hsub : items.Sublist items') : Represented items' tick := by
  obtain ⟨stored, hmem, hsame⟩ := h
  exact ⟨stored, hsub.subset hmem, hsame⟩

/-- What is retained of the ticks observed for one symbol. -/
structure Archived (options : IntradeObservedTickHistoryOptions) (observed items : List (Tick P V)) : Prop where
  sublist : items.Sublist observed
  distinct : items.Pairwise fun earlier later => sameMarketObservation earlier later = false
  kept : ∀ tick ∈ observed, tick.timeMs = 0 ∨ Represented items tick ∨ OutOfReach options items tick.timeMs

theorem Archived.nil : Archived options ([] : List (Tick P V)) [] where
  sublist := .refl _
  distinct := .nil
  kept tick htick := by cases htick

theorem recordTick_archived {observed : List (Tick P V)} {state : List (Tick P V) × ClockSamples}
    (h : Archived options observed state.1) (tick : Tick P V) :
    Archived options (observed ++ [tick]) (recordTick options state tick).1 := by
  unfold recordTick
  split
  · next hskip =>
    constructor
    · exact h.sublist.trans (List.sublist_append_left _ _)
    · exact h.distinct
    · intro other hother
      rcases List.mem_append.mp hother with hold | hnew
      · exact h.kept other hold
      · obtain rfl := List.mem_singleton.mp hnew
        rcases hskip with hzero | hcontains
        · exact .inl hzero
        · obtain ⟨stored, hmem, hsame⟩ := List.any_eq_true.mp hcontains
          exact .inr (.inl ⟨stored, hmem, .inr hsame⟩)
  · next htake =>
    have hsub : state.1.Sublist (state.1 ++ [tick]) := List.sublist_append_left _ _
    have hnew : ∀ stored ∈ state.1, sameMarketObservation stored tick = false := by
      intro stored hmem
      have : containsObservation state.1 tick = false := by simpa using (not_or.mp htake).2
      simpa using List.any_eq_false.mp this stored hmem
    constructor
    · exact h.sublist.append (.refl _)
    · rw [List.pairwise_append]
      refine ⟨h.distinct, List.pairwise_singleton _ _, fun stored hmem last hlast => ?_⟩
      obtain rfl := List.mem_singleton.mp hlast
      exact hnew stored hmem
    · intro other hother
      rcases List.mem_append.mp hother with hold | hnew
      · rcases h.kept other hold with hzero | hrep | hout
        · exact .inl hzero
        · exact .inr (.inl (hrep.mono hsub))
        · exact .inr (.inr (hout.mono hsub))
      · obtain rfl := List.mem_singleton.mp hnew
        exact .inr (.inl ⟨other, by simp, .inl rfl⟩)

theorem foldl_recordTick_archived (ticks : List (Tick P V)) {observed : List (Tick P V)}
    (state : List (Tick P V) × ClockSamples) (h : Archived options observed state.1) :
    Archived options (observed ++ ticks) (ticks.foldl (recordTick options) state).1 := by
  induction ticks generalizing observed state with
  | nil => simpa using h
  | cons tick ticks ih => simpa using ih _ (recordTick_archived h tick)

theorem Archived.prune {observed items : List (Tick P V)} (h : Archived options observed items)
    (hmax : 0 < options.maxItemsPerSymbol) : Archived options observed (prune options items) := by
  have hpruned := prune_pruned hmax items
  constructor
  · exact hpruned.sublist.trans h.sublist
  · exact h.distinct.sublist hpruned.sublist
  · intro tick htick
    rcases h.kept tick htick with hzero | hrep | hout
    · exact .inl hzero
    · obtain ⟨stored, hmem, htime, hsame⟩ := hrep.timeMs
      rcases hpruned.dropped stored hmem with hkept | hout
      · exact .inr (.inl ⟨stored, hkept, hsame⟩)
      · exact .inr (.inr (htime ▸ hout))
    · exact .inr (.inr (hpruned.outOfReach _ hout))

/-! ## Any run -/

def IntradeObservedTickHistory.retained (s : IntradeObservedTickHistory P V) (symbol : String) : List (Tick P V) :=
  ((s.symbols symbol).map (·.items)).getD []

/-- The ticks of a symbol in some batches, in the order of arrival. -/
def ticksOf (symbol : String) (batches : List (TickUpdateBatch P V)) : List (Tick P V) :=
  (batches.filter (·.symbol == symbol)).flatMap (·.items)

/-- The ticks of a symbol that a run recorded after its last clear. -/
def observed (symbol : String) (events : List (TickHistoryEvent P V)) : List (Tick P V) :=
  events.foldl (fun ticks event =>
    match event with
    | .record batches => ticks ++ ticksOf symbol batches
    | .clear => []) []

structure Retained (options : IntradeObservedTickHistoryOptions) (observed items : List (Tick P V)) : Prop extends
    Archived options observed items where
  bounded : items.length ≤ options.maxItemsPerSymbol
  span : options.maxLookbackMs ≠ 0 →
    ∀ tick ∈ items, ∀ other ∈ items, tick.timeMs ≤ other.timeMs + options.maxLookbackMs

theorem Retained.nil : Retained options ([] : List (Tick P V)) [] :=
  { Archived.nil with bounded := Nat.zero_le _, span := fun _ tick htick => by cases htick }

theorem recordBatch_retained (hmax : 0 < options.maxItemsPerSymbol) {symbol : String} (hsymbol : symbol ≠ "")
    {ticks : List (Tick P V)} {s : IntradeObservedTickHistory P V} (h : Retained options ticks (s.retained symbol))
    (batch : TickUpdateBatch P V) :
    Retained options (ticks ++ ticksOf symbol [batch]) ((recordBatch options s batch).retained symbol) := by
  by_cases hown : batch.symbol = symbol
  · subst hown
    have hnonempty : batch.symbol.isEmpty = false := by simpa using hsymbol
    have hitems : ((s.symbols batch.symbol).getD {}).items = s.retained batch.symbol := by
      unfold IntradeObservedTickHistory.retained
      cases s.symbols batch.symbol <;> rfl
    have harchived := foldl_recordTick_archived batch.items (s.retained batch.symbol, s.clock) h.toArchived
    have hpruned := prune_pruned hmax
      (batch.items.foldl (recordTick options) (s.retained batch.symbol, s.clock)).1
    have hafter : (recordBatch options s batch).retained batch.symbol =
        prune options (batch.items.foldl (recordTick options) (s.retained batch.symbol, s.clock)).1 := by
      simp [recordBatch, hnonempty, hitems, IntradeObservedTickHistory.retained]
    have hticks : ticksOf batch.symbol [batch] = batch.items := by simp [ticksOf]
    rw [hafter, hticks]
    exact { harchived.prune hmax with bounded := hpruned.bounded, span := hpruned.span }
  · have hticks : ticksOf symbol [batch] = [] := by simp [ticksOf, hown]
    have hafter : (recordBatch options s batch).retained symbol = s.retained symbol := by
      unfold recordBatch IntradeObservedTickHistory.retained
      split
      · rfl
      · simp [Function.update_of_ne (Ne.symm hown)]
    rwa [hafter, hticks, List.append_nil]

theorem record_retained (hmax : 0 < options.maxItemsPerSymbol) {symbol : String} (hsymbol : symbol ≠ "")
    (batches : List (TickUpdateBatch P V)) {ticks : List (Tick P V)} {s : IntradeObservedTickHistory P V}
    (h : Retained options ticks (s.retained symbol)) :
    Retained options (ticks ++ ticksOf symbol batches) ((s.record options batches).retained symbol) := by
  induction batches generalizing ticks s with
  | nil => simpa [ticksOf, IntradeObservedTickHistory.record] using h
  | cons batch batches ih =>
      have hcons : ticksOf symbol (batch :: batches) = ticksOf symbol [batch] ++ ticksOf symbol batches := by
        rw [← List.singleton_append, ticksOf, List.filter_append, List.flatMap_append]
        rfl
      rw [hcons, ← List.append_assoc]
      exact ih (recordBatch_retained hmax hsymbol h batch)

/-- Batches without a symbol are not recorded. -/
theorem exec_retained_empty (events : List (TickHistoryEvent P V)) :
    (Lib.Run.exec (IntradeObservedTickHistory.step options) {} events).retained "" = [] := by
  have hbatch : ∀ (s : IntradeObservedTickHistory P V) (batch : TickUpdateBatch P V),
      (recordBatch options s batch).retained "" = s.retained "" := by
    intro s batch
    unfold recordBatch
    split
    · rfl
    · next hnonempty =>
      have hne : batch.symbol ≠ "" := by simpa using hnonempty
      simp [IntradeObservedTickHistory.retained, Function.update_of_ne hne.symm]
  have hrecord : ∀ (batches : List (TickUpdateBatch P V)) (s : IntradeObservedTickHistory P V),
      (s.record options batches).retained "" = s.retained "" := by
    intro batches
    unfold IntradeObservedTickHistory.record
    induction batches with
    | nil => exact fun s => rfl
    | cons batch batches ih => exact fun s => (ih _).trans (hbatch s batch)
  induction events using List.reverseRecOn with
  | nil => rfl
  | append_singleton events event ih =>
      rw [Lib.Run.exec_append]
      cases event with
      | record batches => exact (hrecord batches _).trans ih
      | clear => rfl

/-- What is not retained is no newer than what is, or too far behind. -/
theorem Retained.left_out {ticks items : List (Tick P V)} (h : Retained options ticks items) {tick : Tick P V}
    (htick : tick ∈ ticks) : Represented items tick ∨ (∀ other ∈ items, tick.timeMs ≤ other.timeMs) ∨
      (options.maxLookbackMs ≠ 0 ∧ ∃ newest ∈ items, tick.timeMs + options.maxLookbackMs < newest.timeMs) := by
  rcases h.kept tick htick with hzero | hrep | hcount | hbehind
  · exact .inr (.inl fun other _ => by omega)
  · exact .inl hrep
  · have hall := List.countP_eq_length.mp (le_antisymm List.countP_le_length (h.bounded.trans hcount))
    exact .inr (.inl fun other hother => of_decide_eq_true (hall other hother))
  · exact .inr (.inr hbehind)

theorem exec_retained (hmax : 0 < options.maxItemsPerSymbol) {symbol : String} (hsymbol : symbol ≠ "")
    (events : List (TickHistoryEvent P V)) :
    Retained options (observed symbol events)
      ((Lib.Run.exec (IntradeObservedTickHistory.step options) {} events).retained symbol) := by
  induction events using List.reverseRecOn with
  | nil => exact Retained.nil
  | append_singleton events event ih =>
      rw [Lib.Run.exec_append]
      unfold observed at ih ⊢
      rw [List.foldl_append]
      cases event with
      | record batches => exact record_retained hmax hsymbol batches ih
      | clear => exact Retained.nil

end

/-! ## The coverage of a range -/

/-- Every sample of the grid from `expected` on has a tick. -/
def Covered (interval expected toTimeMs : Nat) (ticks : List (Tick P V)) : Prop :=
  ∀ time, expected ≤ time → time ≤ toTimeMs → interval ∣ time → ∃ tick ∈ ticks, tick.timeMs = time

theorem coverageFrom_covered {interval toTimeMs : Nat} (hinterval : 0 < interval) (hmax : toTimeMs ≤ uint64Max)
    (hto : interval ∣ toTimeMs) (fuel : Nat) {ticks : List (Tick P V)} {expected : Nat}
    (hsorted : ticks.Pairwise fun a b => a.timeMs ≤ b.timeMs) (hfrom : interval ∣ expected)
    (hle : expected ≤ toTimeMs) (hfuel : ticks.countP (expected ≤ ·.timeMs) < fuel) :
    ∃ complete, coverageFrom interval toTimeMs fuel ticks expected = some complete ∧
      (complete = true ↔ Covered interval expected toTimeMs ticks) := by
  induction fuel generalizing ticks expected with
  | zero => exact absurd hfuel (Nat.not_lt_zero _)
  | succ fuel ih =>
      have hlater : ∀ tick ∈ ticks, expected ≤ tick.timeMs →
          tick ∈ ticks.dropWhile fun tick => tick.timeMs < expected := by
        intro tick hmem hexpected
        rw [← List.takeWhile_append_dropWhile (p := fun tick : Tick P V => decide (tick.timeMs < expected)) (l := ticks)]
          at hmem
        rcases List.mem_append.mp hmem with hbefore | hafter
        · have hbefore := List.mem_takeWhile_imp hbefore
          simp only [decide_eq_true_eq] at hbefore
          omega
        · exact hafter
      have hsub : (ticks.dropWhile fun tick => tick.timeMs < expected).Sublist ticks := List.dropWhile_sublist _
      have hhead : ∀ tick rest, (ticks.dropWhile fun tick => tick.timeMs < expected) = tick :: rest →
          expected ≤ tick.timeMs := by
        intro tick rest heq
        have := List.head_dropWhile_not (fun tick : Tick P V => decide (tick.timeMs < expected)) (l := ticks)
          (by simp [heq])
        simpa [heq] using this
      unfold coverageFrom
      generalize (ticks.dropWhile fun tick => tick.timeMs < expected) = later at *
      cases later with
      | nil =>
          refine ⟨false, rfl, iff_of_false Bool.false_ne_true fun hcovered => ?_⟩
          obtain ⟨tick, hmem, htime⟩ := hcovered expected le_rfl hle hfrom
          exact absurd (hlater tick hmem htime.ge) List.not_mem_nil
      | cons tick rest =>
          have hexpected := hhead tick rest rfl
          have hrest := List.pairwise_cons.mp (hsorted.sublist hsub)
          have hfirst : ∀ other ∈ tick :: rest, tick.timeMs ≤ other.timeMs := by
            intro other hother
            rcases List.mem_cons.mp hother with rfl | hother
            · exact le_rfl
            · exact hrest.1 other hother
          dsimp only
          by_cases htime : tick.timeMs = expected
          · rw [if_neg (not_not_intro htime)]
            by_cases hlast : expected = toTimeMs
            · rw [if_pos hlast]
              refine ⟨true, rfl, iff_of_true rfl fun time hlo hhi _ => ⟨tick, hsub.subset List.mem_cons_self, ?_⟩⟩
              omega
            · have hnext : ∀ time, expected < time → interval ∣ time → expected + interval ≤ time := by
                intro time hlt hdvd
                have := Nat.le_of_dvd (Nat.sub_pos_of_lt hlt) (Nat.dvd_sub hdvd hfrom)
                omega
              have hstep := hnext toTimeMs (lt_of_le_of_ne hle hlast) hto
              have hguard : ¬ uint64Max - interval < expected :=
                Nat.not_lt.mpr (Nat.le_sub_of_add_le (hstep.trans hmax))
              have hcount : (tick :: rest).countP (expected + interval ≤ ·.timeMs) < fuel := by
                have hskip : ¬ expected + interval ≤ tick.timeMs := by omega
                have hfew : rest.countP (expected + interval ≤ ·.timeMs) ≤ rest.length := List.countP_le_length
                have hall : (tick :: rest).countP (expected ≤ ·.timeMs) = rest.length + 1 :=
                  List.countP_eq_length.mpr fun other hother =>
                    decide_eq_true (hexpected.trans (hfirst other hother))
                have hmany : (tick :: rest).countP (expected ≤ ·.timeMs) ≤ ticks.countP (expected ≤ ·.timeMs) :=
                  hsub.countP_le
                rw [List.countP_cons_of_neg (by simpa using hskip)]
                omega
              obtain ⟨complete, hcomplete, hiff⟩ := ih (hsorted.sublist hsub) (hfrom.add dvd_rfl) hstep hcount
              rw [if_neg hlast, if_neg hguard]
              refine ⟨complete, hcomplete, hiff.trans ⟨fun hcovered time hlo hhi hdvd => ?_, ?_⟩⟩
              · rcases hlo.eq_or_lt with rfl | hlt
                · exact ⟨tick, hsub.subset List.mem_cons_self, htime⟩
                · obtain ⟨other, hmem, hother⟩ := hcovered time (hnext time hlt hdvd) hhi hdvd
                  exact ⟨other, hsub.subset hmem, hother⟩
              · intro hcovered time hlo hhi hdvd
                obtain ⟨other, hmem, hother⟩ := hcovered time (by omega) hhi hdvd
                exact ⟨other, hlater other hmem (by omega), hother⟩
          · rw [if_pos htime]
            refine ⟨false, rfl, iff_of_false Bool.false_ne_true fun hcovered => ?_⟩
            obtain ⟨other, hmem, hother⟩ := hcovered expected le_rfl hle hfrom
            have := hfirst other (hlater other hmem hother.ge)
            omega

theorem hasCompleteCoverage_covered {options : IntradeObservedTickHistoryOptions}
    (hinterval : 0 < options.samplingIntervalMs) {fromTimeMs toTimeMs : Nat} (hle : fromTimeMs ≤ toTimeMs)
    (hmax : toTimeMs ≤ uint64Max) {ticks : List (Tick P V)}
    (hsorted : ticks.Pairwise fun a b => a.timeMs ≤ b.timeMs) {fuel : Nat} (hfuel : ticks.length < fuel) :
    ∃ complete, hasCompleteCoverage options fuel ticks fromTimeMs toTimeMs = some complete ∧
      (complete = true ↔ options.samplingIntervalMs ∣ fromTimeMs ∧ options.samplingIntervalMs ∣ toTimeMs ∧
        Covered options.samplingIntervalMs fromTimeMs toTimeMs ticks) := by
  unfold hasCompleteCoverage
  dsimp only
  by_cases haligned : options.samplingIntervalMs ∣ fromTimeMs ∧ options.samplingIntervalMs ∣ toTimeMs
  · obtain ⟨hfrom, hto⟩ := haligned
    obtain ⟨complete, hcomplete, hiff⟩ := coverageFrom_covered hinterval hmax hto fuel hsorted hfrom hle
      (List.countP_le_length.trans_lt hfuel)
    have hzero := Nat.mod_eq_zero_of_dvd hfrom
    have hzero' := Nat.mod_eq_zero_of_dvd hto
    rw [if_neg (by omega)]
    exact ⟨complete, hcomplete, by rw [hiff, and_iff_right hfrom, and_iff_right hto]⟩
  · have hoff : fromTimeMs % options.samplingIntervalMs ≠ 0 ∨ toTimeMs % options.samplingIntervalMs ≠ 0 := by
      rw [Nat.dvd_iff_mod_eq_zero, Nat.dvd_iff_mod_eq_zero] at haligned
      tauto
    rw [if_pos (.inr hoff)]
    exact ⟨false, rfl, iff_of_false Bool.false_ne_true fun h => haligned ⟨h.1, h.2.1⟩⟩

/-- What `fetch` says of a range: the retained ticks of each time, in the order of arrival, and whether no sample of
the grid is missing. -/
structure AnswersRange (options : IntradeObservedTickHistoryOptions) (items : List (Tick P V))
    (request : TickHistoryRequest) (result : TickHistoryResult P V) : Prop where
  success : result.success = true
  inOrder : result.sequence.ticks.Pairwise fun a b => a.timeMs ≤ b.timeMs
  ticks : ∀ time, result.sequence.ticks.filter (·.timeMs = time) =
    if request.fromTimeMs ≤ time ∧ time ≤ request.toTimeMs then items.filter (·.timeMs = time) else []
  complete : result.rangeComplete = true ↔
    options.samplingIntervalMs ∣ request.fromTimeMs ∧ options.samplingIntervalMs ∣ request.toTimeMs ∧
      Covered options.samplingIntervalMs request.fromTimeMs request.toTimeMs result.sequence.ticks

theorem IntradeObservedTickHistory.fetch_answers {options : IntradeObservedTickHistoryOptions} (hinterval : 0 < options.samplingIntervalMs)
    (s : IntradeObservedTickHistory P V) {request : TickHistoryRequest} (hrequest : request.valid = true)
    (hspan : options.maxLookbackMs = 0 ∨ request.toTimeMs - request.fromTimeMs ≤ options.maxLookbackMs)
    (hmax : request.toTimeMs ≤ uint64Max) {fuel : Nat} (hfuel : (s.retained request.symbol).length < fuel) :
    ∃ result, s.fetch options fuel request = some result ∧
      AnswersRange options (s.retained request.symbol) request result := by
  have hle : request.fromTimeMs ≤ request.toTimeMs := by
    simp only [TickHistoryRequest.valid, Bool.and_eq_true, decide_eq_true_eq] at hrequest
    exact hrequest.2
  unfold IntradeObservedTickHistory.fetch
  rw [hrequest, Bool.not_true, if_neg Bool.false_ne_true, if_neg (by omega)]
  cases hsymbol : s.symbols request.symbol with
  | none =>
      have hitems : s.retained request.symbol = [] := by simp [IntradeObservedTickHistory.retained, hsymbol]
      refine ⟨_, rfl, rfl, .nil, fun time => by simp [TickHistoryResult.ok, hitems], ?_⟩
      refine iff_of_false Bool.false_ne_true fun hcomplete => ?_
      obtain ⟨tick, hmem, -⟩ := hcomplete.2.2 request.fromTimeMs le_rfl hle hcomplete.1
      exact absurd hmem List.not_mem_nil
  | some history =>
      have hitems : s.retained request.symbol = history.items := by simp [IntradeObservedTickHistory.retained, hsymbol]
      rw [hitems] at hfuel ⊢
      dsimp only
      have hsorted := Lib.StableSort.sortOn_sorted (fun tick : Tick P V => tick.timeMs)
        (history.items.filter fun stored => request.fromTimeMs ≤ stored.timeMs ∧ stored.timeMs ≤ request.toTimeMs)
      have hlength : (Lib.StableSort.sortOn (fun tick : Tick P V => tick.timeMs) (history.items.filter fun stored =>
          request.fromTimeMs ≤ stored.timeMs ∧ stored.timeMs ≤ request.toTimeMs)).length < fuel := by
        rw [(Lib.StableSort.sortOn_perm _ _).length_eq]
        exact List.length_filter_le _ _ |>.trans_lt hfuel
      obtain ⟨complete, hcomplete, hiff⟩ := hasCompleteCoverage_covered hinterval hle hmax hsorted hlength
      rw [hcomplete]
      refine ⟨_, rfl, rfl, hsorted, fun time => ?_, hiff⟩
      dsimp only [TickHistoryResult.ok]
      rw [Lib.StableSort.filter_sortOn, List.filter_filter]
      split
      · next hin =>
        apply List.filter_congr
        intro tick _
        by_cases htime : tick.timeMs = time
        · simp [htime, hin]
        · simp [htime]
      · next hout =>
        rw [List.filter_eq_nil_iff]
        intro tick _
        simp only [Bool.and_eq_true, decide_eq_true_eq]
        rintro ⟨rfl, hin⟩
        exact hout hin

theorem IntradeObservedTickHistory.fetch_refuses {options : IntradeObservedTickHistoryOptions}
    (s : IntradeObservedTickHistory P V) (fuel : Nat) {request : TickHistoryRequest}
    (h : ¬ (request.valid = true ∧
      (options.maxLookbackMs = 0 ∨ request.toTimeMs - request.fromTimeMs ≤ options.maxLookbackMs))) :
    ∃ message, s.fetch options fuel request = some (.fail message) := by
  unfold IntradeObservedTickHistory.fetch
  by_cases hrequest : request.valid = true
  · have hspan := not_and.mp h hrequest
    have hfar : 0 < options.maxLookbackMs ∧ options.maxLookbackMs < request.toTimeMs - request.fromTimeMs := by omega
    rw [hrequest, Bool.not_true, if_neg Bool.false_ne_true, if_pos hfar]
    exact ⟨_, rfl⟩
  · rw [if_pos (by simpa using hrequest)]
    exact ⟨_, rfl⟩

/-! ## The estimate of the clock -/

section

variable {values : List Int} {rank : Nat}

/-- The least of the candidates seen so far with enough values no greater. -/
structure Selected (values : List Int) (rank : Nat) (seen : List Int) (selected : Option Int) : Prop where
  qualifies : ∀ best ∈ selected, best ∈ seen ∧ rank < values.countP (· ≤ best)
  least : ∀ candidate ∈ seen, rank < values.countP (· ≤ candidate) → ∃ best ∈ selected, best ≤ candidate

theorem selectStep_selected {seen : List Int} {selected : Option Int} (h : Selected values rank seen selected)
    (candidate : Int) : Selected values rank (seen ++ [candidate]) (selectStep values rank selected candidate) := by
  unfold selectStep
  dsimp only
  by_cases htake : rank < values.countP (· ≤ candidate) ∧ ∀ best ∈ selected, candidate < best
  · rw [if_pos htake]
    constructor
    · intro best hbest
      obtain rfl := Option.mem_some.mp hbest
      exact ⟨by simp, htake.1⟩
    · intro other hother hcount
      refine ⟨candidate, rfl, ?_⟩
      rcases List.mem_append.mp hother with hold | hnew
      · obtain ⟨best, hbest, hle⟩ := h.least other hold hcount
        exact (htake.2 best hbest).le.trans hle
      · exact (List.mem_singleton.mp hnew).ge
  · rw [if_neg htake]
    constructor
    · intro best hbest
      obtain ⟨hmem, hcount⟩ := h.qualifies best hbest
      exact ⟨List.mem_append_left _ hmem, hcount⟩
    · intro other hother hcount
      rcases List.mem_append.mp hother with hold | hnew
      · exact h.least other hold hcount
      · obtain rfl := List.mem_singleton.mp hnew
        simpa [hcount] using htake

theorem foldl_selectStep (candidates : List Int) {seen : List Int} {selected : Option Int}
    (h : Selected values rank seen selected) :
    Selected values rank (seen ++ candidates) (candidates.foldl (selectStep values rank) selected) := by
  induction candidates generalizing seen selected with
  | nil => simpa using h
  | cons candidate candidates ih => simpa using ih (selectStep_selected h candidate)

theorem sorted_mergeSort (values : List Int) : values.mergeSort.Pairwise (· ≤ ·) := by
  have h : values.mergeSort.Pairwise fun a b => decide (a ≤ b) = true :=
    List.pairwise_mergeSort (fun a b c => by simpa using le_trans) (fun a b => by simpa using le_total a b) values
  exact h.imp of_decide_eq_true

/-- The selection is the element at its rank in order. -/
theorem select_eq (h : rank < values.length) : select values rank = values.mergeSort.get ⟨rank, by simpa using h⟩ := by
  have hperm : values.mergeSort.Perm values := List.mergeSort_perm _ _
  have hrank : rank < values.mergeSort.length := by simpa using h
  have hcount : ∀ candidate, values.mergeSort.countP (· ≤ candidate) = values.countP (· ≤ candidate) :=
    fun candidate => hperm.countP_eq _
  have hselected : Selected values rank ([] ++ values) (values.foldl (selectStep values rank) none) :=
    foldl_selectStep values ⟨fun _ hbest => by simp at hbest, fun _ hother => by simp at hother⟩
  have hplace := Lib.StableSort.lt_countP_getElem (sorted_mergeSort values) hrank
  rw [hcount] at hplace
  obtain ⟨best, hbest, hle⟩ := hselected.least values.mergeSort[rank]
    (by simpa using hperm.mem_iff.mp (List.getElem_mem hrank)) hplace
  have hqualifies := (hselected.qualifies best hbest).2
  rw [← hcount] at hqualifies
  have hge := Lib.StableSort.getElem_le_of_lt_countP (sorted_mergeSort values) hrank hqualifies
  rw [select, Option.mem_def.mp hbest]
  exact le_antisymm hle hge

/-- The middle value in order, or between the two middle ones, toward zero. -/
def median (values : List Int) : Int :=
  let inOrder := values.mergeSort
  let middle := values.length / 2
  if values.length % 2 ≠ 0 then inOrder.getD middle 0
  else (inOrder.getD (middle - 1) 0 + inOrder.getD middle 0).tdiv 2

theorem select_getD (h : rank < values.length) : select values rank = values.mergeSort.getD rank 0 := by
  rw [select_eq h, List.get_eq_getElem, List.getD_eq_getElem]

theorem select_mem (h : rank < values.length) : select values rank ∈ values := by
  rw [select_eq h, ← (List.mergeSort_perm values _).mem_iff]
  exact List.get_mem _ _

theorem longDouble_exact {n : Int} (h : |n| ≤ 2 ^ 64) (k : Int) : longDouble (n * 2 ^ k) = n * 2 ^ k :=
  Lib.BinaryFloat.roundBinary_exact (by decide) h k

theorem median_le (hrange : ∀ value ∈ values, value ≤ int64Max) : median values ≤ int64Max := by
  have hplace : ∀ k, values.mergeSort.getD k 0 ≤ int64Max := by
    intro k
    rw [List.getD_eq_getElem?_getD]
    cases hk : values.mergeSort[k]? with
    | none => decide
    | some value =>
        have hmem := List.mem_of_getElem? hk
        rw [(List.mergeSort_perm values _).mem_iff] at hmem
        exact hrange value hmem
  unfold median
  dsimp only
  split
  · exact hplace _
  · have hsum := add_le_add (hplace (values.length / 2 - 1)) (hplace (values.length / 2))
    have htwice : (int64Max + int64Max).tdiv 2 = int64Max := by decide
    exact (Int.tdiv_le_tdiv two_pos hsum).trans htwice.le

theorem medianClockOffset_eq (hrange : ∀ value ∈ values, int64Min ≤ value ∧ value ≤ int64Max) :
    medianClockOffset values = if values = [] then 0 else median values := by
  unfold medianClockOffset median
  by_cases hnil : values = []
  · rw [if_pos hnil, if_pos hnil]
  · have hlength : 0 < values.length := List.length_pos_iff.mpr hnil
    have hupper : values.length / 2 < values.length := by omega
    have hlower : values.length / 2 - 1 < values.length := by omega
    rw [if_neg hnil, if_neg hnil]
    dsimp only
    by_cases hodd : values.length % 2 ≠ 0
    · rw [if_pos hodd, if_pos hodd, select_getD hupper]
    · have hlow := hrange _ (select_mem hlower)
      have hup := hrange _ (select_mem hupper)
      rw [if_neg hodd, if_neg hodd, ← select_getD hupper, ← select_getD hlower]
      generalize select values (values.length / 2 - 1) = lower at *
      generalize select values (values.length / 2) = upper at *
      unfold int64Min int64Max at hlow hup
      have hlow' : |lower| ≤ 2 ^ 64 := abs_le.mpr ⟨by omega, by omega⟩
      have hup' : |upper| ≤ 2 ^ 64 := abs_le.mpr ⟨by omega, by omega⟩
      have hsum : |lower + upper| ≤ 2 ^ 64 := abs_le.mpr ⟨by omega, by omega⟩
      have h1 := longDouble_exact hlow' 0
      have h2 := longDouble_exact hup' 0
      have h3 := longDouble_exact hsum 0
      have h4 := longDouble_exact hsum (-1)
      rw [zpow_zero, mul_one] at h1 h2 h3
      rw [zpow_neg_one, ← div_eq_mul_inv] at h4
      push_cast at h3 h4
      rw [h1, h2, h3, h4]
      exact_mod_cast Lib.BinaryFloat.truncate_half (lower + upper)

end

theorem addOffset_eq {localTimeMs : Nat} (hlocal : localTimeMs ≤ uint64Max) {offsetMs : Int}
    (hoffset : offsetMs ≤ int64Max) :
    (addOffset localTimeMs offsetMs : Int) = max 0 (min (uint64Max : Int) (localTimeMs + offsetMs)) := by
  unfold addOffset
  dsimp only
  have hword : int64Max ≤ uint64Max := by decide
  replace hoffset := hoffset.trans hword
  generalize uint64Max = word at *
  by_cases hahead : 0 ≤ offsetMs
  · rw [if_pos hahead]
    by_cases hfull : word - offsetMs.toNat < localTimeMs
    · rw [if_pos hfull, min_eq_left (by omega), max_eq_right (by omega)]
    · rw [if_neg hfull, min_eq_right (by omega), max_eq_right (by omega)]
      omega
  · rw [if_neg hahead, min_eq_right (by omega)]
    by_cases hnone : localTimeMs < (-offsetMs).toNat
    · rw [if_pos hnone, max_eq_left (by omega)]
      rfl
    · rw [if_neg hnone, max_eq_right (by omega)]
      omega

/-- How far the broker's clock was ahead when the tick came; nothing where a time is no signed number. -/
def clockDifference (tick : Tick P V) : Int :=
  if (tick.timeMs : Int) ≤ int64Max ∧ (tick.receivedMs : Int) ≤ int64Max then (tick.timeMs : Int) - tick.receivedMs
  else 0

theorem observationOffset_eq {tick : Tick P V} (h : tick.timeMs ≠ 0) : observationOffset tick = clockDifference tick := by
  unfold observationOffset clockDifference
  dsimp only
  by_cases hlarge : int64Max < tick.timeMs ∨ int64Max < tick.receivedMs
  · have hunfit : ¬ ((tick.timeMs : Int) ≤ int64Max ∧ (tick.receivedMs : Int) ≤ int64Max) := by omega
    rw [if_pos hlarge, if_neg hunfit]
  · have hfit : (tick.timeMs : Int) ≤ int64Max ∧ (tick.receivedMs : Int) ≤ int64Max := by omega
    rw [if_neg hlarge, if_pos hfit]
    split
    · rfl
    · have hless : (tick.receivedMs : Int) - tick.timeMs ≠ int64Max := by omega
      rw [if_neg hless, neg_sub]

theorem clockDifference_range (tick : Tick P V) : int64Min ≤ clockDifference tick ∧ clockDifference tick ≤ int64Max := by
  have hmin : int64Min = -9223372036854775808 := by decide
  have hmax : int64Max = 9223372036854775807 := by decide
  unfold clockDifference
  split <;> omega

theorem fresh_samples {options : IntradeObservedTickHistoryOptions} {clock : ClockSamples} {localTimeMs : Nat}
    (h : hasFreshClockEstimate options clock localTimeMs = true) : clock.offsetsMs ≠ [] := by
  rintro hnil
  simp [hasFreshClockEstimate, hnil] at h

/-- The time on the broker's clock, within a 64-bit word and down to the grid. -/
def brokerTime (options : IntradeObservedTickHistoryOptions) (offsets : List Int) (localTimeMs : Nat) : Int :=
  let adjusted := max 0 (min (uint64Max : Int) (localTimeMs + median offsets))
  adjusted - adjusted % options.samplingIntervalMs

theorem brokerTime_mono {options : IntradeObservedTickHistoryOptions} (hinterval : 0 < options.samplingIntervalMs)
    (offsets : List Int) {earlier later : Nat} (h : earlier ≤ later) :
    brokerTime options offsets earlier ≤ brokerTime options offsets later := by
  have hadjusted : max 0 (min (uint64Max : Int) (earlier + median offsets)) ≤
      max 0 (min (uint64Max : Int) (later + median offsets)) := by
    gcongr
  have hfloor : ∀ time : Int, time - time % options.samplingIntervalMs =
      options.samplingIntervalMs * (time / options.samplingIntervalMs) := by
    intro time
    have := Int.mul_ediv_add_emod time options.samplingIntervalMs
    omega
  unfold brokerTime
  dsimp only
  rw [hfloor, hfloor]
  have := Int.ediv_le_ediv (by omega : (0 : Int) < options.samplingIntervalMs) hadjusted
  gcongr

theorem IntradeObservedTickHistory.providerTimeMs_fresh {options : IntradeObservedTickHistoryOptions} (hinterval : 0 < options.samplingIntervalMs)
    {s : IntradeObservedTickHistory P V} (hrange : ∀ offset ∈ s.clock.offsetsMs,
      int64Min ≤ offset ∧ offset ≤ int64Max) {localTimeMs : Nat} (hlocal : localTimeMs ≤ uint64Max)
    (hfresh : hasFreshClockEstimate options s.clock localTimeMs = true) :
    (s.providerTimeMs options localTimeMs : Int) = brokerTime options s.clock.offsetsMs localTimeMs := by
  unfold IntradeObservedTickHistory.providerTimeMs brokerTime
  rw [hfresh, Bool.not_true, if_neg Bool.false_ne_true, medianClockOffset_eq hrange, if_neg (fresh_samples hfresh),
    ← addOffset_eq hlocal (median_le fun value hvalue => (hrange value hvalue).2)]
  dsimp only
  rw [if_neg hinterval.ne', Nat.cast_sub (Nat.mod_le _ _), Int.natCast_mod]

/-! ## The samples of any run -/

/-- The offsets of the last samples. -/
def lastOffsets (options : IntradeObservedTickHistoryOptions) (ticks : List (Tick P V)) : List Int :=
  (ticks.map clockDifference).drop (ticks.length - options.clockOffsetSampleCount)

theorem lastOffsets_range (options : IntradeObservedTickHistoryOptions) (ticks : List (Tick P V)) :
    ∀ offset ∈ lastOffsets options ticks, int64Min ≤ offset ∧ offset ≤ int64Max := by
  intro offset hoffset
  obtain ⟨tick, -, rfl⟩ := List.mem_map.mp (List.mem_of_mem_drop hoffset)
  exact clockDifference_range tick

section

variable [BEq P] [BEq V] {options : IntradeObservedTickHistoryOptions}

/-- The tick is recorded, and carries the time of its receipt. -/
def Sampled (items : List (Tick P V)) (tick : Tick P V) : Prop :=
  tick.timeMs ≠ 0 ∧ containsObservation items tick = false ∧ tick.receivedMs ≠ 0

instance (items : List (Tick P V)) (tick : Tick P V) : Decidable (Sampled items tick) :=
  inferInstanceAs (Decidable (_ ∧ _ ∧ _))

/-- The ticks of one batch that are samples of the clock. -/
def batchSamples (options : IntradeObservedTickHistoryOptions) :
    List (Tick P V) × ClockSamples → List (Tick P V) → List (Tick P V)
  | _, [] => []
  | state, tick :: ticks =>
      (if Sampled state.1 tick then [tick] else []) ++ batchSamples options (recordTick options state tick) ticks

def recordSamples (options : IntradeObservedTickHistoryOptions) :
    IntradeObservedTickHistory P V → List (TickUpdateBatch P V) → List (Tick P V)
  | _, [] => []
  | s, batch :: batches =>
      (if batch.symbol.isEmpty then [] else batchSamples options (s.retained batch.symbol, s.clock) batch.items) ++
        recordSamples options (recordBatch options s batch) batches

def samplesFrom (options : IntradeObservedTickHistoryOptions) (events : List (TickHistoryEvent P V)) :
    IntradeObservedTickHistory P V × List (Tick P V) :=
  events.foldl (fun state event =>
    ((state.1.step options event).1,
      match event with
      | .record batches => state.2 ++ recordSamples options state.1 batches
      | .clear => [])) ({}, [])

/-- The samples of a run after its last clear, in the order of arrival. -/
def samples (options : IntradeObservedTickHistoryOptions) (events : List (TickHistoryEvent P V)) : List (Tick P V) :=
  (samplesFrom options events).2

theorem drop_drop_append {α : Type} (l : List α) (a : α) {n : Nat} (hn : n ≠ 0) :
    ((l.drop (l.length - n)) ++ [a]).drop (((l.drop (l.length - n)) ++ [a]).length - n) =
      (l ++ [a]).drop ((l ++ [a]).length - n) := by
  simp only [List.length_append, List.length_drop, List.length_singleton]
  rcases Nat.lt_or_ge l.length n with hshort | hlong
  · have h1 : l.length - n = 0 := by omega
    rw [h1, List.drop_zero, Nat.sub_zero]
  · have h1 : l.length - (l.length - n) + 1 - n = 1 := by omega
    have h2 : l.length + 1 - n = l.length - n + 1 := by omega
    rw [h1, h2, List.drop_append_of_le_length (by rw [List.length_drop]; omega), List.drop_drop,
      List.drop_append_of_le_length (by omega)]

theorem recordTick_lastOffsets {ticks : List (Tick P V)} {state : List (Tick P V) × ClockSamples}
    (h : state.2.offsetsMs = lastOffsets options ticks) (tick : Tick P V) :
    (recordTick options state tick).2.offsetsMs =
      lastOffsets options (ticks ++ if Sampled state.1 tick then [tick] else []) := by
  unfold recordTick
  by_cases hskip : tick.timeMs = 0 ∨ containsObservation state.1 tick = true
  · have hnot : ¬ Sampled state.1 tick := by
      rintro ⟨htime, hcontains, -⟩
      rcases hskip with hzero | hcontains'
      · exact htime hzero
      · simp [hcontains] at hcontains'
    rw [if_pos hskip, if_neg hnot, List.append_nil, h]
  · obtain ⟨htime, hcontains⟩ := not_or.mp hskip
    rw [if_neg hskip]
    unfold recordClockOffset
    by_cases hreceived : tick.receivedMs = 0
    · have hnot : ¬ Sampled state.1 tick := fun h => h.2.2 hreceived
      rw [if_pos (.inl hreceived), if_neg hnot, List.append_nil, h]
    · have hsampled : Sampled state.1 tick := ⟨htime, by simpa using hcontains, hreceived⟩
      rw [if_pos hsampled]
      by_cases hcount : options.clockOffsetSampleCount = 0
      · rw [if_pos (.inr hcount), h]
        simp [lastOffsets, hcount, List.drop_eq_nil_of_le]
      · rw [if_neg (by tauto), observationOffset_eq htime, h]
        have hdrop := drop_drop_append (ticks.map clockDifference) (clockDifference tick) hcount
        simpa [lastOffsets] using hdrop

theorem foldl_recordTick_lastOffsets (batch : List (Tick P V)) {ticks : List (Tick P V)}
    {state : List (Tick P V) × ClockSamples} (h : state.2.offsetsMs = lastOffsets options ticks) :
    (batch.foldl (recordTick options) state).2.offsetsMs =
      lastOffsets options (ticks ++ batchSamples options state batch) := by
  induction batch generalizing ticks state with
  | nil => simpa [batchSamples] using h
  | cons tick batch ih =>
      rw [List.foldl_cons, batchSamples, ← List.append_assoc]
      exact ih (recordTick_lastOffsets h tick)

theorem record_lastOffsets (batches : List (TickUpdateBatch P V)) {ticks : List (Tick P V)}
    {s : IntradeObservedTickHistory P V} (h : s.clock.offsetsMs = lastOffsets options ticks) :
    (s.record options batches).clock.offsetsMs = lastOffsets options (ticks ++ recordSamples options s batches) := by
  unfold IntradeObservedTickHistory.record
  induction batches generalizing ticks s with
  | nil => simpa [recordSamples] using h
  | cons batch batches ih =>
      rw [List.foldl_cons, recordSamples, ← List.append_assoc]
      apply ih
      unfold recordBatch
      by_cases hempty : batch.symbol.isEmpty = true
      · rw [if_pos hempty, if_pos hempty, List.append_nil, h]
      · rw [if_neg hempty, if_neg hempty]
        have hitems : ((s.symbols batch.symbol).getD {}).items = s.retained batch.symbol := by
          unfold IntradeObservedTickHistory.retained
          cases s.symbols batch.symbol <;> rfl
        dsimp only
        rw [hitems]
        exact foldl_recordTick_lastOffsets batch.items h

/-- The clock of any run has the offsets of its last samples. -/
theorem exec_lastOffsets (events : List (TickHistoryEvent P V)) :
    (Lib.Run.exec (IntradeObservedTickHistory.step options) {} events).clock.offsetsMs =
      lastOffsets options (samples options events) := by
  have hstate : ∀ events : List (TickHistoryEvent P V), (samplesFrom options events).1 =
      Lib.Run.exec (IntradeObservedTickHistory.step options) {} events := by
    intro events
    induction events using List.reverseRecOn with
    | nil => rfl
    | append_singleton events event ih =>
        rw [Lib.Run.exec_append, ← ih, samplesFrom, List.foldl_append]
        rfl
  induction events using List.reverseRecOn with
  | nil => simp [samples, samplesFrom, lastOffsets]
  | append_singleton events event ih =>
      rw [Lib.Run.exec_append, samples, samplesFrom, List.foldl_append]
      cases event with
      | record batches =>
          have h := record_lastOffsets batches ih
          rw [← hstate] at h ⊢
          exact h
      | clear => simp [IntradeObservedTickHistory.step, lastOffsets]

end

end OptionX.IntradeBar
