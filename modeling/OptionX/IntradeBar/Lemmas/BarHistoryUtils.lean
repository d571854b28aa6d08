import OptionX.IntradeBar.BarHistoryUtils

/-!
# What the slices of a bar history hold

Every slot of the request lies in one slice, and the dense check accepts exactly the bars of all slots.
-/

namespace OptionX.IntradeBar

open Lib.Machine

/-! ## The slots of a request -/

def slots (fromTs toTs timeframe : Int) : List Int :=
  (List.range ((toTs - fromTs) / timeframe + 1).toNat).map fun k : Nat => fromTs + k * timeframe

theorem mem_slots {fromTs toTs timeframe t : Int} (htf : 0 < timeframe) :
    t ∈ slots fromTs toTs timeframe ↔ ∃ k : Nat, t = fromTs + k * timeframe ∧ t ≤ toTs := by
  have hiff : ∀ k : Nat, k < ((toTs - fromTs) / timeframe + 1).toNat ↔ fromTs + k * timeframe ≤ toTs := by
    intro k
    have hdiv : (k : Int) ≤ (toTs - fromTs) / timeframe ↔ (k : Int) * timeframe ≤ toTs - fromTs :=
      Int.le_ediv_iff_mul_le htf
    omega
  simp only [slots, List.mem_map, List.mem_range]
  constructor
  · rintro ⟨k, hk, rfl⟩
    exact ⟨k, rfl, (hiff k).mp hk⟩
  · rintro ⟨k, rfl, hk⟩
    exact ⟨k, (hiff k).mpr hk, rfl⟩

theorem slots_eq_nil {fromTs toTs timeframe : Int} (htf : 0 < timeframe) (h : toTs < fromTs) :
    slots fromTs toTs timeframe = [] := by
  have : (toTs - fromTs) / timeframe < 0 := Int.ediv_neg_of_neg_of_pos (by omega) htf
  have hzero : ((toTs - fromTs) / timeframe + 1).toNat = 0 := by omega
  simp [slots, hzero]

theorem slots_eq {fromTs toTs timeframe : Int} {n : Nat} (h : (toTs - fromTs) / timeframe + 1 = n) :
    slots fromTs toTs timeframe = (List.range n).map fun k : Nat => fromTs + k * timeframe := by
  simp [slots, h]

/-- The slots up to one of them, and the slots after it. -/
theorem slots_append {fromTs toTs timeframe : Int} {more : Nat} (htf : 0 < timeframe)
    (hto : fromTs + more * timeframe ≤ toTs) :
    slots fromTs toTs timeframe = slots fromTs (fromTs + more * timeframe) timeframe ++
      slots (fromTs + more * timeframe + timeframe) toTs timeframe := by
  have hfirst : (fromTs + more * timeframe - fromTs) / timeframe + 1 = ((more + 1 : Nat) : Int) := by
    rw [add_sub_cancel_left, Int.mul_ediv_cancel _ htf.ne', Nat.cast_add_one]
  have hshift : (toTs - fromTs) / timeframe =
      (toTs - (fromTs + more * timeframe + timeframe)) / timeframe + (more + 1) := by
    rw [← Int.add_mul_ediv_right _ _ htf.ne']
    congr 1
    ring
  have hleast : -1 ≤ (toTs - (fromTs + more * timeframe + timeframe)) / timeframe :=
    (Int.le_ediv_iff_mul_le htf).mpr (by omega)
  obtain ⟨n, hn⟩ : ∃ n : Nat, (toTs - (fromTs + more * timeframe + timeframe)) / timeframe + 1 = n :=
    ⟨_, (Int.toNat_of_nonneg (by omega)).symm⟩
  have hall : (toTs - fromTs) / timeframe + 1 = ((more + 1 + n : Nat) : Int) := by
    push_cast
    omega
  rw [slots_eq hfirst, slots_eq hn, slots_eq hall, List.range_add, List.map_append, List.map_map]
  congr 1
  apply List.map_congr_left
  intro k _
  simp only [Function.comp_apply]
  push_cast
  ring

/-! ## The slices -/

/-- The slices from a slot on, up to the end of the request. -/
structure Slices (toTs timeframe maxBars current : Int) (chunks : List BarHistoryChunk) : Prop where
  bounds : ∀ c ∈ chunks, current ≤ c.fromTs ∧ c.fromTs ≤ c.toTs ∧ c.toTs ≤ toTs
  ordered : chunks.Pairwise (fun a b => a.toTs < b.fromTs)
  sized : ∀ c ∈ chunks, (c.toTs - c.fromTs) / timeframe + 1 ≤ maxBars
  covers : slots current toTs timeframe = chunks.flatMap fun c => slots c.fromTs c.toTs timeframe

theorem Slices.nil {toTs timeframe maxBars current : Int} (htf : 0 < timeframe) (h : toTs < current) :
    Slices toTs timeframe maxBars current [] where
  bounds c hc := by cases hc
  ordered := .nil
  sized c hc := by cases hc
  covers := slots_eq_nil htf h

/-- The last slice: no slot comes after it. -/
theorem Slices.last {toTs timeframe maxBars current currentTo : Int} (hle : current ≤ currentTo)
    (hto : currentTo ≤ toTs) (hsized : (currentTo - current) / timeframe + 1 ≤ maxBars)
    (hlast : slots current toTs timeframe = slots current currentTo timeframe) :
    Slices toTs timeframe maxBars current [⟨current, currentTo⟩] where
  bounds c hc := by
    obtain rfl := List.mem_singleton.mp hc
    exact ⟨le_rfl, hle, hto⟩
  ordered := List.pairwise_singleton _ _
  sized c hc := by
    obtain rfl := List.mem_singleton.mp hc
    exact hsized
  covers := by
    rw [hlast, List.flatMap_singleton]

/-- A slice that ends on a slot, and the slices from the next slot on. -/
theorem Slices.cons {toTs timeframe maxBars current : Int} {more : Nat} {chunks : List BarHistoryChunk}
    (htf : 0 < timeframe) (hmore : (more : Int) + 1 ≤ maxBars) (hto : current + more * timeframe ≤ toTs)
    (h : Slices toTs timeframe maxBars (current + more * timeframe + timeframe) chunks) :
    Slices toTs timeframe maxBars current (⟨current, current + more * timeframe⟩ :: chunks) where
  bounds c hc := by
    have : 0 ≤ (more : Int) * timeframe := by positivity
    rcases List.mem_cons.mp hc with rfl | hc
    · exact ⟨le_rfl, by dsimp only; omega, hto⟩
    · obtain ⟨h1, h2⟩ := h.bounds c hc
      exact ⟨by omega, h2⟩
  ordered := by
    rw [List.pairwise_cons]
    refine ⟨fun c hc => ?_, h.ordered⟩
    have := (h.bounds c hc).1
    dsimp only
    omega
  sized c hc := by
    rcases List.mem_cons.mp hc with rfl | hc
    · have : (current + more * timeframe - current) / timeframe = more := by
        rw [add_sub_cancel_left, Int.mul_ediv_cancel _ htf.ne']
      dsimp only
      omega
    · exact h.sized c hc
  covers := by
    rw [List.flatMap_cons, ← h.covers]
    exact slots_append htf hto

theorem chunksFrom_done {toTs current : Int} (timeframe chunkSpan : Int) {fuel : Nat} (hfuel : fuel ≠ 0)
    (h : toTs < current) : chunksFrom toTs timeframe chunkSpan fuel current = .ok (some []) := by
  cases fuel with
  | zero => exact absurd rfl hfuel
  | succ fuel => rw [chunksFrom, if_pos h]

theorem chunksFrom_slices {toTs timeframe maxBars : Int} (htf : 0 < timeframe) (hmax : 0 < maxBars)
    (hto : toTs ≤ int64Max) (htf' : timeframe ≤ int64Max) (fuel : Nat) (current : Int) (hpos : 0 < current)
    (hfuel : toTs - current + 1 < fuel) (hfuel' : fuel ≠ 0) :
    ∃ chunks, chunksFrom toTs timeframe (timeframe * (maxBars - 1)) fuel current = .ok (some chunks) ∧
      Slices toTs timeframe maxBars current chunks := by
  have hspan : 0 ≤ timeframe * (maxBars - 1) := mul_nonneg htf.le (by omega)
  induction fuel generalizing current with
  | zero => exact absurd rfl hfuel'
  | succ fuel ih =>
      rw [chunksFrom]
      by_cases hdone : toTs < current
      · rw [if_pos hdone]
        exact ⟨[], rfl, .nil htf hdone⟩
      · have hmin : int64Min ≤ 0 := by decide
        have hfuel0 : fuel ≠ 0 := by omega
        rw [if_neg hdone, i64_ok (by omega) (by omega), ok_bind, i64_ok (by omega) (by omega), ok_bind,
          i64_ok (by omega) (by omega), ok_bind]
        by_cases hrest : toTs - current ≤ timeframe * (maxBars - 1)
        · have hend : current + min (toTs - current) (timeframe * (maxBars - 1)) = toTs := by omega
          have hsized : (toTs - current) / timeframe + 1 ≤ maxBars := by
            have := Int.ediv_le_of_le_mul htf (by linarith : toTs - current ≤ (maxBars - 1) * timeframe)
            omega
          have hslices : Slices toTs timeframe maxBars current [⟨current, toTs⟩] :=
            .last (by omega) le_rfl hsized rfl
          rw [hend]
          by_cases hedge : int64Max - timeframe < toTs
          · rw [if_pos hedge]
            exact ⟨_, rfl, hslices⟩
          · rw [if_neg hedge, i64_ok (by omega) (by omega), ok_bind,
              chunksFrom_done _ _ hfuel0 (by omega : toTs < toTs + timeframe)]
            exact ⟨_, rfl, hslices⟩
        · have hend : current + min (toTs - current) (timeframe * (maxBars - 1)) =
              current + ((maxBars - 1).toNat : Int) * timeframe := by
            have : ((maxBars - 1).toNat : Int) = maxBars - 1 := by omega
            rw [this, mul_comm (maxBars - 1)]
            omega
          have hmore : ((maxBars - 1).toNat : Int) + 1 ≤ maxBars := by omega
          have hwithin : current + ((maxBars - 1).toNat : Int) * timeframe ≤ toTs := by omega
          have hnonneg : 0 ≤ ((maxBars - 1).toNat : Int) * timeframe := by positivity
          rw [hend]
          generalize (maxBars - 1).toNat = more at *
          by_cases hedge : int64Max - timeframe < current + more * timeframe
          · have hsized : (current + more * timeframe - current) / timeframe + 1 ≤ maxBars := by
              rw [add_sub_cancel_left, Int.mul_ediv_cancel _ htf.ne']
              exact hmore
            rw [if_pos hedge]
            have hlast : slots current toTs timeframe = slots current (current + more * timeframe) timeframe := by
              rw [slots_append htf hwithin,
                slots_eq_nil htf (by omega : toTs < current + more * timeframe + timeframe), List.append_nil]
            exact ⟨_, rfl, .last (by omega) hwithin hsized hlast⟩
          · obtain ⟨chunks, hchunks, hslices⟩ := ih (current + more * timeframe + timeframe) (by omega) (by omega)
              hfuel0
            rw [if_neg hedge, i64_ok (by omega) (by omega), ok_bind, hchunks]
            exact ⟨_, rfl, hslices.cons htf hmore hwithin⟩

theorem buildBarHistoryChunks_slices {fromTs toTs timeframe maxBars : Int} (hfrom : 0 < fromTs)
    (hle : fromTs ≤ toTs) (hto : toTs ≤ int64Max) (htf : 0 < timeframe) (htf' : timeframe ≤ int64Max)
    (hmax : 0 < maxBars) (hmax' : maxBars ≤ int64Max) (hspan : timeframe * (maxBars - 1) ≤ int64Max) :
    ∃ fuel chunks, buildBarHistoryChunks fuel fromTs toTs timeframe maxBars = .ok (some chunks) ∧
      Slices toTs timeframe maxBars fromTs chunks := by
  have hmin : int64Min ≤ 0 := by decide
  have hnonneg : 0 ≤ timeframe * (maxBars - 1) := mul_nonneg htf.le (by omega)
  obtain ⟨chunks, hchunks, hslices⟩ := chunksFrom_slices htf hmax hto htf' ((toTs - fromTs).toNat + 2) fromTs hfrom
    (by omega) (by omega)
  refine ⟨(toTs - fromTs).toNat + 2, chunks, ?_, hslices⟩
  have hmore : max 0 (maxBars - 1) = maxBars - 1 := by omega
  rw [buildBarHistoryChunks, if_neg (by omega), i64_ok (by omega) (by omega), ok_bind, hmore,
    i64_ok (by omega) hspan, ok_bind, hchunks]

/-! ## The dense check -/

variable {P V : Type}

theorem coversFrom_eq {stepMs : Nat} (hstep : stepMs ≤ uint64Max) (bars : List (Bar P V)) (expectedTimeMs : Nat)
    (hfit : expectedTimeMs + (bars.length - 1) * stepMs ≤ uint64Max) :
    coversFrom stepMs expectedTimeMs bars = .ok (decide
      (bars.map (·.timeMs) = (List.range bars.length).map fun k => expectedTimeMs + k * stepMs)) := by
  induction bars generalizing expectedTimeMs with
  | nil => rfl
  | cons bar bars ih =>
      rw [coversFrom]
      by_cases htime : bar.timeMs = expectedTimeMs
      · rw [if_neg (not_not_intro htime)]
        cases bars with
        | nil => simp [htime]
        | cons next rest =>
            have hnext : expectedTimeMs + stepMs + rest.length * stepMs ≤ uint64Max := by
              have : (bar :: next :: rest).length - 1 = rest.length + 1 := rfl
              rw [this, Nat.succ_mul] at hfit
              omega
            have hshift : ∀ k, expectedTimeMs + (k + 1) * stepMs = expectedTimeMs + stepMs + k * stepMs := by
              intro k
              ring
            rw [if_neg (by simp), u64Sub_ok hstep, ok_bind, if_neg (by omega), u64_ok (by omega), ok_bind,
              ih _ (by simpa using hnext)]
            simp [List.range_succ_eq_map, htime, hshift, Function.comp_def]
      · rw [if_pos htime]
        simp [List.range_succ_eq_map, htime]

/-- The sequence answers for the symbol and the timeframe of the request. -/
def BarSequence.Answers (sequence : BarSequence P V) (request : BarHistoryRequest) : Prop :=
  sequence.timeframe = request.timeframe ∧ sequence.symbol ≠ "" ∧ request.symbol ≠ "" ∧
    normalizeSymbolName sequence.symbol = normalizeSymbolName request.symbol

/-- The slots of a request that lie in a slice. -/
def BarHistoryRequest.slotsIn (request : BarHistoryRequest) (chunk : BarHistoryChunk) : List Int :=
  (slots request.fromTs request.toTs request.timeframe).filter fun t => chunk.fromTs ≤ t ∧ t ≤ chunk.toTs

/-- The request for one slice. -/
def BarHistoryRequest.slice (request : BarHistoryRequest) (chunk : BarHistoryChunk) : BarHistoryRequest :=
  { request with fromTs := chunk.fromTs, toTs := chunk.toTs }

/-- The last second whose milliseconds the check can count. -/
def maxDenseTs : Int := 18446744073709551

theorem covers_undated {sequence : BarSequence P V} {request : BarHistoryRequest} (hto : maxDenseTs < request.toTs) :
    barSequenceCoversDenseRange sequence request = .ok false := by
  have hmax : uint64Max / 1000 = 18446744073709551 := by decide
  have : uint64Max / 1000 < request.toTs.toNat := by
    unfold maxDenseTs at hto
    omega
  unfold barSequenceCoversDenseRange
  split
  · rfl
  · exact if_pos (.inr (.inr this))

/-- The slots of a request in milliseconds, as the check counts them. -/
theorem slots_ms {fromTs toTs timeframe : Nat} (hle : fromTs ≤ toTs) :
    (slots fromTs toTs timeframe).map (· * 1000) =
      ((List.range ((toTs - fromTs) / timeframe + 1)).map fun k =>
        fromTs * 1000 + k * (timeframe * 1000)).map (Nat.cast : Nat → Int) := by
  have hcount : ((toTs : Int) - fromTs) / timeframe + 1 = (((toTs - fromTs) / timeframe + 1 : Nat) : Int) := by
    push_cast [hle]
    rfl
  rw [slots_eq hcount, List.map_map, List.map_map]
  apply List.map_congr_left
  intro k _
  simp only [Function.comp_apply]
  push_cast
  ring

/-- The check never leaves the range of a word, and accepts the bars of all slots in order. -/
theorem covers_eq (sequence : BarSequence P V) {request : BarHistoryRequest} (hfrom : 0 < request.fromTs)
    (hle : request.fromTs ≤ request.toTs) (hto : request.toTs ≤ maxDenseTs) (htf : 0 < request.timeframe)
    (htf' : request.timeframe ≤ int32Max) :
    ∃ dense, barSequenceCoversDenseRange sequence request = .ok dense ∧
      (dense = true ↔ sequence.Answers request ∧ sequence.bars.map (fun bar => (bar.timeMs : Int)) =
        (slots request.fromTs request.toTs request.timeframe).map (· * 1000)) := by
  obtain ⟨symbol, timeframe, fromTs, toTs⟩ := request
  dsimp only at hfrom hle hto htf htf' ⊢
  lift timeframe to Nat using htf.le
  lift fromTs to Nat using hfrom.le
  lift toTs to Nat using (by omega)
  have hle' : fromTs ≤ toTs := by exact_mod_cast hle
  have hmax : uint64Max = 18446744073709551615 := by decide
  have hquot : uint64Max / 1000 = 18446744073709551 := by decide
  unfold maxDenseTs at hto
  unfold int32Max at htf'
  unfold barSequenceCoversDenseRange
  by_cases hanswers : sequence.Answers ⟨symbol, timeframe, fromTs, toTs⟩
  · obtain ⟨h1, h2, h3, h4⟩ := id hanswers
    dsimp only at h1 h2 h3 h4
    rw [slots_ms hle']
    dsimp only
    rw [if_neg (by simp_all; omega)]
    simp only [Int.toNat_natCast]
    rw [if_neg (by omega), u64_ok (by omega), ok_bind, if_neg (by omega), u64_ok (by omega), ok_bind,
      u64Sub_ok hle', ok_bind]
    have hdiv : (toTs - fromTs) / timeframe * timeframe ≤ toTs - fromTs := Nat.div_mul_le_self _ _
    have hcount : (toTs - fromTs) / timeframe ≤ toTs - fromTs := Nat.div_le_self _ _
    generalize (toTs - fromTs) / timeframe = more at *
    have hstepPos : 0 < timeframe * 1000 := by omega
    have hstepMax : timeframe * 1000 ≤ uint64Max := by omega
    have hcountMax : more + 1 ≤ uint64Max := by omega
    have hlast : fromTs * 1000 + more * timeframe * 1000 ≤ uint64Max := by
      rw [hmax]
      clear hmax hquot hcountMax hstepMax
      omega
    by_cases hlength : sequence.bars.length = more + 1
    · have hbars : sequence.bars ≠ [] := by
        rintro hnil
        simp [hnil] at hlength
      have hstep : ¬ (timeframe * 1000 = 0 ∨ sequence.bars.isEmpty = true) := by
        rw [List.isEmpty_iff]
        rintro (h | h)
        · exact hstepPos.ne' h
        · exact hbars h
      have hfit : fromTs * 1000 + (sequence.bars.length - 1) * (timeframe * 1000) ≤ uint64Max := by
        rw [hlength, Nat.add_sub_cancel, ← mul_assoc]
        exact hlast
      rw [if_neg hstep, u64_ok hcountMax, ok_bind, if_neg (not_not_intro hlength),
        coversFrom_eq hstepMax _ _ hfit]
      refine ⟨_, rfl, ?_⟩
      have hcast : sequence.bars.map (fun bar => (bar.timeMs : Int)) =
          (sequence.bars.map (·.timeMs)).map Nat.cast := by
        rw [List.map_map]
        rfl
      rw [decide_eq_true_iff, and_iff_right hanswers, hcast, List.map_inj_right fun a b => Int.ofNat_inj.mp, hlength]
    · have hfalse : ¬ (sequence.bars.map (fun bar => (bar.timeMs : Int)) =
          ((List.range (more + 1)).map fun k => fromTs * 1000 + k * (timeframe * 1000)).map Nat.cast) := by
        intro h
        simpa [hlength] using congrArg List.length h
      refine ⟨false, ?_, iff_of_false Bool.false_ne_true fun h => hfalse h.2⟩
      split
      · rfl
      · rw [u64_ok hcountMax, ok_bind, if_pos hlength]
        rfl
  · refine ⟨false, if_pos ?_, by simp [hanswers]⟩
    unfold BarSequence.Answers at hanswers
    dsimp only at hanswers ⊢
    simp only [String.isEmpty_iff]
    tauto

theorem covers_bars {sequence : BarSequence P V} {request : BarHistoryRequest} (hfrom : 0 < request.fromTs)
    (hle : request.fromTs ≤ request.toTs) (hto : request.toTs ≤ maxDenseTs) (htf : 0 < request.timeframe)
    (htf' : request.timeframe ≤ int32Max) :
    barSequenceCoversDenseRange sequence request = .ok true ↔
      sequence.Answers request ∧ sequence.bars.map (fun bar => (bar.timeMs : Int)) =
        (slots request.fromTs request.toTs request.timeframe).map (· * 1000) := by
  obtain ⟨dense, hdense, hiff⟩ := covers_eq sequence hfrom hle hto htf htf'
  rw [hdense, ← hiff, Except.ok.injEq]

/-! ## Slices and answers together -/

theorem bounds_of_mem_slots {fromTs toTs timeframe t : Int} (htf : 0 < timeframe)
    (ht : t ∈ slots fromTs toTs timeframe) : fromTs ≤ t ∧ t ≤ toTs := by
  obtain ⟨k, rfl, hle⟩ := (mem_slots htf).mp ht
  have : 0 ≤ (k : Int) * timeframe := by positivity
  exact ⟨by omega, hle⟩

section

variable {toTs timeframe maxBars current : Int} {chunks : List BarHistoryChunk}

theorem Slices.apart (h : Slices toTs timeframe maxBars current chunks) {c d : BarHistoryChunk} (hc : c ∈ chunks)
    (hd : d ∈ chunks) : c = d ∨ c.toTs < d.fromTs ∨ d.toTs < c.fromTs :=
  List.Pairwise.forall_of_forall_of_flip
    (R := fun a b : BarHistoryChunk => a = b ∨ a.toTs < b.fromTs ∨ b.toTs < a.fromTs)
    (fun _ _ => .inl rfl) (h.ordered.imp fun h => .inr (.inl h)) (h.ordered.imp fun h => .inr (.inr h)) hc hd

theorem Slices.slot_in_one (h : Slices toTs timeframe maxBars current chunks) (htf : 0 < timeframe) {t : Int}
    (ht : t ∈ slots current toTs timeframe) : ∃! c, c ∈ chunks ∧ c.fromTs ≤ t ∧ t ≤ c.toTs := by
  rw [h.covers, List.mem_flatMap] at ht
  obtain ⟨c, hc, hslot⟩ := ht
  obtain ⟨hlo, hhi⟩ := bounds_of_mem_slots htf hslot
  refine ⟨c, ⟨hc, hlo, hhi⟩, ?_⟩
  rintro d ⟨hd, hlo', hhi'⟩
  rcases h.apart hd hc with rfl | hbefore | hafter
  · rfl
  · omega
  · omega

/-- The slots of all slices that lie in one of them are its own. -/
theorem Slices.slots_within (h : Slices toTs timeframe maxBars current chunks) (htf : 0 < timeframe)
    {c : BarHistoryChunk} (hc : c ∈ chunks) :
    (slots current toTs timeframe).filter (fun t => c.fromTs ≤ t ∧ t ≤ c.toTs) =
      slots c.fromTs c.toTs timeframe := by
  obtain ⟨before, after, rfl⟩ := List.append_of_mem hc
  obtain ⟨-, hafter, hbefore⟩ := List.pairwise_append.mp h.ordered
  have hown : ∀ t ∈ slots c.fromTs c.toTs timeframe, decide (c.fromTs ≤ t ∧ t ≤ c.toTs) = true :=
    fun t ht => decide_eq_true (bounds_of_mem_slots htf ht)
  have hothers : ∀ ds : List BarHistoryChunk, (∀ d ∈ ds, d.toTs < c.fromTs ∨ c.toTs < d.fromTs) →
      (ds.flatMap fun d => slots d.fromTs d.toTs timeframe).filter (fun t => c.fromTs ≤ t ∧ t ≤ c.toTs) = [] := by
    intro ds hds
    rw [List.filter_eq_nil_iff]
    intro t ht
    obtain ⟨d, hd, ht⟩ := List.mem_flatMap.mp ht
    have := bounds_of_mem_slots htf ht
    have := hds d hd
    rw [decide_eq_true_iff]
    omega
  rw [h.covers, List.flatMap_append, List.flatMap_cons, List.filter_append, List.filter_append,
    List.filter_eq_self.mpr hown, hothers before fun d hd => .inl (hbefore d hd c List.mem_cons_self),
    hothers after fun d hd => .inr ((List.pairwise_cons.mp hafter).1 d hd), List.nil_append, List.append_nil]

/-- Every slice holds a slot, and no more of them than a request may ask for. -/
theorem Slices.slots_length (h : Slices toTs timeframe maxBars current chunks) (htf : 0 < timeframe)
    {c : BarHistoryChunk} (hc : c ∈ chunks) :
    1 ≤ (slots c.fromTs c.toTs timeframe).length ∧ ((slots c.fromTs c.toTs timeframe).length : Int) ≤ maxBars := by
  have hsized := h.sized c hc
  have hspan := (h.bounds c hc).2.1
  have hnonneg : 0 ≤ (c.toTs - c.fromTs) / timeframe := Int.ediv_nonneg (by omega) htf.le
  rw [slots, List.length_map, List.length_range]
  omega

end

/-- The bars of dense answers to all slices, one after the other. -/
theorem Slices.answered {request : BarHistoryRequest} {maxBars current : Int} {chunks : List BarHistoryChunk}
    (h : Slices request.toTs request.timeframe maxBars current chunks) (hpos : 0 < current)
    (hto : request.toTs ≤ maxDenseTs) (htf : 0 < request.timeframe) (htf' : request.timeframe ≤ int32Max)
    {answers : List (BarSequence P V)}
    (hanswers : List.Forall₂ (fun c answer => barSequenceCoversDenseRange answer (request.slice c) = .ok true)
      chunks answers) :
    (answers.flatMap (·.bars)).map (fun bar => (bar.timeMs : Int)) =
      (slots current request.toTs request.timeframe).map (· * 1000) := by
  rw [h.covers]
  have hbounds := h.bounds
  clear h
  induction hanswers with
  | nil => rfl
  | @cons c answer chunks answers hanswer _ ih =>
      obtain ⟨h1, h2, h3⟩ := hbounds c List.mem_cons_self
      have hfrom : 0 < (request.slice c).fromTs := by
        dsimp only [BarHistoryRequest.slice]
        omega
      have hdated : (request.slice c).toTs ≤ maxDenseTs := by
        dsimp only [BarHistoryRequest.slice]
        omega
      have hhead := ((covers_bars hfrom h2 hdated htf htf').mp hanswer).2
      rw [List.flatMap_cons, List.flatMap_cons, List.map_append, List.map_append, hhead,
        ih fun c hc => hbounds c (List.mem_cons_of_mem _ hc)]
      rfl

end OptionX.IntradeBar
