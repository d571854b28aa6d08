import Mathlib

/-!
# Bridging the gaps of a live stream

What the recovery of a route is for, without bars, ticks or batches: a stream of times with gaps, a provider of
history that answers one range after the other, and live times that are held back until history has closed the
gap in front of them. A rule says what a gap is and which ranges are asked for. The answers advance a recovery
when none leaves something to ask for inside the range it answered.
-/

namespace OptionX.MarketData

/-- The first time that shows a gap after `latest`: the latest time before it, and the times after it. A time of
zero says nothing. -/
def firstGap (gap : Nat → Nat → Bool) : Nat → List Nat → Option (Nat × Nat × List Nat)
  | _, [] => none
  | latest, time :: times =>
      if time = 0 then firstGap gap latest times
      else if gap latest time then some (latest, time, times)
      else firstGap gap (max latest time) times

/-- The latest of `latest` and the times. -/
def latestOf (latest : Nat) (times : List Nat) : Nat := times.foldl max latest

/-- The times that a settled range leaves. -/
def unsettled (settledThrough : Nat) (times : List Nat) : List Nat :=
  times.filter (fun time => !(time != 0 && time ≤ settledThrough))

/-- The first gap in held batches. Nothing precedes the first batch of a route that has seen nothing, so no gap
can show in it. -/
def scan (gap : Nat → Nat → Bool) (settledThrough : Nat) :
    Nat → List (List Nat) → Option (Nat × Nat × List Nat × List (List Nat))
  | _, [] => none
  | latest, batch :: batches =>
      if latest = 0 then
        scan gap settledThrough (latestOf latest (unsettled settledThrough batch)) batches
      else
        match firstGap gap latest (unsettled settledThrough batch) with
        | some (latest, time, times) => some (latest, time, times, batches)
        | none => scan gap settledThrough (latestOf latest (unsettled settledThrough batch)) batches

/-- What counts as a gap, the range that is asked for first (its start, its end and the target behind it), the
range after one that stops short of the target, the boundary that stays unresolved, and when a range is new to
what has been confirmed. -/
structure GapRule where
  gap : Nat → Nat → Bool
  range : Nat → Nat → Nat × Nat × Nat
  next : Nat → Nat → Option (Nat × Nat)
  resolve : Nat → Nat → Nat → Bool → Nat
  fresh : Nat → Nat → Nat → Prop
  range_le : ∀ {latest time}, gap latest time = true →
    (range latest time).2.1 ≤ time ∧ (range latest time).2.2 ≤ time
  next_le : ∀ {toMs targetMs range}, next toMs targetMs = some range → range.2 ≤ targetMs
  fresh_lt : ∀ {confirmed fromMs toMs}, fresh confirmed fromMs toMs → confirmed < toMs

/-- A request for history under way: its range and target, whether it settles the held times in its range, the
latest time seen, the unresolved boundary (zero for none), and what is held back. -/
structure Inquiry where
  fromMs : Nat
  toMs : Nat
  targetMs : Nat
  settles : Bool := false
  latestMs : Nat
  unresolvedMs : Nat
  held : List (List Nat)

/-- What an answer leads to: another request, the end with everything resolved, or an end without. -/
inductive Outcome where
  | asks (inquiry : Inquiry)
  | settled
  | lost

/-- The unresolved boundary together with the start of a new gap. -/
def unresolvedWith (unresolvedMs fromMs : Nat) : Nat :=
  if fromMs = 0 then unresolvedMs
  else if unresolvedMs = 0 ∨ fromMs < unresolvedMs then fromMs
  else unresolvedMs

/-- An answer to a request, by its latest time (zero for an empty one). -/
def Inquiry.answer (rule : GapRule) (q : Inquiry) (time : Nat) : Outcome :=
  let latestMs := max q.latestMs time
  if q.fromMs = 0 ∨ q.toMs < q.fromMs then .lost
  else if q.toMs < q.targetMs then
    match rule.next q.toMs q.targetMs with
    | none => .lost
    | some range =>
        .asks { q with
          fromMs := range.1, toMs := range.2, latestMs
          unresolvedMs := rule.resolve q.unresolvedMs q.fromMs q.toMs true }
  else
    let unresolvedMs := rule.resolve q.unresolvedMs q.fromMs q.toMs false
    match scan rule.gap (if q.settles then q.toMs else 0) latestMs q.held with
    | none => if unresolvedMs = 0 then .settled else .lost
    | some gap =>
        let range := rule.range gap.1 gap.2.1
        .asks {
          fromMs := range.1, toMs := range.2.1, targetMs := range.2.2, latestMs := gap.1
          unresolvedMs := unresolvedWith unresolvedMs range.1
          held := (gap.2.1 :: gap.2.2.1) :: gap.2.2.2 }

/-- The first `k` answers advance the recovery: what is asked for next is new to the range just confirmed, and at
the end nothing is unresolved. -/
def advances (rule : GapRule) (reply : Nat → Nat → Nat → Nat) : Nat → Nat → Inquiry → Prop
  | _, 0, _ => True
  | n, k + 1, q =>
      match q.answer rule (reply n q.fromMs q.toMs) with
      | .asks next => rule.fresh q.toMs next.fromMs next.toMs ∧ advances rule reply (n + 1) k next
      | .settled => True
      | .lost => False

/-- Every answer advances the recovery. -/
def Bridged (rule : GapRule) (reply : Nat → Nat → Nat → Nat) (n : Nat) (q : Inquiry) : Prop :=
  ∀ k, advances rule reply n k q

/-! ## Rounds of a route and its provider -/

section Rounds

variable {σ ν : Type} (round : Nat → σ → σ × List ν)

/-- `k` rounds, the first of them the `n`-th. -/
def rounds : Nat → Nat → σ → σ × List ν
  | _, 0, s => (s, [])
  | n, k + 1, s =>
      let rest := rounds (n + 1) k (round n s).1
      (rest.1, (round n s).2 ++ rest.2)

/-- Each range is new to the one confirmed before it. -/
def Fresh (fresh : Nat → Nat → Nat → Prop) : Nat → List (Nat × Nat) → Prop
  | _, [] => True
  | confirmed, range :: ranges => fresh confirmed range.1 range.2 ∧ Fresh fresh range.2 ranges

/-- A route whose rounds do what the rule says, seen through the requests it sends: `Waits` relates it to the
request under way, `Live` is its trusted end, `Lost` an end without trust. -/
structure Follows (rule : GapRule) (reply : Nat → Nat → Nat → Nat) (requested : ν → Option (Nat × Nat))
    (Waits : Inquiry → σ → Prop) (Live Lost : σ → Prop) : Prop where
  asks : ∀ {n q s next}, Waits q s → q.answer rule (reply n q.fromMs q.toMs) = .asks next →
    Waits next (round n s).1 ∧ (round n s).2.filterMap requested = [(next.fromMs, next.toMs)]
  settled : ∀ {n q s}, Waits q s → q.answer rule (reply n q.fromMs q.toMs) = .settled →
    Live (round n s).1 ∧ (round n s).2.filterMap requested = []
  lost : ∀ {n q s}, Waits q s → q.answer rule (reply n q.fromMs q.toMs) = .lost → Lost (round n s).1
  stays : ∀ {n s}, Lost s → (round n s).1 = s
  waits_not_live : ∀ {q s}, Waits q s → ¬ Live s
  lost_not_live : ∀ {s}, Lost s → ¬ Live s

end Rounds

/-! ## Recoveries end -/

/-- Every time that is still to come is within `bound`. -/
structure Inquiry.Within (q : Inquiry) (bound : Nat) : Prop where
  to_le : q.toMs ≤ bound
  target : q.targetMs ≤ bound
  held : ∀ batch ∈ q.held, ∀ time ∈ batch, time ≤ bound

theorem firstGap_some {gap : Nat → Nat → Bool} {latest : Nat} {times : List Nat} {l t ts}
    (h : firstGap gap latest times = some (l, t, ts)) :
    gap l t = true ∧ t ≠ 0 ∧ latest ≤ l ∧ t ∈ times ∧ ∀ time ∈ ts, time ∈ times := by
  induction times generalizing latest with
  | nil => cases h
  | cons time times ih =>
      simp only [firstGap] at h
      split at h
      · obtain ⟨h1, h2, h3, h4, h5⟩ := ih h
        exact ⟨h1, h2, h3, List.mem_cons_of_mem _ h4, fun x hx => List.mem_cons_of_mem _ (h5 x hx)⟩
      · rename_i h0
        split at h
        · rename_i hgap
          cases h
          exact ⟨hgap, h0, le_rfl, List.mem_cons_self, fun x hx => List.mem_cons_of_mem _ hx⟩
        · obtain ⟨h1, h2, h3, h4, h5⟩ := ih h
          exact ⟨h1, h2, (le_max_left _ _).trans h3, List.mem_cons_of_mem _ h4,
            fun x hx => List.mem_cons_of_mem _ (h5 x hx)⟩

theorem mem_unsettled {settledThrough time : Nat} {times : List Nat}
    (h : time ∈ unsettled settledThrough times) : time ∈ times :=
  (List.mem_filter.mp h).1

theorem scan_some {gap : Nat → Nat → Bool} {settledThrough latest : Nat} {held : List (List Nat)}
    {l t ts bs} (h : scan gap settledThrough latest held = some (l, t, ts, bs)) :
    gap l t = true ∧ ∃ batch ∈ held, t ∈ batch ∧ (∀ time ∈ ts, time ∈ batch) ∧ ∀ b ∈ bs, b ∈ held := by
  induction held generalizing latest with
  | nil => cases h
  | cons batch held ih =>
      have later : ∀ {latest' : Nat}, scan gap settledThrough latest' held = some (l, t, ts, bs) →
          gap l t = true ∧ ∃ b ∈ batch :: held, t ∈ b ∧ (∀ time ∈ ts, time ∈ b) ∧
            ∀ b ∈ bs, b ∈ batch :: held := by
        intro latest' h'
        obtain ⟨h1, b, h2, h3, h4, h5⟩ := ih h'
        exact ⟨h1, b, List.mem_cons_of_mem _ h2, h3, h4, fun x hx => List.mem_cons_of_mem _ (h5 x hx)⟩
      simp only [scan] at h
      split at h
      · exact later h
      · split at h
        · rename_i hg
          cases h
          obtain ⟨h1, -, -, h3, h4⟩ := firstGap_some hg
          exact ⟨h1, batch, List.mem_cons_self, mem_unsettled h3, fun x hx => mem_unsettled (h4 x hx),
            fun b hb => List.mem_cons_of_mem _ hb⟩
        · exact later h

/-- What is asked for next is within what was to come. -/
theorem Inquiry.Within.asks {rule : GapRule} {q next : Inquiry} {bound time : Nat} (h : q.Within bound)
    (ha : q.answer rule time = .asks next) : next.Within bound := by
  unfold answer at ha
  dsimp only at ha
  split at ha
  · cases ha
  split at ha
  · split at ha
    · cases ha
    · rename_i hnext
      cases ha
      exact ⟨(rule.next_le hnext).trans h.target, h.target, h.held⟩
  · split at ha
    · split at ha <;> cases ha
    · rename_i gap hscan
      cases ha
      obtain ⟨l, t, ts, bs⟩ := gap
      obtain ⟨hgap, batch, hb, ht, hts, hbs⟩ := scan_some hscan
      have htime := h.held batch hb t ht
      obtain ⟨hto, htarget⟩ := rule.range_le hgap
      refine ⟨hto.trans htime, htarget.trans htime, fun b hm x hx => ?_⟩
      rcases List.mem_cons.mp hm with rfl | hm
      · rcases List.mem_cons.mp hx with rfl | hx
        · exact htime
        · exact h.held batch hb x (hts x hx)
      · exact h.held b (hbs b hm) x hx

theorem Inquiry.within (q : Inquiry) : ∃ bound, q.Within bound := by
  refine ⟨max (max q.toMs q.targetMs) (latestOf 0 q.held.flatten), ?_, ?_, fun b hb x hx => ?_⟩
  · exact (le_max_left _ _).trans (le_max_left _ _)
  · exact (le_max_right _ _).trans (le_max_left _ _)
  · have hmem : x ∈ q.held.flatten := List.mem_flatten.mpr ⟨b, hb, hx⟩
    have hle : ∀ (times : List Nat) (l : Nat), l ≤ latestOf l times ∧ ∀ y ∈ times, y ≤ latestOf l times := by
      intro times
      induction times with
      | nil => exact fun l => ⟨le_rfl, by simp⟩
      | cons t times ih =>
          intro l
          obtain ⟨h1, h2⟩ := ih (max l t)
          refine ⟨(le_max_left _ _).trans h1, fun y hy => ?_⟩
          rcases List.mem_cons.mp hy with rfl | hy
          · exact (le_max_right _ _).trans h1
          · exact h2 y hy
    exact ((hle _ 0).2 x hmem).trans (le_max_right _ _)

section

variable {σ ν : Type} {round : Nat → σ → σ × List ν} {rule : GapRule} {reply : Nat → Nat → Nat → Nat}
  {requested : ν → Option (Nat × Nat)} {Waits : Inquiry → σ → Prop} {Live Lost : σ → Prop}

theorem Follows.stays_lost (h : Follows round rule reply requested Waits Live Lost) {s : σ} (hs : Lost s)
    (n k : Nat) : Lost (rounds round n k s).1 := by
  induction k generalizing n with
  | zero => exact hs
  | succ k ih =>
      simp only [rounds]
      rw [h.stays hs]
      exact ih (n + 1)

/-- A recovery that reaches its trusted end without asking again for what is confirmed has been advanced by each
answer. -/
theorem Follows.bridged (h : Follows round rule reply requested Waits Live Lost) {n k : Nat} {q : Inquiry}
    {s : σ} (hw : Waits q s) (hlive : Live (rounds round n k s).1)
    (hfresh : Fresh rule.fresh q.toMs ((rounds round n k s).2.filterMap requested)) :
    Bridged rule reply n q := by
  induction k generalizing n q s with
  | zero => exact absurd hlive (h.waits_not_live hw)
  | succ k ih =>
      intro j
      cases j with
      | zero => trivial
      | succ j =>
          simp only [advances]
          cases ha : q.answer rule (reply n q.fromMs q.toMs) with
          | asks next =>
              obtain ⟨hnext, hreq⟩ := h.asks hw ha
              simp only [rounds, List.filterMap_append, hreq, List.singleton_append] at hfresh
              exact ⟨hfresh.1, ih hnext hlive hfresh.2 j⟩
          | settled => trivial
          | lost => exact h.lost_not_live (h.stays_lost (h.lost hw ha) (n + 1) k) hlive

/-- A recovery that every answer advances comes to its trusted end: the ends of what is confirmed strictly
increase, and no request goes beyond the times that are held. -/
theorem Follows.ends (h : Follows round rule reply requested Waits Live Lost) {n : Nat} {q : Inquiry} {s : σ}
    (hw : Waits q s) (hb : Bridged rule reply n q) :
    ∃ k, Live (rounds round n k s).1 ∧
      Fresh rule.fresh q.toMs ((rounds round n k s).2.filterMap requested) := by
  obtain ⟨bound, hbound⟩ := q.within
  induction hm : bound - q.toMs using Nat.strong_induction_on generalizing n q s with
  | _ m ih =>
      have h1 := hb 1
      simp only [advances] at h1
      cases ha : q.answer rule (reply n q.fromMs q.toMs) with
      | asks next =>
          rw [ha] at h1
          obtain ⟨hnext, hreq⟩ := h.asks hw ha
          have hwithin := hbound.asks ha
          have hlt := rule.fresh_lt h1.1
          have hle := hwithin.to_le
          have hb' : Bridged rule reply (n + 1) next := by
            intro k
            have hk := hb (k + 1)
            simp only [advances, ha] at hk
            exact hk.2
          obtain ⟨k, hlive, hfresh⟩ := ih (bound - next.toMs) (by omega) hnext hb' hwithin rfl
          refine ⟨k + 1, hlive, ?_⟩
          simp only [rounds, List.filterMap_append, hreq, List.singleton_append]
          exact ⟨h1.1, hfresh⟩
      | settled =>
          obtain ⟨hlive, hreq⟩ := h.settled hw ha
          refine ⟨1, hlive, ?_⟩
          simp [rounds, hreq, Fresh]
      | lost => rw [ha] at h1; exact h1.elim

end

end OptionX.MarketData
