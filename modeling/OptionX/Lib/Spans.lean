import Mathlib

/-!
# Overlapping spans

A list of spans, each with a value, sorted by where they begin and then by where they end. Of two spans that overlap the
later one is given up, and the earlier one too where the values differ. What is kept is disjoint, and up to the values it
does not depend on the order in which the spans came.
-/

namespace Lib

@[ext]
structure Spanned (α : Type) where
  first : Nat
  last : Nat
  value : α
  le : first ≤ last
  deriving DecidableEq

namespace Spanned

variable {α κ : Type}

def map (f : α → κ) (c : Spanned α) : Spanned κ := ⟨c.first, c.last, f c.value, c.le⟩

@[simp] theorem map_first (f : α → κ) (c : Spanned α) : (c.map f).first = c.first := rfl
@[simp] theorem map_last (f : α → κ) (c : Spanned α) : (c.map f).last = c.last := rfl
@[simp] theorem map_value (f : α → κ) (c : Spanned α) : (c.map f).value = f c.value := rfl

/-- The spans share a place; an empty span shares one only where it lies strictly inside. -/
def Overlap (c d : Spanned α) : Prop := c.first < d.last ∧ d.first < c.last

instance (c d : Spanned α) : Decidable (Overlap c d) := inferInstanceAs (Decidable (_ ∧ _))

def Before (c d : Spanned α) : Prop := c.first < d.first ∨ c.first = d.first ∧ c.last ≤ d.last

abbrev Sorted (l : List (Spanned α)) : Prop := l.Pairwise Before

instance (c d : Spanned α) : Decidable (Before c d) := inferInstanceAs (Decidable (_ ∨ _))

instance : Std.Total (α := Spanned α) Before := ⟨fun c d => by unfold Before; omega⟩

instance : IsTrans (Spanned α) Before := ⟨fun c d e h h' => by unfold Before at *; omega⟩

theorem Before.first_le {c d : Spanned α} (h : Before c d) : c.first ≤ d.first := by
  rcases h with h | ⟨h, _⟩
  · exact h.le
  · exact h.le

/-- Two spans in both orders are one span. -/
theorem Before.antisymm {c d : Spanned α} (h : Before c d) (h' : Before d c) : c.first = d.first ∧ c.last = d.last := by
  unfold Before at h h'
  omega

theorem sorted_map {f : α → κ} {l : List (Spanned α)} (h : Sorted l) : Sorted (l.map (map f)) :=
  List.pairwise_map.mpr h

end Spanned

namespace Spans

open Spanned (Overlap Before Sorted)

variable {α κ : Type} {ok : Spanned α → Bool} {same : α → α → Bool} {c d : Spanned α} {before after l : List (Spanned α)}

/-- No earlier span reaches into this one, and a later one into which it reaches has the same value. -/
def clear (same : α → α → Bool) (before : List (Spanned α)) (c : Spanned α) (after : List (Spanned α)) : Bool :=
  before.all (·.last ≤ c.first) && after.all fun d => c.last ≤ d.first || same c.value d.value

theorem clear_iff : clear same before c after = true ↔
    (∀ b ∈ before, b.last ≤ c.first) ∧ ∀ d ∈ after, d.first < c.last → same c.value d.value = true := by
  simp only [clear, Bool.and_eq_true, List.all_eq_true, decide_eq_true_eq, Bool.or_eq_true]
  refine and_congr_right fun _ => forall₂_congr fun d _ => ?_
  rw [← not_lt, ← imp_iff_not_or]

/-- The spans that are kept, after those of `before`. -/
def kept (ok : Spanned α → Bool) (same : α → α → Bool) : List (Spanned α) → List (Spanned α) → List (Spanned α)
  | _, [] => []
  | before, c :: after =>
    if ok c && clear same before c after then c :: kept ok same (c :: before) after
    else kept ok same (c :: before) after

theorem mem_kept : c ∈ kept ok same before l ↔
    ∃ first after, l = first ++ c :: after ∧ ok c = true ∧ clear same (first.reverse ++ before) c after = true := by
  induction l generalizing before with
  | nil => simp [kept]
  | cons d l ih =>
    have hrest : c ∈ kept ok same (d :: before) l ↔ ∃ first after, d :: l = d :: first ++ c :: after ∧ ok c = true ∧
        clear same ((d :: first).reverse ++ before) c after = true := by
      simp [ih]
    have hsplit : (∃ first after, d :: l = first ++ c :: after ∧ ok c = true ∧
        clear same (first.reverse ++ before) c after = true) ↔
        (d = c ∧ ok c = true ∧ clear same before c l = true) ∨ c ∈ kept ok same (d :: before) l := by
      rw [hrest]
      constructor
      · rintro ⟨first, after, heq, hok, hclear⟩
        cases first with
        | nil =>
          obtain ⟨rfl, rfl⟩ := List.cons.inj heq
          exact Or.inl ⟨rfl, hok, by simpa using hclear⟩
        | cons e first =>
          obtain ⟨rfl, heq⟩ := List.cons.inj heq
          exact Or.inr ⟨first, after, by simp [heq], hok, hclear⟩
      · rintro (⟨rfl, hok, hclear⟩ | ⟨first, after, heq, hok, hclear⟩)
        · exact ⟨[], l, rfl, hok, by simpa using hclear⟩
        · exact ⟨d :: first, after, heq, hok, hclear⟩
    rw [hsplit, kept]
    by_cases h : (ok d && clear same before d l) = true
    · simp only [h, if_true, List.mem_cons]
      simp only [Bool.and_eq_true] at h
      constructor
      · rintro (rfl | hmem)
        · exact Or.inl ⟨rfl, h⟩
        · exact Or.inr hmem
      · rintro (⟨rfl, _⟩ | hmem)
        · exact Or.inl rfl
        · exact Or.inr hmem
    · simp only [h, Bool.false_eq_true, if_false]
      refine ⟨Or.inr, ?_⟩
      rintro (⟨rfl, hc⟩ | hmem)
      · exact absurd (by simpa using hc) h
      · exact hmem

@[simp] theorem clear_reverse : clear same before.reverse c after = clear same before c after := by simp [clear]

/-- A span that is kept has its place in the list, and is clear of what stands before and after. -/
theorem mem_kept_nil : c ∈ kept ok same [] l ↔
    ∃ first after, l = first ++ c :: after ∧ ok c = true ∧ clear same first c after = true := by
  simp [mem_kept]

theorem kept_subset (h : c ∈ kept ok same [] l) : c ∈ l := by
  obtain ⟨first, after, rfl, _⟩ := mem_kept_nil.mp h
  simp

theorem ok_of_mem_kept (h : c ∈ kept ok same [] l) : ok c = true := by
  obtain ⟨_, _, _, hok, _⟩ := mem_kept_nil.mp h
  exact hok

theorem last_le_of_mem_kept (h : c ∈ kept ok same before l) : ∀ b ∈ before, b.last ≤ c.first := by
  obtain ⟨first, after, _, _, hclear⟩ := mem_kept.mp h
  intro b hb
  exact (clear_iff.mp hclear).1 b (by simp [hb])

/-- What is kept is disjoint and in the order of the list. -/
theorem kept_pairwise (before l : List (Spanned α)) :
    (kept ok same before l).Pairwise fun c d => c.last ≤ d.first := by
  induction l generalizing before with
  | nil => exact List.Pairwise.nil
  | cons c l ih =>
    rw [kept]
    split
    · exact List.pairwise_cons.mpr ⟨fun d hd => last_le_of_mem_kept hd c (by simp), ih _⟩
    · exact ih _

/-- A span that is kept has the value of every span it overlaps. -/
theorem same_of_overlap (hrefl : ∀ a, same a a = true) (hc : c ∈ kept ok same [] l) (hd : d ∈ l) (h : Overlap c d) :
    same c.value d.value = true := by
  obtain ⟨first, after, rfl, _, hclear⟩ := mem_kept_nil.mp hc
  obtain ⟨hbefore, hafter⟩ := clear_iff.mp hclear
  rcases List.mem_append.mp hd with hd | hd
  · exact absurd (hbefore d hd) h.1.not_ge
  · rcases List.mem_cons.mp hd with rfl | hd
    · exact hrefl _
    · exact hafter d hd h.2

/-- Whether a span is kept depends on the values only up to the test. -/
theorem map_kept {f : α → κ} {ok' : Spanned κ → Bool} {same' : κ → κ → Bool}
    (hok : ∀ c, ok c = ok' (c.map f)) (hsame : ∀ a b, same a b = same' (f a) (f b)) (before l : List (Spanned α)) :
    (kept ok same before l).map (Spanned.map f) =
      kept ok' same' (before.map (Spanned.map f)) (l.map (Spanned.map f)) := by
  induction l generalizing before with
  | nil => rfl
  | cons c l ih =>
    have hclear : clear same before c l =
        clear same' (before.map (Spanned.map f)) (c.map f) (l.map (Spanned.map f)) := by
      simp only [clear, hsame, List.all_map, Function.comp_def]
      rfl
    have hih := ih (c :: before)
    simp only [kept, List.map_cons, ← hok, ← hclear] at hih ⊢
    split
    · rw [List.map_cons, hih]
    · exact hih

/-! ## The order in which the spans came -/

section Order

variable [DecidableEq κ] {ok : Spanned κ → Bool} {c d : Spanned κ} {before l l' : List (Spanned κ)}

/-- The span overlaps none but copies of itself and later spans with its value. -/
def Free (l : List (Spanned κ)) (c : Spanned κ) : Prop :=
  ∀ d ∈ l, d ≠ c → Overlap c d → Before c d ∧ d.value = c.value

theorem Free.of_clear {first after : List (Spanned κ)} (hsorted : Sorted (first ++ c :: after))
    (h : clear (· == ·) first c after = true) : Free (first ++ c :: after) c := by
  obtain ⟨hbefore, hafter⟩ := clear_iff.mp h
  intro d hd hne hoverlap
  rcases List.mem_append.mp hd with hd | hd
  · exact absurd (hbefore d hd) hoverlap.1.not_ge
  · rcases List.mem_cons.mp hd with rfl | hd
    · exact absurd rfl hne
    · have hvalue := hafter d hd hoverlap.2
      simp only [beq_iff_eq] at hvalue
      exact ⟨(List.pairwise_cons.mp (List.pairwise_append.mp hsorted).2.1).1 d hd, hvalue.symm⟩

/-- The first copy of a free span is clear of the others. -/
theorem Free.clear {first after : List (Spanned κ)} (hsorted : Sorted (first ++ c :: after))
    (hfirst : c ∉ first) (h : Free (first ++ c :: after) c) : clear (· == ·) first c after = true := by
  obtain ⟨_, hcons, hacross⟩ := List.pairwise_append.mp hsorted
  refine clear_iff.mpr ⟨fun d hd => ?_, fun d hd hlt => ?_⟩
  · have hne : d ≠ c := fun heq => hfirst (heq ▸ hd)
    have hdc : Before d c := hacross d hd c (by simp)
    by_contra hreach
    have hoverlap : Overlap c d := by
      have := c.le
      unfold Before at hdc
      unfold Overlap
      omega
    obtain ⟨hcd, hvalue⟩ := h d (by simp [hd]) hne hoverlap
    obtain ⟨hf, hl⟩ := hdc.antisymm hcd
    exact hne (Spanned.ext hf hl hvalue)
  · have hcd : Before c d := (List.pairwise_cons.mp hcons).1 d hd
    by_cases hne : d = c
    · simp [hne]
    · have hoverlap : Overlap c d := by
        have := d.le
        unfold Before at hcd
        unfold Overlap
        omega
      simp [(h d (by simp [hd]) hne hoverlap).2]

/-- Which spans are kept does not depend on their order. -/
theorem mem_kept_iff (hsorted : Sorted l) : c ∈ kept ok (· == ·) [] l ↔ c ∈ l ∧ ok c = true ∧ Free l c := by
  constructor
  · intro h
    obtain ⟨first, after, rfl, hok, hclear⟩ := mem_kept_nil.mp h
    exact ⟨by simp, hok, Free.of_clear hsorted hclear⟩
  · rintro ⟨hmem, hok, hfree⟩
    obtain ⟨first, after, rfl, hfirst⟩ := List.eq_append_cons_of_mem hmem
    exact mem_kept_nil.mpr ⟨first, after, rfl, hok, hfree.clear hsorted hfirst⟩

/-- A span with a place in it is kept once. -/
theorem nodup_kept : ((kept ok (· == ·) before l).filter fun c => c.first < c.last).Nodup := by
  refine ((kept_pairwise before l).filter _).imp_of_mem fun {c d} hc _ hle heq => ?_
  subst heq
  have hlt := (List.mem_filter.mp hc).2
  simp only [decide_eq_true_eq] at hlt
  exact hle.not_gt hlt

/-- An empty span is clear of the others where none has it inside. -/
theorem clear_empty_iff (hempty : ¬ c.first < c.last) (hbefore : ∀ d ∈ before, Before d c) (hafter : ∀ d ∈ l, Before c d) :
    clear (· == ·) before c l = true ↔ ∀ d, d ∈ before ∨ d = c ∨ d ∈ l → ¬ Overlap c d := by
  rw [clear_iff]
  unfold Overlap
  constructor
  · rintro ⟨hclear, _⟩ d (hd | rfl | hd)
    · exact fun h => absurd (hclear d hd) h.1.not_ge
    · exact fun h => hempty h.2
    · have := (hafter d hd).first_le
      omega
  · intro h
    refine ⟨fun d hd => ?_, fun d hd hlt => ?_⟩
    · have hout := h d (Or.inl hd)
      have hdc := hbefore d hd
      have := c.le
      unfold Before at hdc
      omega
    · have := (hafter d hd).first_le
      omega

/-- An empty span is kept as often as it came, unless it lies inside another. -/
theorem filter_empty_kept (all before : List (Spanned κ)) (hsorted : Sorted l) (hbefore : ∀ b ∈ before, ∀ c ∈ l, Before b c)
    (hall : ∀ d, d ∈ all ↔ d ∈ before ∨ d ∈ l) :
    (kept ok (· == ·) before l).filter (fun c => !decide (c.first < c.last)) =
      l.filter fun c => !decide (c.first < c.last) && (ok c && all.all fun d => !decide (Overlap c d)) := by
  induction l generalizing before with
  | nil => rfl
  | cons c l ih =>
    obtain ⟨hafter, hrest⟩ := List.pairwise_cons.mp hsorted
    have hih := ih (c :: before) hrest
      (by
        intro b hb d hd
        rcases List.mem_cons.mp hb with rfl | hb
        · exact hafter d hd
        · exact hbefore b hb d (by simp [hd]))
      (by
        intro d
        rw [hall]
        simp only [List.mem_cons]
        tauto)
    have hkept : kept ok (· == ·) before (c :: l) =
        if ok c && clear (· == ·) before c l then c :: kept ok (· == ·) (c :: before) l
        else kept ok (· == ·) (c :: before) l := rfl
    by_cases hempty : c.first < c.last
    · rw [hkept, List.filter_cons, ← hih]
      split <;> simp [hempty]
    · have hclear : clear (· == ·) before c l = all.all fun d => !decide (Overlap c d) := by
        rw [Bool.eq_iff_iff, clear_empty_iff hempty (fun d hd => hbefore d hd c (by simp)) hafter]
        simp [hall]
      rw [hkept, List.filter_cons, ← hih, hclear]
      split <;> simp [*]

/-- What is kept is up to its order the same for every order in which the spans came. -/
theorem kept_perm (hsorted : Sorted l) (hsorted' : Sorted l') (h : l.Perm l') :
    (kept ok (· == ·) [] l).Perm (kept ok (· == ·) [] l') := by
  have hfree : ∀ c, Free l c ↔ Free l' c := fun c => by simp only [Free, h.mem_iff]
  have hplaces : ((kept ok (· == ·) [] l).filter fun c => c.first < c.last).Perm
      ((kept ok (· == ·) [] l').filter fun c => c.first < c.last) := by
    refine (List.perm_ext_iff_of_nodup nodup_kept nodup_kept).mpr fun c => ?_
    simp only [List.mem_filter, mem_kept_iff hsorted, mem_kept_iff hsorted', h.mem_iff, hfree]
  have hempty : ((kept ok (· == ·) [] l).filter fun c => !decide (c.first < c.last)).Perm
      ((kept ok (· == ·) [] l').filter fun c => !decide (c.first < c.last)) := by
    rw [filter_empty_kept l [] hsorted (by simp) (by simp),
      filter_empty_kept l [] hsorted' (by simp) (by simp [h.mem_iff])]
    exact h.filter _
  exact (List.filter_append_perm _ _).symm.trans ((hplaces.append hempty).trans (List.filter_append_perm _ _))

end Order

end Spans

end Lib
