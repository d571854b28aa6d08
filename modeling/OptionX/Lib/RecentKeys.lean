import Mathlib

/-!
# Recent keys

A set of keys with a queue of their arrivals, from whose front keys are evicted while there are too many. What holds of
the two together, and how far apart the queue keeps two arrivals of one key.
-/

namespace Lib

structure RecentKeys (κ : Type) where
  keys : Finset κ := ∅
  order : List κ := []

namespace RecentKeys

variable {κ : Type} [DecidableEq κ]

/-- The queue and its keys after evictions from the front. -/
def evict (capacity : Nat) (keys : Finset κ) : List κ → RecentKeys κ
  | [] => ⟨keys, []⟩
  | key :: order =>
      if capacity < (key :: order).length then evict capacity (keys.erase key) order else ⟨keys, key :: order⟩

/-- A key that is there is not remembered again. -/
def remember (capacity : Nat) (recent : RecentKeys κ) (key : κ) : RecentKeys κ × Bool :=
  if key ∈ recent.keys then (recent, false) else (evict capacity (insert key recent.keys) (recent.order ++ [key]), true)

/-- A key is taken out of both. -/
def forget (recent : RecentKeys κ) (key : κ) : RecentKeys κ := ⟨recent.keys.erase key, recent.order.filter (· ≠ key)⟩

/-- The queue holds each key once. -/
structure Coherent (capacity : Nat) (recent : RecentKeys κ) : Prop where
  nodup : recent.order.Nodup
  same : recent.order.toFinset = recent.keys
  bounded : recent.order.length ≤ capacity

/-- Between two arrivals of one key there are at least so many others. -/
def Spaced (gap : Nat) (arrivals : List κ) : Prop :=
  ∀ before key between after, arrivals = before ++ key :: (between ++ key :: after) → gap ≤ between.length

variable {capacity : Nat} {recent : RecentKeys κ} {key : κ}

/-! ## Evictions -/

theorem evict_order (keys : Finset κ) (order : List κ) :
    (evict capacity keys order).order = order.drop (order.length - capacity) := by
  induction order generalizing keys with
  | nil => simp [evict]
  | cons key order ih =>
      rw [evict]
      split
      · next hmany =>
        have hlength : (key :: order).length - capacity = (order.length - capacity) + 1 := by
          simp at hmany ⊢
          omega
        rw [ih, hlength, List.drop_succ_cons]
      · next hfew =>
        rw [Nat.sub_eq_zero_of_le (not_lt.mp hfew)]
        rfl

/-- Evictions from a queue without repetitions leave its set of keys. -/
theorem evict_same {keys : Finset κ} {order : List κ} (hnodup : order.Nodup) (hsame : order.toFinset = keys) :
    (evict capacity keys order).order.toFinset = (evict capacity keys order).keys := by
  induction order generalizing keys with
  | nil => exact hsame
  | cons key order ih =>
      rw [evict]
      split
      · refine ih hnodup.of_cons ?_
        rw [← hsame, List.toFinset_cons, Finset.erase_insert]
        simpa using (List.nodup_cons.mp hnodup).1
      · exact hsame

/-! ## Remembering -/

@[simp] theorem remember_known (h : key ∈ recent.keys) : recent.remember capacity key = (recent, false) := if_pos h

theorem remember_new (h : key ∉ recent.keys) : recent.remember capacity key =
    (evict capacity (insert key recent.keys) (recent.order ++ [key]), true) := if_neg h

theorem Coherent.empty : Coherent capacity ({} : RecentKeys κ) := ⟨List.nodup_nil, rfl, Nat.zero_le _⟩

theorem Coherent.mem_iff (h : Coherent capacity recent) : key ∈ recent.keys ↔ key ∈ recent.order := by
  rw [← h.same, List.mem_toFinset]

theorem Coherent.remember (h : Coherent capacity recent) (key : κ) :
    Coherent capacity (recent.remember capacity key).1 := by
  by_cases hkey : key ∈ recent.keys
  · rw [remember_known hkey]
    exact h
  · rw [remember_new hkey]
    have hfresh : key ∉ recent.order := fun hmem => hkey (h.mem_iff.mpr hmem)
    have hnodup : (recent.order ++ [key]).Nodup := by
      simp [List.nodup_append, h.nodup]
      rintro other hother rfl
      exact hfresh hother
    constructor
    · rw [evict_order]
      exact hnodup.sublist (List.drop_sublist _ _)
    · apply evict_same hnodup
      rw [List.toFinset_append, h.same, Finset.insert_eq, Finset.union_comm]
      rfl
    · rw [evict_order, List.length_drop]
      omega

/-- A key just remembered is there, if there is room for one. -/
theorem mem_remember (hcapacity : 0 < capacity) (h : Coherent capacity recent) (key : κ) :
    key ∈ (recent.remember capacity key).1.keys := by
  by_cases hkey : key ∈ recent.keys
  · rw [remember_known hkey]
    exact hkey
  · have hcoherent := h.remember key
    rw [hcoherent.mem_iff, remember_new hkey, evict_order, List.drop_append_of_le_length]
    · simp
    · simp
      omega

/-! ## Arrivals -/

/-- The queue is the end of all arrivals. -/
def Follows (capacity : Nat) (recent : RecentKeys κ) (arrivals : List κ) : Prop :=
  recent.order = arrivals.drop (arrivals.length - capacity)

omit [DecidableEq κ] in
theorem Follows.empty : Follows capacity ({} : RecentKeys κ) [] := by simp [Follows]

theorem Follows.remember {arrivals : List κ} (h : Follows capacity recent arrivals) (hkey : key ∉ recent.keys) :
    Follows capacity (recent.remember capacity key).1 (arrivals ++ [key]) := by
  rw [Follows, remember_new hkey, evict_order, h]
  simp only [List.length_append, List.length_drop, List.length_singleton]
  rcases Nat.lt_or_ge arrivals.length capacity with hlt | hge
  · rw [Nat.sub_eq_zero_of_le hlt.le, List.drop_zero]
    congr 1
  · have hfirst : arrivals.length - (arrivals.length - capacity) + 1 - capacity = 1 := by omega
    have hall : arrivals.length + 1 - capacity = (arrivals.length - capacity) + 1 := by omega
    rw [hfirst, hall, ← List.drop_drop, List.drop_append_of_le_length (Nat.sub_le _ _)]

omit [DecidableEq κ] in
theorem Spaced.nil (gap : Nat) : Spaced gap ([] : List κ) := by
  intro before key between after h
  simp at h

omit [DecidableEq κ] in
theorem Spaced.snoc {gap : Nat} {arrivals : List κ} (h : Spaced gap arrivals)
    (hkey : key ∉ arrivals.drop (arrivals.length - gap)) : Spaced gap (arrivals ++ [key]) := by
  intro before other between after heq
  rcases List.eq_nil_or_concat after with rfl | ⟨after, last, rfl⟩
  · -- The second of the two is the new one.
    have hsplit : arrivals ++ [key] = (before ++ other :: between) ++ [other] := by simp [heq]
    obtain ⟨harrivals, hlast⟩ := List.append_inj' hsplit rfl
    obtain rfl : key = other := by simpa using hlast
    by_contra hclose
    apply hkey
    rw [harrivals, List.drop_append_of_le_length]
    · simp
    · simp
      omega
  · refine h before other between after ?_
    have hsplit : arrivals ++ [key] = (before ++ other :: (between ++ other :: after)) ++ [last] := by simp [heq]
    exact (List.append_inj' hsplit rfl).1

/-! ## Forgetting -/

theorem Coherent.forget (h : Coherent capacity recent) (key : κ) : Coherent capacity (recent.forget key) := by
  constructor
  · exact h.nodup.filter _
  · ext other
    simp [RecentKeys.forget, ← h.same, and_comm]
  · exact (List.length_filter_le _ _).trans h.bounded

/-- A key was remembered, and those in `later` after it: it is in the queue with only such keys behind it, or there were so
many of them that it was evicted. -/
def Remembered (capacity : Nat) (recent : RecentKeys κ) (key : κ) (later : List κ) : Prop :=
  (∃ before after, recent.order = before ++ key :: after ∧ after ⊆ later) ∨ capacity ≤ later.toFinset.card

variable {other : κ} {later : List κ}

theorem Remembered.self (capacity : Nat) (hkey : key ∉ recent.keys) :
    Remembered capacity (recent.remember capacity key).1 key [] := by
  rcases Nat.eq_zero_or_pos capacity with rfl | hcapacity
  · exact .inr (Nat.zero_le _)
  · left
    rw [remember_new hkey, evict_order, List.drop_append_of_le_length]
    · exact ⟨_, [], rfl, List.nil_subset _⟩
    · simp
      omega

theorem Remembered.remember (h : Remembered capacity recent key later) (hcoherent : Coherent capacity recent)
    (hother : other ∉ recent.keys) : Remembered capacity (recent.remember capacity other).1 key (later ++ [other]) := by
  rcases h with ⟨before, after, horder, hafter⟩ | hmany
  · have hsub : after ++ [other] ⊆ later ++ [other] :=
      List.append_subset.mpr ⟨List.Subset.trans hafter (List.subset_append_left _ _), List.subset_append_right _ _⟩
    rw [Remembered, remember_new hother, evict_order, horder]
    rcases Nat.eq_zero_or_pos ((before ++ key :: after ++ [other]).length - capacity) with hroom | hfull
    · left
      rw [hroom]
      exact ⟨before, after ++ [other], by simp, hsub⟩
    · have hbounded := hcoherent.bounded
      have hone : (before ++ key :: after ++ [other]).length - capacity = 1 := by
        simp [horder] at hbounded hfull ⊢
        omega
      rw [hone]
      cases before with
      | cons first before => exact .inl ⟨before, after ++ [other], by simp, hsub⟩
      | nil =>
          -- The key itself is evicted: the others fill the queue.
          right
          have hnodup : (after ++ [other]).Nodup := by
            have horders : (key :: after).Nodup := by simpa [horder] using hcoherent.nodup
            have hfresh : other ∉ after := by
              intro hmem
              exact hother (hcoherent.mem_iff.mpr (by simp [horder, hmem]))
            simpa using List.Nodup.concat hfresh horders.of_cons
          have hlength : capacity = (after ++ [other]).length := by
            simp at hone ⊢
            omega
          rw [hlength, ← List.toFinset_card_of_nodup hnodup]
          refine Finset.card_le_card fun k hk => ?_
          exact List.mem_toFinset.mpr (hsub (List.mem_toFinset.mp hk))
  · refine .inr (hmany.trans (Finset.card_le_card ?_))
    simp [List.toFinset_append]

theorem Remembered.forget (h : Remembered capacity recent key later) (hne : other ≠ key) :
    Remembered capacity (recent.forget other) key later := by
  rcases h with ⟨before, after, horder, hafter⟩ | hmany
  · left
    refine ⟨before.filter (· ≠ other), after.filter (· ≠ other), ?_, List.Subset.trans (List.filter_subset_self _) hafter⟩
    simp [RecentKeys.forget, horder, hne.symm]
  · exact .inr hmany

/-- A key that was remembered is new again only after so many others. -/
theorem Remembered.evicted (h : Remembered capacity recent key later) (hcoherent : Coherent capacity recent)
    (hkey : key ∉ recent.keys) : capacity ≤ later.toFinset.card := by
  rcases h with ⟨before, after, horder, -⟩ | hmany
  · exact absurd (hcoherent.mem_iff.mpr (by simp [horder])) hkey
  · exact hmany

end RecentKeys

end Lib
