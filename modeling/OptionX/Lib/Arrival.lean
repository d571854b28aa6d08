import Mathlib

/-!
# Extremes in arrival order

Of a list in the order of arrival, the first element with the least value and the last element with the greatest.
-/

namespace Lib.Arrival

variable {α β : Type} [LinearOrder β] {f : α → β} {l : List α} {x y : α}

/-- `x` has the least value in `l`, and no element before it has that value. -/
def Earliest (f : α → β) (l : List α) (x : α) : Prop :=
  ∃ pre post, l = pre ++ x :: post ∧ (∀ y ∈ pre, f x < f y) ∧ ∀ y ∈ post, f x ≤ f y

/-- `x` has the greatest value in `l`, and no element after it has that value. -/
def Latest (f : α → β) (l : List α) (x : α) : Prop :=
  ∃ pre post, l = pre ++ x :: post ∧ (∀ y ∈ pre, f y ≤ f x) ∧ ∀ y ∈ post, f y < f x

theorem Earliest.singleton (f : α → β) (x : α) : Earliest f [x] x :=
  ⟨[], [], rfl, fun _ h => (by cases h), fun _ h => (by cases h)⟩

theorem Latest.singleton (f : α → β) (x : α) : Latest f [x] x :=
  ⟨[], [], rfl, fun _ h => (by cases h), fun _ h => (by cases h)⟩

theorem Earliest.le (h : Earliest f l x) : ∀ y ∈ l, f x ≤ f y := by
  obtain ⟨pre, post, rfl, hpre, hpost⟩ := h
  intro y hy
  rcases List.mem_append.mp hy with hy | hy
  · exact (hpre y hy).le
  · rcases List.mem_cons.mp hy with rfl | hy
    · exact le_rfl
    · exact hpost y hy

theorem Latest.le (h : Latest f l x) : ∀ y ∈ l, f y ≤ f x := by
  obtain ⟨pre, post, rfl, hpre, hpost⟩ := h
  intro y hy
  rcases List.mem_append.mp hy with hy | hy
  · exact hpre y hy
  · rcases List.mem_cons.mp hy with rfl | hy
    · exact le_rfl
    · exact (hpost y hy).le

theorem Earliest.mem (h : Earliest f l x) : x ∈ l := by
  obtain ⟨pre, post, rfl, -, -⟩ := h
  exact List.mem_append_right _ List.mem_cons_self

theorem Latest.mem (h : Latest f l x) : x ∈ l := by
  obtain ⟨pre, post, rfl, -, -⟩ := h
  exact List.mem_append_right _ List.mem_cons_self

theorem Earliest.value_unique (h : Earliest f l x) (h' : Earliest f l y) : f x = f y :=
  le_antisymm (h.le y h'.mem) (h'.le x h.mem)

theorem Latest.value_unique (h : Latest f l x) (h' : Latest f l y) : f x = f y :=
  le_antisymm (h'.le x h.mem) (h.le y h'.mem)

/-- A later arrival that is not below the least value leaves it. -/
theorem Earliest.snoc (h : Earliest f l x) (hy : f x ≤ f y) : Earliest f (l ++ [y]) x := by
  obtain ⟨pre, post, rfl, hpre, hpost⟩ := h
  refine ⟨pre, post ++ [y], by rw [List.append_assoc, List.cons_append], hpre, fun z hz => ?_⟩
  rcases List.mem_append.mp hz with hz | hz
  · exact hpost z hz
  · rw [List.mem_singleton.mp hz]
    exact hy

/-- A new least value. -/
theorem Earliest.replace (h : Earliest f l x) (hy : f y < f x) : Earliest f (l ++ [y]) y :=
  ⟨l, [], rfl, fun z hz => hy.trans_le (h.le z hz), fun _ hz => (by cases hz)⟩

/-- A later arrival below the greatest value leaves it. -/
theorem Latest.snoc (h : Latest f l x) (hy : f y < f x) : Latest f (l ++ [y]) x := by
  obtain ⟨pre, post, rfl, hpre, hpost⟩ := h
  refine ⟨pre, post ++ [y], by rw [List.append_assoc, List.cons_append], hpre, fun z hz => ?_⟩
  rcases List.mem_append.mp hz with hz | hz
  · exact hpost z hz
  · rw [List.mem_singleton.mp hz]
    exact hy

/-- A later arrival at or above the greatest value replaces it. -/
theorem Latest.replace (h : Latest f l x) (hy : f x ≤ f y) : Latest f (l ++ [y]) y :=
  ⟨l, [], rfl, fun z hz => (h.le z hz).trans hy, fun _ hz => (by cases hz)⟩

/-- What comes before the first element with a property, and after the last. -/
theorem split_snoc {pre post : List α} (h : l ++ [y] = pre ++ x :: post) :
    post = [] ∧ pre = l ∧ x = y ∨ ∃ post', post = post' ++ [y] ∧ l = pre ++ x :: post' := by
  rcases List.eq_nil_or_concat post with rfl | ⟨post', z, rfl⟩
  · obtain ⟨h1, h2⟩ := List.append_inj' h rfl
    cases h2
    exact .inl ⟨rfl, h1.symm, rfl⟩
  · rw [List.concat_eq_append, ← List.cons_append, ← List.append_assoc] at h
    obtain ⟨h1, h2⟩ := List.append_inj' h rfl
    cases h2
    exact .inr ⟨post', List.concat_eq_append .., h1⟩

end Lib.Arrival
