import Mathlib

/-!
# Searching in strings

Where a text is split by a test, and `find` of a string on lists: what stands before the first occurrence, and the rest
from it on.
-/

namespace Lib.Strings

/-! ## Splitting a text -/

/-- A text is split where its second part begins with the first character that fails the test. -/
theorem takeWhile_split {α : Type} {p : α → Bool} {a b : List α} (ha : ∀ c ∈ a, p c = true)
    (hb : ∀ c ∈ b.head?, p c = false) : (a ++ b).takeWhile p = a ∧ (a ++ b).dropWhile p = b := by
  rw [List.takeWhile_append_of_pos ha, List.dropWhile_append_of_pos ha]
  cases b with
  | nil => simp
  | cons c b => simp [hb c (by simp)]

/-- A text is split in one way where the second part begins with its first stop. -/
theorem split_unique {α : Type} {stop : α → Bool} {a a' b b' : List α} (ha : ∀ c ∈ a, stop c = false)
    (hb : ∀ c ∈ b.head?, stop c = true) (ha' : ∀ c ∈ a', stop c = false) (hb' : ∀ c ∈ b'.head?, stop c = true)
    (h : a ++ b = a' ++ b') : a = a' ∧ b = b' := by
  have hsplit := @takeWhile_split _ (!stop ·) a b (by simpa using ha) (by simpa using hb)
  have hsplit' := @takeWhile_split _ (!stop ·) a' b' (by simpa using ha') (by simpa using hb')
  rw [h] at hsplit
  exact ⟨hsplit.1.symm.trans hsplit'.1, hsplit.2.symm.trans hsplit'.2⟩

/-! ## Finding -/

variable {α : Type} [DecidableEq α] {needle l before rest : List α}

/-- The text before the first occurrence of `needle`, and the text from there. -/
def cut (needle : List α) : List α → Option (List α × List α)
  | [] => if needle = [] then some ([], []) else none
  | c :: l =>
    if needle.isPrefixOf (c :: l) then some ([], c :: l)
    else (cut needle l).map fun (before, rest) => (c :: before, rest)

/-- A cut gives the whole text back, and its rest begins with the needle. -/
theorem cut_eq (h : cut needle l = some (before, rest)) : l = before ++ rest ∧ needle <+: rest := by
  induction l generalizing before with
  | nil =>
    simp only [cut, Option.ite_none_right_eq_some, Option.some.injEq, Prod.mk.injEq] at h
    obtain ⟨rfl, rfl, rfl⟩ := h
    exact ⟨rfl, List.nil_prefix⟩
  | cons c l ih =>
    rw [cut] at h
    split at h
    · rename_i hstarts
      simp only [Option.some.injEq, Prod.mk.injEq] at h
      obtain ⟨rfl, rfl⟩ := h
      exact ⟨rfl, List.isPrefixOf_iff_prefix.mp hstarts⟩
    · simp only [Option.map_eq_some_iff, Prod.mk.injEq] at h
      obtain ⟨⟨before', rest'⟩, hcut, rfl, rfl⟩ := h
      obtain ⟨rfl, hneedle⟩ := ih hcut
      exact ⟨rfl, hneedle⟩

/-- What follows the needle is shorter than the text. -/
theorem length_drop_cut_lt (hne : needle ≠ []) (h : cut needle l = some (before, rest)) :
    (rest.drop needle.length).length < l.length := by
  obtain ⟨rfl, hneedle⟩ := cut_eq h
  have hpos := List.length_pos_iff.mpr hne
  have hle := hneedle.length_le
  simp only [List.length_drop, List.length_append]
  omega

/-- Where the first occurrence is does not depend on what follows it. -/
theorem cut_append_congr {after after' : List α} (h : cut needle l = some (before, needle ++ after)) :
    cut needle (before ++ (needle ++ after')) = some (before, needle ++ after') := by
  induction before generalizing l with
  | nil =>
    cases needle with
    | nil => cases after' <;> simp [cut]
    | cons c needle => simp [cut]
  | cons c before ih =>
    obtain ⟨rfl, _⟩ := cut_eq h
    simp only [List.cons_append] at h ⊢
    rw [cut] at h ⊢
    have hnot : needle.isPrefixOf (c :: (before ++ (needle ++ after))) = false := by
      rw [Bool.eq_false_iff]
      intro hstarts
      simp [hstarts] at h
    have hnot' : needle.isPrefixOf (c :: (before ++ (needle ++ after'))) = false := by
      rw [Bool.eq_false_iff, ne_eq, List.isPrefixOf_iff_prefix]
      intro hstarts
      rw [Bool.eq_false_iff, ne_eq, List.isPrefixOf_iff_prefix] at hnot
      -- an occurrence before the first one would end within it
      have hlong : (c :: before) ++ needle <+: c :: (before ++ (needle ++ after')) := by
        simp [← List.append_assoc]
      have hwhole : needle <+: (c :: before) ++ needle :=
        List.prefix_of_prefix_length_le hstarts hlong (by simp; omega)
      exact hnot (by simpa using hwhole.trans (List.prefix_append _ after))
    simp only [hnot, hnot', Bool.false_eq_true, if_false, Option.map_eq_some_iff, Prod.mk.injEq, List.cons.injEq,
      true_and] at h ⊢
    obtain ⟨⟨before', rest⟩, hcut, rfl, rfl⟩ := h
    exact ⟨_, ih hcut, rfl, rfl⟩

/-- Without the first character of the needle before it, the needle is found. -/
theorem cut_append {c : α} {needle before after : List α} (h : c ∉ before) :
    cut (c :: needle) (before ++ (c :: needle ++ after)) = some (before, c :: needle ++ after) := by
  induction before with
  | nil => simp [cut]
  | cons d before ih =>
    simp only [List.mem_cons, not_or] at h
    have hnot : (c :: needle).isPrefixOf (d :: (before ++ (c :: needle ++ after))) = false := by
      simp [List.isPrefixOf, h.1]
    simp only [List.cons_append] at ih hnot ⊢
    rw [cut, hnot, if_neg (by simp), ih h.2]
    rfl

/-- Before its first occurrence the needle occurs nowhere. -/
theorem cut_first (h : cut needle l = some (before, rest)) :
    ∀ w y, before = w ++ y → y ≠ [] → ¬ needle <+: y ++ rest := by
  induction l generalizing before with
  | nil =>
    simp only [cut, Option.ite_none_right_eq_some, Option.some.injEq, Prod.mk.injEq] at h
    rintro w y hw hy
    simp [← h.2.1, hy] at hw
  | cons c l ih =>
    rw [cut] at h
    split at h
    · simp only [Option.some.injEq, Prod.mk.injEq] at h
      rintro w y hw hy
      simp [← h.1, hy] at hw
    · rename_i hnot
      simp only [Option.map_eq_some_iff, Prod.mk.injEq] at h
      obtain ⟨⟨before', rest'⟩, hcut, rfl, rfl⟩ := h
      rintro w y hw hy
      cases w with
      | nil =>
        rw [List.nil_append] at hw
        rw [← hw, List.cons_append, ← (cut_eq hcut).1]
        rwa [List.isPrefixOf_iff_prefix] at hnot
      | cons d w =>
        rw [List.cons_append, List.cons.injEq] at hw
        exact ih hcut w y hw.2 hy

/-- A needle that is not found occurs nowhere. -/
theorem cut_none (h : cut needle l = none) : ¬ needle <:+: l := by
  induction l with
  | nil =>
    simp only [cut, ite_eq_right_iff, reduceCtorEq, imp_false] at h
    simpa using h
  | cons c l ih =>
    rw [cut] at h
    split at h
    · cases h
    · rename_i hnot
      rw [Option.map_eq_none_iff] at h
      rw [List.isPrefixOf_iff_prefix] at hnot
      rw [List.infix_cons_iff, not_or]
      exact ⟨hnot, ih h⟩

end Lib.Strings
