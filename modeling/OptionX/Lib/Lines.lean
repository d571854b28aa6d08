import Mathlib

/-!
# Texts of lines

A text is its complete lines, each followed by a separator, and what follows the last separator.
-/

namespace Lib.Lines

variable {α : Type} {sep : α}

/-- The text of these lines, each with its separator. -/
def joined (sep : α) : List (List α) → List α
  | [] => []
  | line :: lines => line ++ sep :: joined sep lines

@[simp] theorem joined_nil : joined sep [] = [] := rfl

@[simp] theorem joined_append (lines lines' : List (List α)) :
    joined sep (lines ++ lines') = joined sep lines ++ joined sep lines' := by
  induction lines with
  | nil => rfl
  | cons line lines ih => simp [joined, ih]

theorem length_joined_pos (sep : α) {lines : List (List α)} (h : lines ≠ []) : 0 < (joined sep lines).length := by
  cases lines with
  | nil => exact absurd rfl h
  | cons line lines => simp [joined]

theorem joined_eq_nil_or_ends (sep : α) (lines : List (List α)) :
    joined sep lines = [] ∨ (joined sep lines).getLast? = some sep := by
  induction lines using List.reverseRecOn with
  | nil => exact .inl rfl
  | append_singleton lines line _ => exact .inr (by simp [joined])

/-- The longest part in front that is empty or ends with a separator. -/
structure LongestComplete (sep : α) (text part : List α) : Prop where
  isPrefix : part <+: text
  ends : part = [] ∨ part.getLast? = some sep
  longest : ∀ other, other <+: text → other = [] ∨ other.getLast? = some sep → other.length ≤ part.length

theorem LongestComplete.unique {text part part' : List α} (h : LongestComplete sep text part)
    (h' : LongestComplete sep text part') : part = part' := by
  have hlength := Nat.le_antisymm (h'.longest part h.isPrefix h.ends) (h.longest part' h'.isPrefix h'.ends)
  exact (List.prefix_of_prefix_length_le h.isPrefix h'.isPrefix hlength.le).eq_of_length hlength

variable [DecidableEq α]

/-- The complete lines of a text and what follows them. -/
def split (sep : α) : List α → List (List α) × List α
  | [] => ([], [])
  | a :: text =>
      match split sep text with
      | (lines, tail) =>
          if a = sep then ([] :: lines, tail)
          else match lines with
            | [] => ([], a :: tail)
            | line :: lines => ((a :: line) :: lines, tail)

def complete (sep : α) (text : List α) : List (List α) := (split sep text).1

def partialTail (sep : α) (text : List α) : List α := (split sep text).2

theorem joined_complete (sep : α) (text : List α) : joined sep (complete sep text) ++ partialTail sep text = text := by
  induction text with
  | nil => rfl
  | cons a text ih =>
      rw [complete, partialTail] at ih ⊢
      rw [split]
      cases hsplit : split sep text with
      | mk lines tail =>
          rw [hsplit] at ih
          by_cases ha : a = sep
          · simp [ha, joined, ← ih]
          · cases lines with
            | nil => simpa [ha] using ih
            | cons line lines => simpa [ha, joined] using ih

theorem sep_not_mem (sep : α) (text : List α) :
    (∀ line ∈ complete sep text, sep ∉ line) ∧ sep ∉ partialTail sep text := by
  induction text with
  | nil => exact ⟨by simp [complete, split], by simp [partialTail, split]⟩
  | cons a text ih =>
      rw [complete, partialTail] at ih ⊢
      rw [split]
      cases hsplit : split sep text with
      | mk lines tail =>
          rw [hsplit] at ih
          by_cases ha : a = sep
          · simpa [ha] using ih
          · cases lines with
            | nil => simpa [ha, Ne.symm ha] using ih
            | cons line lines => simpa [ha, Ne.symm ha] using ih

theorem split_append {line : List α} (h : sep ∉ line) (text : List α) :
    split sep (line ++ sep :: text) = (line :: complete sep text, partialTail sep text) := by
  induction line with
  | nil => simp [split, complete, partialTail]
  | cons a line ih =>
      rw [List.mem_cons, not_or] at h
      rw [List.cons_append, split, ih h.2]
      simp [Ne.symm h.1]

theorem split_of_not_mem {tail : List α} (h : sep ∉ tail) : split sep tail = ([], tail) := by
  induction tail with
  | nil => rfl
  | cons a tail ih =>
      rw [List.mem_cons, not_or] at h
      rw [split, ih h.2]
      simp [Ne.symm h.1]

/-- There is one way only to take a text apart. -/
theorem split_joined {lines : List (List α)} {tail : List α} (h : ∀ line ∈ lines, sep ∉ line) (htail : sep ∉ tail) :
    split sep (joined sep lines ++ tail) = (lines, tail) := by
  induction lines with
  | nil => exact split_of_not_mem htail
  | cons line lines ih =>
      have hrest := ih fun l hl => h l (List.mem_cons_of_mem _ hl)
      rw [joined, List.append_assoc, List.cons_append, split_append (h line List.mem_cons_self), complete, partialTail,
        hrest]

theorem complete_joined {lines : List (List α)} {tail : List α} (h : ∀ line ∈ lines, sep ∉ line) (htail : sep ∉ tail) :
    complete sep (joined sep lines ++ tail) = lines := by
  rw [complete, split_joined h htail]

theorem partialTail_joined {lines : List (List α)} {tail : List α} (h : ∀ line ∈ lines, sep ∉ line)
    (htail : sep ∉ tail) : partialTail sep (joined sep lines ++ tail) = tail := by
  rw [partialTail, split_joined h htail]

theorem longestComplete (sep : α) (text : List α) : LongestComplete sep text (joined sep (complete sep text)) where
  isPrefix := ⟨partialTail sep text, joined_complete sep text⟩
  ends := joined_eq_nil_or_ends sep _
  longest other hother hends := by
    by_contra hlonger
    rw [Nat.not_le] at hlonger
    obtain rfl | hlast := hends
    · simp at hlonger
    -- a longer part would have a separator in the tail
    obtain ⟨extra, rfl⟩ := List.prefix_of_prefix_length_le ⟨partialTail sep text, joined_complete sep text⟩ hother hlonger.le
    have hextra : extra ≠ [] := by
      rintro rfl
      simp at hlonger
    rw [List.getLast?_append_of_ne_nil _ hextra] at hlast
    have hpart : extra <+: partialTail sep text := by
      rw [← joined_complete sep text] at hother
      simpa [complete_joined (sep_not_mem sep text).1 (sep_not_mem sep text).2] using hother
    exact (sep_not_mem sep text).2 (hpart.subset (List.mem_of_getLast? hlast))

end Lib.Lines
