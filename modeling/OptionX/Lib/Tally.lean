import OptionX.Lib.OrderedMap

/-!
# Tallies

Elements collected under keys, each entry of the map being made of the elements with its key in the order of the list.
Where adding commutes, the order of the list does not matter, and a quantity that adds up over the elements adds up over
the entries.
-/

namespace Lib.Tally

open OrderedMap

variable {α β κ M : Type} [LinearOrder κ] {add : β → α → β} {start : β} {key : α → Option κ} {l l' : List α}

def addTo (add : β → α → β) (start : β) (key : α → Option κ) (m : OrderedMap κ β) (a : α) : OrderedMap κ β :=
  match key a with
  | none => m
  | some k => m.assign k (add ((m.find? k).getD start) a)

def collect (add : β → α → β) (start : β) (key : α → Option κ) (l : List α) : OrderedMap κ β :=
  l.foldl (addTo add start key) .empty

/-- The entry of a key. -/
def entry (add : β → α → β) (start : β) (own : List α) : Option β := if own = [] then none else some (own.foldl add start)

theorem collect_append_one (a : α) :
    collect add start key (l ++ [a]) = addTo add start key (collect add start key l) a := by
  rw [collect, List.foldl_append]
  rfl

theorem entry_append_one (own : List α) (a : α) :
    entry add start (own ++ [a]) = some (add (own.foldl add start) a) := by
  simp [entry]

theorem find?_collect (k : κ) :
    (collect add start key l).find? k = entry add start (l.filter fun a => key a = some k) := by
  induction l using List.reverseRecOn with
  | nil => rfl
  | append_singleton l a ih =>
      rw [collect_append_one, addTo, List.filter_append]
      cases hkey : key a with
      | none => simp [hkey, ih]
      | some k' =>
          by_cases hk : k' = k
          · subst hk
            simp only [find?_assign, if_true, ih, hkey, decide_true, List.filter_cons_of_pos, List.filter_nil]
            rw [entry_append_one, entry]
            split
            · next hnil => simp [hnil]
            · simp
          · have hne : ¬ k = k' := fun h => hk h.symm
            simp [ih, hkey, hk, hne]

theorem entry_perm [RightCommutative add] (h : l.Perm l') : entry add start l = entry add start l' := by
  have hnil : l = [] ↔ l' = [] := ⟨fun hl => List.nil_perm.mp (hl ▸ h), fun hl => List.perm_nil.mp (hl ▸ h)⟩
  simp only [entry, hnil, h.foldl_eq]

theorem collect_perm [RightCommutative add] (h : l.Perm l') : collect add start key l = collect add start key l' :=
  ext_find? fun k => by rw [find?_collect, find?_collect, entry_perm (h.filter _)]

theorem sumOf_collect [AddCancelCommMonoid M] {measure : β → M} {weight : α → M} (hstart : measure start = 0)
    (hadd : ∀ b a, measure (add b a) = measure b + weight a) (hkey : ∀ a ∈ l, (key a).isSome) :
    (collect add start key l).sumOf measure = (l.map weight).sum := by
  induction l using List.reverseRecOn with
  | nil => rfl
  | append_singleton l a ih =>
      have hih := ih fun b hb => hkey b (by simp [hb])
      obtain ⟨k, hk⟩ := Option.isSome_iff_exists.mp (hkey a (by simp))
      rw [collect_append_one, addTo, hk, List.map_append, List.sum_append, ← hih]
      cases hfind : (collect add start key l).find? k with
      | none => simp [sumOf_assign_of_none hfind, hfind, hadd, hstart, add_comm]
      | some b =>
          apply add_right_cancel (b := measure b)
          rw [sumOf_assign_of_some hfind, hfind, Option.getD_some, hadd]
          simp only [List.map_cons, List.map_nil, List.sum_cons, List.sum_nil, add_zero]
          ac_rfl

/-! ## Parts of a list -/

section Parts

variable {ι : Type} [AddCommMonoid M] {part : ι → α → Bool} {weight : α → M}

theorem sum_parts_one (a : α) (parts : List ι) :
    (parts.map fun i => if part i a = true then weight a else 0).sum = parts.countP (part · a) • weight a := by
  induction parts with
  | nil => simp
  | cons i parts ih =>
      by_cases hi : part i a = true
      · simp [hi, ih, succ_nsmul']
      · simp [hi, ih]

/-- Where each element is in one part, the parts add up to the whole. -/
theorem sum_parts {parts : List ι} {whole : α → Bool}
    (h : ∀ a ∈ l, parts.countP (part · a) = if whole a = true then 1 else 0) :
    (parts.map fun i => ((l.filter (part i)).map weight).sum).sum = ((l.filter whole).map weight).sum := by
  induction l with
  | nil => simp
  | cons a l ih =>
      have hhead : ∀ i, (((a :: l).filter (part i)).map weight).sum =
          (if part i a = true then weight a else 0) + ((l.filter (part i)).map weight).sum := fun i => by
        by_cases hi : part i a = true <;> simp [hi]
      simp only [hhead, List.sum_map_add, sum_parts_one, ih fun b hb => h b (List.mem_cons_of_mem _ hb), h a (by simp)]
      by_cases ha : whole a = true <;> simp [ha]

end Parts

end Lib.Tally
