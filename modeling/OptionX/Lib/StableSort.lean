import Mathlib

/-!
# Stable sorts and runs

Sorting by a key, and the runs of equal keys in a list. Whatever order a list comes in, the keys of its sort are the
same; within one key the order of the list stays.
-/

namespace Lib.StableSort

variable {α κ σ : Type} [LinearOrder κ] {l l' : List α} {key : α → κ}

def sortOn (key : α → κ) (l : List α) : List α := l.mergeSort fun a b => key a ≤ key b

theorem sortOn_perm (key : α → κ) (l : List α) : (sortOn key l).Perm l := List.mergeSort_perm _ _

@[simp] theorem mem_sortOn {a : α} : a ∈ sortOn key l ↔ a ∈ l := (sortOn_perm key l).mem_iff

@[simp] theorem sortOn_nil : sortOn key [] = [] := List.mergeSort_nil

theorem sortOn_sorted (key : α → κ) (l : List α) : (sortOn key l).Pairwise fun a b => key a ≤ key b := by
  have h : (sortOn key l).Pairwise fun a b => decide (key a ≤ key b) = true := List.pairwise_mergeSort
    (fun a b c hab hbc => by simpa using (of_decide_eq_true hab).trans (of_decide_eq_true hbc))
    (fun a b => by simpa using le_total (key a) (key b)) l
  exact h.imp of_decide_eq_true

/-- The keys of a sort do not depend on the order of the list. -/
theorem map_sortOn_eq (key : α → κ) (h : l.Perm l') : (sortOn key l).map key = (sortOn key l').map key := by
  have hperm : ((sortOn key l).map key).Perm ((sortOn key l').map key) :=
    ((sortOn_perm key l).trans (h.trans (sortOn_perm key l').symm)).map key
  exact hperm.eq_of_pairwise (fun a b _ _ hab hba => le_antisymm hab hba)
    (List.pairwise_map.mpr (sortOn_sorted key l)) (List.pairwise_map.mpr (sortOn_sorted key l'))

/-- Where no key occurs twice, the sort does not depend on the order of the list. -/
theorem sortOn_eq_of_inj (h : l.Perm l') (hinj : ∀ a ∈ l, ∀ b ∈ l, key a = key b → a = b) :
    sortOn key l = sortOn key l' := by
  have hperm := (sortOn_perm key l).trans (h.trans (sortOn_perm key l').symm)
  refine hperm.eq_of_pairwise (fun a b ha hb hab hba => ?_) (sortOn_sorted key l) (sortOn_sorted key l')
  exact hinj a (mem_sortOn.mp ha) b (h.mem_iff.mpr (mem_sortOn.mp hb)) (le_antisymm hab hba)

/-- The elements of one key stay in the order of the list. -/
theorem filter_sortOn (k : κ) : (sortOn key l).filter (key · = k) = l.filter (key · = k) := by
  have hties : (l.filter (key · = k)).Pairwise fun a b => decide (key a ≤ key b) = true := by
    refine List.pairwise_of_forall_mem_list fun a ha b hb => ?_
    simp only [List.mem_filter, decide_eq_true_eq] at ha hb
    simp [ha.2, hb.2]
  have hsub : (l.filter (key · = k)).Sublist (sortOn key l) :=
    List.sublist_mergeSort (fun a b c hab hbc => by simpa using (of_decide_eq_true hab).trans (of_decide_eq_true hbc))
      (fun a b => by simpa using le_total (key a) (key b)) hties List.filter_sublist
  have hfilter := hsub.filter (key · = k)
  rw [List.filter_filter] at hfilter
  simp only [Bool.and_self] at hfilter
  exact (hfilter.eq_of_length ((sortOn_perm key l).filter _).length_eq.symm).symm

/-! ## Ranks -/

/-- In a sorted list, more than `k` elements are no greater than the one at place `k`. -/
theorem lt_countP_getElem {l : List κ} (h : l.Pairwise (· ≤ ·)) {k : Nat} (hk : k < l.length) :
    k < l.countP (· ≤ l[k]) := by
  have hfirst : (l.take (k + 1)).countP (· ≤ l[k]) = k + 1 := by
    rw [List.countP_eq_length.mpr, List.length_take_of_le hk]
    intro a ha
    obtain ⟨i, hi, rfl⟩ := List.mem_take_iff_getElem.mp ha
    have hik : i ≤ k := by omega
    exact decide_eq_true (h.rel_get_of_le (a := ⟨i, by omega⟩) (b := ⟨k, hk⟩) hik)
  have hle : (l.take (k + 1)).countP (· ≤ l[k]) ≤ l.countP (· ≤ l[k]) := (List.take_sublist _ _).countP_le
  omega

/-- The element at place `k` is the least with more than `k` elements no greater. -/
theorem getElem_le_of_lt_countP {l : List κ} (h : l.Pairwise (· ≤ ·)) {k : Nat} (hk : k < l.length) {c : κ}
    (hc : k < l.countP (· ≤ c)) : l[k] ≤ c := by
  by_contra hlt
  have hrest : (l.drop k).countP (· ≤ c) = 0 := by
    rw [List.countP_eq_zero]
    intro a ha
    obtain ⟨i, hi, rfl⟩ := List.mem_drop_iff_getElem.mp ha
    have hki : l[k] ≤ l[k + i] := h.rel_get_of_le (a := ⟨k, hk⟩) (b := ⟨k + i, by omega⟩) (Nat.le_add_right k i)
    simpa using (not_le.mp hlt).trans_le hki
  have hfirst : (l.take k).countP (· ≤ c) ≤ k := List.countP_le_length.trans (List.length_take_le k l)
  rw [← List.take_append_drop k l, List.countP_append, hrest] at hc
  omega

/-! ## One sort for each order -/

/-- A sorted list is determined by its elements of each key. -/
theorem eq_of_filter_eq (h : l.Pairwise fun a b => key a ≤ key b) (h' : l'.Pairwise fun a b => key a ≤ key b)
    (heq : ∀ k, l.filter (key · = k) = l'.filter (key · = k)) : l = l' := by
  induction l generalizing l' with
  | nil =>
      cases l' with
      | nil => rfl
      | cons b l' => simpa using heq (key b)
  | cons a l ih =>
      cases l' with
      | nil => simpa using heq (key a)
      | cons b l' =>
          have hmem : ∀ c, c ∈ a :: l ↔ c ∈ b :: l' := fun c => by
            have := congrArg (c ∈ ·) (heq (key c))
            simpa using this
          have hle : ∀ c ∈ a :: l, key a ≤ key c := by
            simpa using (List.pairwise_cons.mp h).1
          have hle' : ∀ c ∈ b :: l', key b ≤ key c := by
            simpa using (List.pairwise_cons.mp h').1
          have hkey : key a = key b :=
            le_antisymm (hle b ((hmem b).mpr (by simp))) (hle' a ((hmem a).mp (by simp)))
          have hab : a = b := by
            have := heq (key a)
            simp only [List.filter_cons, decide_true, hkey] at this
            exact (List.cons.inj this).1
          subst hab
          refine congrArg _ (ih (List.pairwise_cons.mp h).2 (List.pairwise_cons.mp h').2 fun k => ?_)
          have := heq k
          rw [List.filter_cons, List.filter_cons] at this
          split at this
          · exact (List.cons.inj this).2
          · exact this

/-- A part of a sort, chosen by keys, depends on the elements of these keys only. -/
theorem filter_sortOn_congr {p : κ → Bool} (h : ∀ k, p k = true → l.filter (key · = k) = l'.filter (key · = k)) :
    (sortOn key l).filter (fun a => p (key a)) = (sortOn key l').filter (fun a => p (key a)) := by
  refine eq_of_filter_eq ((sortOn_sorted key l).filter _) ((sortOn_sorted key l').filter _) fun k => ?_
  have hpart : ∀ m : List α, ((sortOn key m).filter fun a => p (key a)).filter (key · = k) =
      if p k = true then m.filter (key · = k) else [] := fun m => by
    rw [List.filter_filter]
    split
    · next hp =>
        rw [← filter_sortOn k]
        refine List.filter_congr fun a _ => ?_
        by_cases ha : key a = k <;> simp [ha, hp]
    · next hp =>
        rw [List.filter_eq_nil_iff]
        rintro a - ha
        simp only [Bool.and_eq_true, decide_eq_true_eq] at ha
        exact hp (ha.1 ▸ ha.2)
  rw [hpart, hpart]
  split
  · next hp => exact h k hp
  · rfl

/-- The last element of a part that it is in. -/
theorem getLast?_filter {p : α → Bool} {a : α} (h : l.getLast? = some a) (hp : p a = true) :
    (l.filter p).getLast? = some a := by
  obtain ⟨l, rfl⟩ := List.getLast?_eq_some_iff.mp h
  simp [hp]

theorem head?_filter {p : α → Bool} {a : α} (h : l.head? = some a) (hp : p a = true) : (l.filter p).head? = some a := by
  obtain ⟨l, rfl⟩ := List.head?_eq_some_iff.mp h
  simp [hp]

theorem le_getLast? (h : l.Pairwise fun a b => key a ≤ key b) {a : α} (hlast : l.getLast? = some a) :
    ∀ b ∈ l, key b ≤ key a := by
  obtain ⟨l, rfl⟩ := List.getLast?_eq_some_iff.mp hlast
  intro b hb
  rcases List.mem_append.mp hb with hb | hb
  · exact (List.pairwise_append.mp h).2.2 b hb a (by simp)
  · exact (List.mem_singleton.mp hb) ▸ le_rfl

theorem head?_le (h : l.Pairwise fun a b => key a ≤ key b) {a : α} (hhead : l.head? = some a) :
    ∀ b ∈ l, key a ≤ key b := by
  obtain ⟨l, rfl⟩ := List.head?_eq_some_iff.mp hhead
  simpa using (List.pairwise_cons.mp h).1

/-- Of two orders of a list, the same keys are in a part that is chosen by keys. -/
theorem map_filter_sortOn_eq {p : κ → Bool} (h : l.Perm l') :
    ((sortOn key l).filter fun a => p (key a)).map key = ((sortOn key l').filter fun a => p (key a)).map key := by
  have hmap := congrArg (List.filter p) (map_sortOn_eq key h)
  simp only [List.filter_map] at hmap
  exact hmap

variable (key) in
omit [LinearOrder κ] in
/-- What is read off the first element, where the keys are the same. -/
theorem map_head?_congr {β : Type} {φ : α → β} (h : l.map key = l'.map key)
    (heq : ∀ a b, l.head? = some a → l'.head? = some b → key a = key b → φ a = φ b) :
    l.head?.map φ = l'.head?.map φ := by
  have hhead := congrArg List.head? h
  simp only [List.head?_map] at hhead
  cases ha : l.head? with
  | none => cases hb : l'.head? <;> simp_all
  | some a =>
      cases hb : l'.head? with
      | none => simp [ha, hb] at hhead
      | some b =>
          rw [ha, hb] at hhead
          exact congrArg some (heq a b ha hb (Option.some.inj hhead))

variable (key) in
omit [LinearOrder κ] in
theorem map_getLast?_congr {β : Type} {φ : α → β} (h : l.map key = l'.map key)
    (heq : ∀ a b, l.getLast? = some a → l'.getLast? = some b → key a = key b → φ a = φ b) :
    l.getLast?.map φ = l'.getLast?.map φ := by
  rw [← List.head?_reverse, ← List.head?_reverse]
  refine map_head?_congr key (by rw [List.map_reverse, List.map_reverse, h]) fun a b ha hb => heq a b ?_ ?_
  · rwa [List.head?_reverse] at ha
  · rwa [List.head?_reverse] at hb

/-- What comes last in a list, and has the greatest key of a part, is the last of the part. -/
theorem getLast?_part {p : κ → Bool} {rest : List α} {a : α} (hp : p (key a) = true)
    (hmax : ∀ b ∈ rest, p (key b) = true → key b ≤ key a) :
    ((sortOn key (rest ++ [a])).filter fun b => p (key b)).getLast? = some a := by
  have hmem : a ∈ (sortOn key (rest ++ [a])).filter fun b => p (key b) := by simp [hp]
  obtain ⟨x, hx⟩ := Option.isSome_iff_exists.mp (List.getLast?_isSome.mpr (List.ne_nil_of_mem hmem))
  have hxmem := List.mem_of_getLast? hx
  have hkey : key x = key a := by
    refine le_antisymm ?_ (le_getLast? ((sortOn_sorted key _).filter _) hx a hmem)
    simp only [List.mem_filter, mem_sortOn, List.mem_append, List.mem_singleton] at hxmem
    rcases hxmem.1 with hrest | rfl
    · exact hmax x hrest hxmem.2
    · exact le_rfl
  have hlast := getLast?_filter (p := fun b => key b = key a) hx (by simpa using hkey)
  rw [List.filter_filter] at hlast
  have hties : (sortOn key (rest ++ [a])).filter (fun b => decide (key b = key a) && p (key b)) =
      (rest ++ [a]).filter (key · = key a) := by
    rw [← filter_sortOn (key a)]
    refine List.filter_congr fun b _ => ?_
    by_cases hb : key b = key a <;> simp [hb, hp]
  rw [hties, List.filter_append] at hlast
  have hxa : x = a := by simpa using hlast.symm
  rw [hx, hxa]

/-- What comes first in a list, and has the least key of a part, is the first of the part. -/
theorem head?_part {p : κ → Bool} {rest : List α} {a : α} (hp : p (key a) = true)
    (hmin : ∀ b ∈ rest, p (key b) = true → key a ≤ key b) :
    ((sortOn key (a :: rest)).filter fun b => p (key b)).head? = some a := by
  have hmem : a ∈ (sortOn key (a :: rest)).filter fun b => p (key b) := by simp [hp]
  obtain ⟨x, hx⟩ := Option.isSome_iff_exists.mp (List.isSome_head?.mpr (List.ne_nil_of_mem hmem))
  have hxmem := List.mem_of_mem_head? (Option.mem_def.mpr hx)
  have hkey : key x = key a := by
    refine le_antisymm (head?_le ((sortOn_sorted key _).filter _) hx a hmem) ?_
    simp only [List.mem_filter, mem_sortOn, List.mem_cons] at hxmem
    rcases hxmem.1 with rfl | hrest
    · exact le_rfl
    · exact hmin x hrest hxmem.2
  have hhead := head?_filter (p := fun b => key b = key a) hx (by simpa using hkey)
  rw [List.filter_filter] at hhead
  have hties : (sortOn key (a :: rest)).filter (fun b => decide (key b = key a) && p (key b)) =
      (a :: rest).filter (key · = key a) := by
    rw [← filter_sortOn (key a)]
    refine List.filter_congr fun b _ => ?_
    by_cases hb : key b = key a <;> simp [hb, hp]
  rw [hties] at hhead
  have hxa : x = a := by simpa using hhead.symm
  rw [hx, hxa]

/-! ## Runs -/

section Runs

variable {ι : Type} [DecidableEq ι] {g : α → ι}

/-- The maximal parts of a list in which `g` is constant, in their order. -/
def runs (g : α → ι) : List α → List (ι × List α)
  | [] => []
  | a :: l =>
      match runs g l with
      | [] => [(g a, [a])]
      | (k, run) :: rest => if g a = k then (k, a :: run) :: rest else (g a, [a]) :: (k, run) :: rest

@[simp]
theorem runs_nil : runs g [] = [] := rfl

theorem runs_cons_eq (a : α) (l : List α) : runs g (a :: l) =
    match runs g l with
    | [] => [(g a, [a])]
    | (k, run) :: rest => if g a = k then (k, a :: run) :: rest else (g a, [a]) :: (k, run) :: rest := rfl

theorem runs_flatten : (runs g l).flatMap Prod.snd = l := by
  induction l with
  | nil => rfl
  | cons a l ih =>
      rw [runs_cons_eq]
      split
      · next h =>
          rw [h] at ih
          simpa using ih
      · next h =>
          rw [h] at ih
          split <;> simpa using ih

theorem runs_const {run : ι × List α} (h : run ∈ runs g l) : run.2 ≠ [] ∧ ∀ a ∈ run.2, g a = run.1 := by
  induction l generalizing run with
  | nil => cases h
  | cons a l ih =>
      rw [runs_cons_eq] at h
      split at h
      · simp_all
      · next k first rest hruns =>
          have hfirst : first ≠ [] ∧ ∀ a ∈ first, g a = k := @ih (k, first) (by simp [hruns])
          have hrest : ∀ run ∈ rest, run.2 ≠ [] ∧ ∀ a ∈ run.2, g a = run.1 := fun run hrun => ih (by simp [hruns, hrun])
          split at h
          · next hk =>
              rcases List.mem_cons.mp h with rfl | h
              · exact ⟨by simp, by simpa [hk] using hfirst.2⟩
              · exact hrest run h
          · rcases List.mem_cons.mp h with rfl | h
            · simp
            · rcases List.mem_cons.mp h with rfl | h
              · exact hfirst
              · exact hrest run h

/-- One run ends where the value changes. -/
theorem runs_chain : (runs g l).IsChain fun run next => run.1 ≠ next.1 := by
  induction l with
  | nil => exact .nil
  | cons a l ih =>
      rw [runs_cons_eq]
      split
      · exact .singleton _
      · next k first rest hruns =>
          rw [hruns] at ih
          split
          · cases rest with
            | nil => exact .singleton _
            | cons next rest => exact .cons_cons (by simpa using (List.isChain_cons_cons.mp ih).1) (List.isChain_cons_cons.mp ih).2
          · next hk => exact .cons_cons hk ih

theorem runs_cons (a : α) (l : List α) : ∃ run rest, runs g (a :: l) = (g a, a :: run) :: rest := by
  rw [runs_cons_eq]
  split
  · exact ⟨_, _, rfl⟩
  · split
    · next h => exact ⟨_, _, by rw [h]⟩
    · exact ⟨_, _, rfl⟩

/-- The values of `g`, each once for every run. -/
def times (g : α → ι) (l : List α) : List ι := (runs g l).map Prod.fst

@[simp]
theorem times_nil : times g [] = [] := rfl

theorem times_cons (a : α) (l : List α) :
    times g (a :: l) = if (times g l).head? = some (g a) then times g l else g a :: times g l := by
  unfold times
  rw [runs_cons_eq]
  cases runs g l with
  | nil => simp
  | cons run rest =>
      by_cases h : g a = run.1
      · simp [h]
      · simp [h, Ne.symm h]

theorem times_congr (h : l.map g = l'.map g) : times g l = times g l' := by
  induction l generalizing l' with
  | nil => simp_all
  | cons a l ih =>
      cases l' with
      | nil => simp at h
      | cons b l' =>
          simp only [List.map_cons, List.cons.injEq] at h
          rw [times_cons, times_cons, h.1, ih h.2]

theorem mem_times {k : ι} : k ∈ times g l ↔ ∃ a ∈ l, g a = k := by
  induction l with
  | nil => simp
  | cons a l ih =>
      rw [times_cons]
      split
      · next h =>
          have hfirst : g a ∈ times g l := List.mem_of_mem_head? (Option.mem_def.mpr h)
          rw [List.exists_mem_cons_iff, ← ih]
          exact ⟨Or.inr, fun hor => hor.elim (fun heq => heq ▸ hfirst) id⟩
      · simp [ih, eq_comm]

theorem times_eq_nil : times g l = [] ↔ l = [] := by
  cases l with
  | nil => simp
  | cons a l => simpa using List.ne_nil_of_mem (mem_times.mpr ⟨a, by simp, rfl⟩)

end Runs

section SortedRuns

variable {f : α → κ} {step : σ → α → σ}

/-- In a sorted list each value has one run. -/
theorem times_sorted (h : l.Pairwise fun a b => f a ≤ f b) : (times f l).Pairwise (· < ·) := by
  induction l with
  | nil => simp
  | cons a l ih =>
      have hp := List.pairwise_cons.mp h
      rw [times_cons]
      split
      · exact ih hp.2
      · next hne =>
          refine List.pairwise_cons.mpr ⟨fun k hk => ?_, ih hp.2⟩
          obtain ⟨b, hb, rfl⟩ := mem_times.mp hk
          refine lt_of_le_of_ne (hp.1 b hb) fun heq => hne ?_
          -- the first run is the one of the least value
          cases l with
          | nil => simp at hb
          | cons c l =>
              have hc : f c = f a := by
                have hac := hp.1 c (by simp)
                have hcb : f c ≤ f b := by
                  rcases List.mem_cons.mp hb with rfl | hb
                  · exact le_rfl
                  · exact (List.pairwise_cons.mp hp.2).1 b hb
                exact le_antisymm (heq ▸ hcb) hac
              rw [times_cons]
              split
              · next hhead => rw [hhead, hc]
              · simp [hc]

/-- In a sorted list a run has all elements of its value. -/
theorem runs_eq (h : l.Pairwise fun a b => f a ≤ f b) :
    runs f l = (times f l).map fun k => (k, l.filter (f · = k)) := by
  induction l with
  | nil => simp
  | cons a l ih =>
      have hp := List.pairwise_cons.mp h
      have hih := ih hp.2
      have hother : ∀ k, k ≠ f a → (a :: l).filter (f · = k) = l.filter (f · = k) := fun k hk =>
        List.filter_cons_of_neg (by simpa using Ne.symm hk)
      rw [times_cons]
      cases htimes : times f l with
      | nil =>
          obtain rfl := times_eq_nil.mp htimes
          simp [runs_cons_eq]
      | cons k ks =>
          have hsorted := times_sorted hp.2
          rw [htimes] at hih hsorted
          have hks : ∀ k' ∈ ks, k < k' := (List.pairwise_cons.mp hsorted).1
          rw [runs_cons_eq, hih]
          by_cases hk : k = f a
          · subst hk
            have hrest : ∀ k' ∈ ks, (k', (a :: l).filter (f · = k')) = (k', l.filter (f · = k')) := fun k' hk' => by
              rw [hother k' (hks k' hk').ne']
            simp [List.map_congr_left hrest]
          · have hmem : ∀ k' ∈ k :: ks, k' ≠ f a := by
              rintro k' hk' rfl
              obtain ⟨b, hb, hfb⟩ := mem_times.mp (htimes ▸ List.mem_cons_self : k ∈ times f l)
              have hak : f a < k := lt_of_le_of_ne (hfb ▸ hp.1 b hb) (Ne.symm hk)
              rcases List.mem_cons.mp hk' with heq | hk'
              · exact hk heq.symm
              · exact absurd (hks _ hk') (not_lt.mpr hak.le)
            have hown : (a :: l).filter (f · = f a) = [a] := by
              rw [List.filter_cons_of_pos (by simp), List.filter_eq_nil_iff.mpr]
              intro b hb hfb
              exact hmem (f b) (htimes ▸ mem_times.mpr ⟨b, hb, rfl⟩) (of_decide_eq_true hfb)
            have hrest : ∀ k' ∈ k :: ks, (k', (a :: l).filter (f · = k')) = (k', l.filter (f · = k')) := fun k' hk' => by
              rw [hother k' (hmem k' hk')]
            rw [if_neg (by simpa using hk), List.map_cons (l := k :: ks), hown, List.map_congr_left hrest]
            simp [Ne.symm hk]

/-- A loop over runs: what it has made of the elements at the end of each run. -/
def sampled (step : σ → α → σ) (s : σ) : List (κ × List α) → List (κ × σ)
  | [] => []
  | (k, run) :: rest => (k, run.foldl step s) :: sampled step (run.foldl step s) rest

/-- At the end of its run, everything up to a value has been taken in. -/
theorem sampled_runs (h : l.Pairwise fun a b => f a ≤ f b) (s : σ) :
    sampled step s (runs f l) = (times f l).map fun k => (k, (l.filter (f · ≤ k)).foldl step s) := by
  induction l generalizing s with
  | nil => simp [sampled]
  | cons a l ih =>
      have hp := List.pairwise_cons.mp h
      have hih := ih hp.2 (step s a)
      have hle : ∀ k ∈ times f l, f a ≤ k := fun k hk => by
        obtain ⟨b, hb, rfl⟩ := mem_times.mp hk
        exact hp.1 b hb
      have hmap : ((times f l).map fun k => (k, ((a :: l).filter (f · ≤ k)).foldl step s)) =
          (times f l).map fun k => (k, (l.filter (f · ≤ k)).foldl step (step s a)) := by
        refine List.map_congr_left fun k hk => ?_
        rw [List.filter_cons_of_pos (by simpa using hle k hk), List.foldl_cons]
      unfold times at *
      rw [runs_cons_eq]
      cases hruns : runs f l with
      | nil =>
          have hl : l = [] := by
            cases l with
            | nil => rfl
            | cons c l =>
                have : f c ∈ times f (c :: l) := mem_times.mpr ⟨c, by simp, rfl⟩
                simp [times, hruns] at this
          simp [sampled, hl]
      | cons run rest =>
          obtain ⟨k, run⟩ := run
          rw [hruns] at hih hmap hle
          by_cases hk : f a = k
          · simp only [hk, if_true, List.map_cons] at hmap ⊢
            simp only [hmap]
            simpa [sampled] using hih
          · have hafter : ∀ b ∈ l, f a < f b := fun b hb => by
              have hmem : f b ∈ times f l := mem_times.mpr ⟨b, hb, rfl⟩
              have hsorted := times_sorted hp.2
              simp only [times, hruns, List.map_cons, List.mem_cons, List.pairwise_cons] at hmem hsorted
              have hlt : f a < k := lt_of_le_of_ne (hle k (by simp)) hk
              rcases hmem with heq | hmem
              · exact heq ▸ hlt
              · exact hlt.trans (hsorted.1 _ hmem)
            have hown : (a :: l).filter (f · ≤ f a) = [a] := by
              rw [List.filter_cons_of_pos (by simp), List.filter_eq_nil_iff.mpr]
              intro b hb
              simpa using hafter b hb
            simp only [hk, if_false, sampled, List.map_cons, hown, List.foldl_cons, List.foldl_nil] at hmap hih ⊢
            rw [hmap, hih]

end SortedRuns

end Lib.StableSort
