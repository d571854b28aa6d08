import Mathlib

/-!
# Ordered maps

A finite map kept as the list of its entries in strictly increasing key order. Two maps with the same
lookups are equal, and every operation is specified by what `find?` returns after it.
-/

namespace Lib

/-- A finite map. The entries are in strictly increasing key order, so no key occurs twice. -/
structure OrderedMap (κ α : Type) [LinearOrder κ] where
  entries : List (κ × α)
  sorted : entries.Pairwise (fun a b => a.1 < b.1)

namespace OrderedMap

variable {κ α β : Type} [LinearOrder κ]

def empty : OrderedMap κ α := ⟨[], .nil⟩

instance : Inhabited (OrderedMap κ α) := ⟨empty⟩

def find? (m : OrderedMap κ α) (k : κ) : Option α :=
  (m.entries.find? (fun e => e.1 = k)).map Prod.snd

def contains (m : OrderedMap κ α) (k : κ) : Bool := (m.find? k).isSome

def keys (m : OrderedMap κ α) : List κ := m.entries.map Prod.fst

def values (m : OrderedMap κ α) : List α := m.entries.map Prod.snd

/-- Puts an entry before the first entry with a larger key; an entry with the same key stays. -/
def emplaceEntry (k : κ) (v : α) : List (κ × α) → List (κ × α)
  | [] => [(k, v)]
  | e :: es =>
      if k < e.1 then (k, v) :: e :: es
      else if k = e.1 then e :: es
      else e :: emplaceEntry k v es

theorem mem_emplaceEntry {k : κ} {v : α} {es : List (κ × α)} {x : κ × α}
    (h : x ∈ emplaceEntry k v es) : x = (k, v) ∨ x ∈ es := by
  induction es with
  | nil => exact Or.inl (by simpa [emplaceEntry] using h)
  | cons e es ih =>
      simp only [emplaceEntry] at h
      split at h
      · simpa using h
      · split at h
        · exact Or.inr h
        · rcases List.mem_cons.mp h with rfl | h
          · exact Or.inr (by simp)
          · rcases ih h with rfl | h
            · exact Or.inl rfl
            · exact Or.inr (by simp [h])

theorem emplaceEntry_sorted (k : κ) (v : α) {es : List (κ × α)}
    (h : es.Pairwise (fun a b => a.1 < b.1)) :
    (emplaceEntry k v es).Pairwise (fun a b => a.1 < b.1) := by
  induction es with
  | nil => simp [emplaceEntry]
  | cons e es ih =>
      have hp := List.pairwise_cons.mp h
      simp only [emplaceEntry]
      split
      · rename_i hlt
        refine List.pairwise_cons.mpr ⟨fun x hx => ?_, h⟩
        rcases List.mem_cons.mp hx with rfl | hx
        · exact hlt
        · exact hlt.trans (hp.1 x hx)
      · split
        · exact h
        · rename_i hnlt hne
          refine List.pairwise_cons.mpr ⟨fun x hx => ?_, ih hp.2⟩
          rcases mem_emplaceEntry hx with rfl | hx
          · exact lt_of_le_of_ne (not_lt.mp hnlt) (Ne.symm hne)
          · exact hp.1 x hx

/-- Adds an entry unless the key is bound already. -/
def emplace (m : OrderedMap κ α) (k : κ) (v : α) : OrderedMap κ α :=
  ⟨emplaceEntry k v m.entries, emplaceEntry_sorted k v m.sorted⟩

/-- Overwrites the value of a bound key; an unbound key stays unbound. -/
def set (m : OrderedMap κ α) (k : κ) (v : α) : OrderedMap κ α where
  entries := m.entries.map (fun e => if e.1 = k then (e.1, v) else e)
  sorted := by
    refine List.pairwise_map.mpr (m.sorted.imp ?_)
    intro a b h
    split <;> split <;> exact h

/-- Binds a key, whether it is bound already or not. -/
def assign (m : OrderedMap κ α) (k : κ) (v : α) : OrderedMap κ α :=
  if m.contains k then m.set k v else m.emplace k v

def erase (m : OrderedMap κ α) (k : κ) : OrderedMap κ α where
  entries := m.entries.filter (fun e => e.1 ≠ k)
  sorted := m.sorted.filter _

def mapValues (f : α → β) (m : OrderedMap κ α) : OrderedMap κ β where
  entries := m.entries.map fun e => (e.1, f e.2)
  sorted := List.pairwise_map.mpr m.sorted

/-! ## Lookups -/

theorem key_inj {m : OrderedMap κ α} {k : κ} {v w : α} (hv : (k, v) ∈ m.entries)
    (hw : (k, w) ∈ m.entries) : v = w := by
  have h := m.sorted
  revert hv hw h
  induction m.entries with
  | nil => intro hv; simp at hv
  | cons e es ih =>
      intro hv hw h
      have hp := List.pairwise_cons.mp h
      rcases List.mem_cons.mp hv with hv | hv <;> rcases List.mem_cons.mp hw with hw | hw
      · rw [← hv] at hw; exact (Prod.mk.inj hw).2.symm
      · have hlt := hp.1 _ hw; rw [← hv] at hlt; exact absurd hlt (lt_irrefl _)
      · have hlt := hp.1 _ hv; rw [← hw] at hlt; exact absurd hlt (lt_irrefl _)
      · exact ih hv hw hp.2

/-- A lookup finds exactly the entries of the map. -/
theorem find?_eq_some {m : OrderedMap κ α} {k : κ} {v : α} :
    m.find? k = some v ↔ (k, v) ∈ m.entries := by
  constructor
  · intro h
    obtain ⟨e, he, rfl⟩ := Option.map_eq_some_iff.mp h
    have hk : e.1 = k := by simpa using List.find?_some he
    exact hk ▸ List.mem_of_find?_eq_some he
  · intro h
    obtain ⟨e, he⟩ : ∃ e, m.entries.find? (fun e => e.1 = k) = some e := by
      refine Option.isSome_iff_exists.mp (List.find?_isSome.mpr ⟨(k, v), h, by simp⟩)
    have hk : e.1 = k := by simpa using List.find?_some he
    have hm : (k, e.2) ∈ m.entries := hk ▸ List.mem_of_find?_eq_some he
    simp only [find?, he, Option.map_some, Option.some.injEq]
    exact key_inj hm h

theorem find?_eq_none {m : OrderedMap κ α} {k : κ} :
    m.find? k = none ↔ ∀ v, (k, v) ∉ m.entries := by
  constructor
  · intro h v hv
    rw [find?_eq_some.mpr hv] at h
    cases h
  · intro h
    cases hf : m.find? k with
    | none => rfl
    | some v => exact absurd (find?_eq_some.mp hf) (h v)

theorem mem_values {m : OrderedMap κ α} {v : α} : v ∈ m.values ↔ ∃ k, m.find? k = some v := by
  simp [values, find?_eq_some]

theorem mem_keys {m : OrderedMap κ α} {k : κ} : k ∈ m.keys ↔ ∃ v, m.find? k = some v := by
  simp [keys, find?_eq_some]

@[simp] theorem find?_empty (k : κ) : (empty : OrderedMap κ α).find? k = none := rfl

@[simp] theorem values_empty : (empty : OrderedMap κ α).values = [] := rfl

theorem contains_iff {m : OrderedMap κ α} {k : κ} :
    m.contains k = true ↔ ∃ v, m.find? k = some v := Option.isSome_iff_exists

theorem contains_eq_false {m : OrderedMap κ α} {k : κ} :
    m.contains k = false ↔ m.find? k = none := by
  simp [contains]

theorem keys_nodup (m : OrderedMap κ α) : m.keys.Nodup :=
  List.pairwise_map.mpr (m.sorted.imp (fun h => ne_of_lt h))

/-- Two maps with the same lookups have the same entries. -/
theorem ext_find? {m m' : OrderedMap κ α} (h : ∀ k, m.find? k = m'.find? k) : m = m' := by
  obtain ⟨es, hs⟩ := m
  obtain ⟨es', hs'⟩ := m'
  have hmem : ∀ x : κ × α, x ∈ es ↔ x ∈ es' := by
    rintro ⟨k, v⟩
    have := h k
    constructor
    · intro hx
      exact find?_eq_some.mp (this.symm.trans (find?_eq_some.mpr hx))
    · intro hx
      exact find?_eq_some.mp (this.trans (find?_eq_some (m := ⟨es', hs'⟩).mpr hx))
  have hperm : es.Perm es' :=
    (List.perm_ext_iff_of_nodup (hs.imp (fun h he => (he ▸ h).ne rfl))
      (hs'.imp (fun h he => (he ▸ h).ne rfl))).mpr hmem
  have : es = es' :=
    hperm.eq_of_pairwise (fun a b _ _ hab hba => absurd (hab.trans hba) (lt_irrefl _)) hs hs'
  subst this
  rfl

/-! ## Lookups after an operation -/

theorem emplaceEntry_of_mem {k : κ} {v w : α} {es : List (κ × α)}
    (h : es.Pairwise (fun a b => a.1 < b.1)) (hw : (k, w) ∈ es) : emplaceEntry k v es = es := by
  induction es with
  | nil => simp at hw
  | cons e es ih =>
      have hp := List.pairwise_cons.mp h
      rcases List.mem_cons.mp hw with rfl | hw
      · simp [emplaceEntry]
      · have hlt := hp.1 _ hw
        simp [emplaceEntry, not_lt_of_gt hlt, ne_of_gt hlt, ih hp.2 hw]

theorem emplaceEntry_perm {k : κ} {v : α} {es : List (κ × α)} (h : ∀ w, (k, w) ∉ es) :
    (emplaceEntry k v es).Perm ((k, v) :: es) := by
  induction es with
  | nil => exact .refl _
  | cons e es ih =>
      simp only [emplaceEntry]
      split
      · exact .refl _
      · split
        · rename_i he
          exact absurd (show (k, e.2) ∈ e :: es by simp [he]) (h e.2)
        · exact (List.Perm.cons e (ih (fun w hw => h w (by simp [hw])))).trans (.swap _ _ _)

theorem emplace_of_some {m : OrderedMap κ α} {k : κ} {w : α} (h : m.find? k = some w) (v : α) :
    m.emplace k v = m := by
  obtain ⟨es, hs⟩ := m
  simp only [emplace, mk.injEq]
  exact emplaceEntry_of_mem hs (find?_eq_some.mp h)

theorem emplace_perm {m : OrderedMap κ α} {k : κ} (h : m.find? k = none) (v : α) :
    (m.emplace k v).entries.Perm ((k, v) :: m.entries) :=
  emplaceEntry_perm (find?_eq_none.mp h)

theorem find?_emplace {m : OrderedMap κ α} {k : κ} (h : m.find? k = none) (v : α) (k' : κ) :
    (m.emplace k v).find? k' = if k' = k then some v else m.find? k' := by
  have hmem : ∀ w, (k', w) ∈ (m.emplace k v).entries ↔ (k' = k ∧ w = v) ∨ (k', w) ∈ m.entries := by
    intro w
    rw [(emplace_perm h v).mem_iff]
    simp
  by_cases hk : k' = k
  · subst hk
    simp only [if_true]
    exact find?_eq_some.mpr ((hmem v).mpr (Or.inl ⟨rfl, rfl⟩))
  · simp only [hk, if_false]
    cases hf : m.find? k' with
    | none =>
        refine find?_eq_none.mpr (fun w hw => ?_)
        rcases (hmem w).mp hw with ⟨he, _⟩ | hw
        · exact hk he
        · exact find?_eq_none.mp hf w hw
    | some w => exact find?_eq_some.mpr ((hmem w).mpr (Or.inr (find?_eq_some.mp hf)))

/-- What is bound stays bound when another entry is added. -/
theorem find?_emplace_of_some {m : OrderedMap κ α} {k k' : κ} {v w : α} (h : m.find? k' = some w) :
    (m.emplace k v).find? k' = some w := by
  cases hk : m.find? k with
  | none =>
      rw [find?_emplace hk, if_neg]
      · exact h
      · rintro rfl
        rw [hk] at h
        cases h
  | some u => rwa [emplace_of_some hk]

theorem mem_set {m : OrderedMap κ α} {k k' : κ} {v w : α} :
    (k', w) ∈ (m.set k v).entries ↔
      (k' = k ∧ w = v ∧ ∃ u, (k, u) ∈ m.entries) ∨ (k' ≠ k ∧ (k', w) ∈ m.entries) := by
  simp only [set, List.mem_map]
  constructor
  · rintro ⟨e, he, heq⟩
    split at heq
    · rename_i hk
      obtain ⟨rfl, rfl⟩ := Prod.mk.inj heq
      exact Or.inl ⟨hk, rfl, e.2, hk ▸ he⟩
    · rename_i hk
      subst heq
      exact Or.inr ⟨hk, he⟩
  · rintro (⟨rfl, rfl, u, hu⟩ | ⟨hk, hw⟩)
    · exact ⟨(k', u), hu, by simp⟩
    · exact ⟨(k', w), hw, by simp [hk]⟩

theorem find?_set {m : OrderedMap κ α} {k : κ} {u : α} (h : m.find? k = some u) (v : α) (k' : κ) :
    (m.set k v).find? k' = if k' = k then some v else m.find? k' := by
  by_cases hk : k' = k
  · subst hk
    simp only [if_true]
    exact find?_eq_some.mpr (mem_set.mpr (Or.inl ⟨rfl, rfl, u, find?_eq_some.mp h⟩))
  · simp only [hk, if_false]
    cases hf : m.find? k' with
    | none =>
        refine find?_eq_none.mpr (fun w hw => ?_)
        rcases mem_set.mp hw with ⟨he, _⟩ | ⟨_, hw⟩
        · exact hk he
        · exact find?_eq_none.mp hf w hw
    | some w => exact find?_eq_some.mpr (mem_set.mpr (Or.inr ⟨hk, find?_eq_some.mp hf⟩))

@[simp] theorem find?_assign (m : OrderedMap κ α) (k : κ) (v : α) (k' : κ) :
    (m.assign k v).find? k' = if k' = k then some v else m.find? k' := by
  unfold assign
  split
  · next h =>
    obtain ⟨u, hu⟩ := contains_iff.mp h
    exact find?_set hu v k'
  · next h => exact find?_emplace (contains_eq_false.mp (by simpa using h)) v k'

@[simp] theorem find?_erase (m : OrderedMap κ α) (k k' : κ) :
    (m.erase k).find? k' = if k' = k then none else m.find? k' := by
  split
  · next h => exact find?_eq_none.mpr fun v hv => by simp [erase, h] at hv
  · next h =>
    cases hf : m.find? k' with
    | none => exact find?_eq_none.mpr fun v hv => find?_eq_none.mp hf v (List.mem_of_mem_filter hv)
    | some v => exact find?_eq_some.mpr (by simpa [erase, h] using find?_eq_some.mp hf)

@[simp] theorem find?_mapValues (f : α → β) (m : OrderedMap κ α) (k : κ) :
    (m.mapValues f).find? k = (m.find? k).map f := by
  simp [find?, mapValues, List.find?_map, Function.comp_def]

@[simp] theorem keys_set (m : OrderedMap κ α) (k : κ) (v : α) : (m.set k v).keys = m.keys := by
  simp only [keys, set, List.map_map]
  refine List.map_congr_left (fun e _ => ?_)
  simp only [Function.comp]
  split <;> rfl

/-! ## Sums over the values -/

section Sums

variable {M : Type} [AddCommMonoid M]

/-- The sum of a quantity over the values of a map. -/
def sumOf (m : OrderedMap κ α) (f : α → M) : M := (m.values.map f).sum

@[simp] theorem sumOf_empty (f : α → M) : (empty : OrderedMap κ α).sumOf f = 0 := rfl

@[simp] theorem sumOf_mapValues (f : β → M) (g : α → β) (m : OrderedMap κ α) :
    (m.mapValues g).sumOf f = m.sumOf fun v => f (g v) := by
  simp [sumOf, values, mapValues, Function.comp_def]

theorem sumOf_emplace {m : OrderedMap κ α} {k : κ} (h : m.find? k = none) (v : α) (f : α → M) :
    (m.emplace k v).sumOf f = f v + m.sumOf f := by
  have hp := (emplace_perm h v).map (f ∘ Prod.snd)
  simpa [sumOf, values] using hp.sum_eq

/-- Overwriting a value replaces its contribution to the sum. -/
theorem sumOf_set {m : OrderedMap κ α} {k : κ} {u : α} (h : m.find? k = some u) (v : α)
    (f : α → M) : (m.set k v).sumOf f + f u = m.sumOf f + f v := by
  have hmem := find?_eq_some.mp h
  obtain ⟨es, hs⟩ := m
  simp only [sumOf, values, set, List.map_map]
  simp only at hmem
  clear h
  induction es with
  | nil => simp at hmem
  | cons e es ih =>
      have hp := List.pairwise_cons.mp hs
      rcases List.mem_cons.mp hmem with rfl | hmem
      · have hrest : es.map (f ∘ Prod.snd ∘ fun e => if e.1 = k then (e.1, v) else e) =
            es.map (f ∘ Prod.snd) := by
          refine List.map_congr_left (fun e he => ?_)
          have := ne_of_gt (hp.1 e he)
          simp [this]
        simp only [List.map_cons, List.sum_cons, hrest, Function.comp_apply, if_true]
        ac_rfl
      · have hne : e.1 ≠ k := ne_of_lt (hp.1 _ hmem)
        have := ih hp.2 hmem
        simp only [List.map_cons, List.sum_cons, Function.comp_apply, if_neg hne]
        rw [add_assoc, this, ← add_assoc]

theorem erase_perm {m : OrderedMap κ α} {k : κ} {u : α} (h : m.find? k = some u) :
    ((k, u) :: (m.erase k).entries).Perm m.entries := by
  have hnodup : m.entries.Nodup := m.sorted.imp fun hlt he => (he ▸ hlt).ne rfl
  have hnot : (k, u) ∉ (m.erase k).entries := by simp [erase]
  refine (List.perm_ext_iff_of_nodup (List.nodup_cons.mpr ⟨hnot, hnodup.filter _⟩) hnodup).mpr ?_
  rintro ⟨k', v⟩
  by_cases hk : k' = k
  · subst hk
    simp only [List.mem_cons, Prod.mk.injEq, true_and, ← find?_eq_some, find?_erase, if_true]
    rw [h]
    simp [eq_comm]
  · simp [erase, hk]

/-- What is left after an erasure, with the value that has gone. -/
theorem sumOf_erase {m : OrderedMap κ α} {k : κ} {u : α} (h : m.find? k = some u) (f : α → M) :
    f u + (m.erase k).sumOf f = m.sumOf f := by
  have hp := (erase_perm h).map (f ∘ Prod.snd)
  simpa [sumOf, values] using hp.sum_eq

theorem sumOf_assign_of_none {m : OrderedMap κ α} {k : κ} (h : m.find? k = none) (v : α) (f : α → M) :
    (m.assign k v).sumOf f = f v + m.sumOf f := by
  rw [assign, if_neg (by simp [contains, h]), sumOf_emplace h]

theorem sumOf_assign_of_some {m : OrderedMap κ α} {k : κ} {u : α} (h : m.find? k = some u) (v : α) (f : α → M) :
    (m.assign k v).sumOf f + f u = m.sumOf f + f v := by
  rw [assign, if_pos (contains_iff.mpr ⟨u, h⟩), sumOf_set h]

end Sums

/-! ## Keys after an operation -/

theorem keys_perm_emplace {m : OrderedMap κ α} {k : κ} (h : m.find? k = none) (v : α) :
    (m.emplace k v).keys.Perm (k :: m.keys) := by
  simpa [keys] using (emplace_perm h v).map Prod.fst

theorem keys_perm_erase {m : OrderedMap κ α} {k : κ} {u : α} (h : m.find? k = some u) :
    (k :: (m.erase k).keys).Perm m.keys := by
  simpa [keys] using (erase_perm h).map Prod.fst

theorem keys_perm_assign_of_none {m : OrderedMap κ α} {k : κ} (h : m.find? k = none) (v : α) :
    (m.assign k v).keys.Perm (k :: m.keys) := by
  rw [assign, if_neg (by simp [contains, h])]
  exact keys_perm_emplace h v

theorem keys_assign_of_some {m : OrderedMap κ α} {k : κ} {u : α} (h : m.find? k = some u) (v : α) :
    (m.assign k v).keys = m.keys := by
  rw [assign, if_pos (contains_iff.mpr ⟨u, h⟩), keys_set]

theorem mem_keys_emplace {m : OrderedMap κ α} {k k' : κ} {v : α} : k' ∈ (m.emplace k v).keys ↔ k' = k ∨ k' ∈ m.keys := by
  cases h : m.find? k with
  | none => rw [(keys_perm_emplace h v).mem_iff, List.mem_cons]
  | some w =>
      rw [emplace_of_some h v]
      exact ⟨Or.inr, fun hor => hor.elim (fun heq => heq ▸ mem_keys.mpr ⟨w, h⟩) id⟩

theorem length_keys (m : OrderedMap κ α) : m.keys.length = m.sumOf (fun _ => 1) := by
  simp [keys, sumOf, values, Function.comp_def]

/-- A part of a map has a smaller sum. -/
theorem sumOf_le_of_sub {m m' : OrderedMap κ α} (h : ∀ k v, m'.find? k = some v → m.find? k = some v) (f : α → Nat) :
    m'.sumOf f ≤ m.sumOf f := by
  have hsub : m'.entries ⊆ m.entries := fun e he => find?_eq_some.mp (h e.1 e.2 (find?_eq_some.mpr he))
  have hnodup : m'.entries.Nodup := m'.sorted.imp fun hlt he => (he ▸ hlt).ne rfl
  obtain ⟨l, hperm, hsublist⟩ := List.subperm_of_subset hnodup hsub
  have hl : (l.map (f ∘ Prod.snd)).sum = (m'.entries.map (f ∘ Prod.snd)).sum := (hperm.map _).sum_eq
  have hle : (l.map (f ∘ Prod.snd)).sum ≤ (m.entries.map (f ∘ Prod.snd)).sum := (hsublist.map _).sum_le_sum (by simp)
  simp only [sumOf, values, List.map_map]
  exact hl ▸ hle

theorem sumOf_congr {M : Type} [AddCommMonoid M] {m : OrderedMap κ α} {f g : α → M}
    (h : ∀ k v, m.find? k = some v → f v = g v) : m.sumOf f = m.sumOf g := by
  simp only [sumOf]
  congr 1
  refine List.map_congr_left fun v hv => ?_
  obtain ⟨k, hk⟩ := mem_values.mp hv
  exact h k v hk

/-- Two maps that differ at one key, and have the same sum, do not differ there either. -/
theorem eq_of_sumOf_eq {M : Type} [AddCancelCommMonoid M] {m m' : OrderedMap κ α} {k : κ} {v v' : α} {f : α → M}
    (hv : m.find? k = some v) (hv' : m'.find? k = some v') (hother : ∀ k', k' ≠ k → m.find? k' = m'.find? k')
    (hsum : m.sumOf f = m'.sumOf f) : f v = f v' := by
  have hassign : m.assign k v' = m' := ext_find? fun k' => by
    rw [find?_assign]
    split
    · next h => rw [h, hv']
    · next h => exact hother k' h
  have hchange := sumOf_assign_of_some hv v' f
  rw [hassign, ← hsum] at hchange
  exact add_left_cancel hchange

end OrderedMap

/-- A finite set, kept as an ordered map to `Unit`. -/
abbrev OrderedSet (κ : Type) [LinearOrder κ] := OrderedMap κ Unit

namespace OrderedSet

variable {κ : Type} [LinearOrder κ]

def ofList (l : List κ) : OrderedSet κ := l.foldl (fun set k => set.emplace k ()) .empty

@[simp] theorem mem_keys_ofList {l : List κ} {k : κ} : k ∈ (ofList l).keys ↔ k ∈ l := by
  induction l using List.reverseRecOn with
  | nil => simp [ofList, OrderedMap.keys, OrderedMap.empty]
  | append_singleton l a ih =>
      rw [ofList, List.foldl_append, List.foldl_cons, List.foldl_nil, OrderedMap.mem_keys_emplace, ← ofList, ih]
      simp [or_comm]

end OrderedSet

/-! ## Parts of a map, and maps from entries -/

namespace OrderedMap

variable {κ α β : Type} [LinearOrder κ] {m : OrderedMap κ α} {k : κ}

/-- The entries that meet a condition. -/
def filter (p : κ → α → Bool) (m : OrderedMap κ α) : OrderedMap κ α where
  entries := m.entries.filter fun e => p e.1 e.2
  sorted := m.sorted.filter _

theorem find?_filter_eq_some {p : κ → α → Bool} {v : α} :
    (m.filter p).find? k = some v ↔ m.find? k = some v ∧ p k v = true := by
  simp only [find?_eq_some, filter, List.mem_filter]

/-! ## From a list of entries -/

/-- Entries are added in their order; the first one of a key stays. -/
def addEntries (m : OrderedMap κ α) (entries : List (κ × α)) : OrderedMap κ α :=
  entries.foldl (fun m e => m.emplace e.1 e.2) m

@[simp] theorem addEntries_nil : m.addEntries [] = m := rfl

@[simp] theorem addEntries_cons (e : κ × α) (entries : List (κ × α)) :
    m.addEntries (e :: entries) = (m.emplace e.1 e.2).addEntries entries := rfl

theorem find?_cons {e : κ × α} {entries : List (κ × α)} (hsorted : (e :: entries).Pairwise fun a b => a.1 < b.1) (k : κ) :
    (⟨e :: entries, hsorted⟩ : OrderedMap κ α).find? k =
      if k = e.1 then some e.2 else (⟨entries, hsorted.of_cons⟩ : OrderedMap κ α).find? k := by
  by_cases hk : k = e.1
  · simp [find?, hk]
  · simp [find?, hk, Ne.symm hk]

/-- The entries that are added to a map that has none of their keys. -/
theorem find?_addEntries {entries : List (κ × α)} (hsorted : entries.Pairwise fun a b => a.1 < b.1)
    (hnew : ∀ e ∈ entries, m.find? e.1 = none) (k : κ) :
    (m.addEntries entries).find? k = (m.find? k).or ((⟨entries, hsorted⟩ : OrderedMap κ α).find? k) := by
  induction entries generalizing m with
  | nil => exact (Option.or_none (o := m.find? k)).symm
  | cons e entries ih =>
      obtain ⟨hfirst, hrest⟩ := List.pairwise_cons.mp hsorted
      have hnone : m.find? e.1 = none := hnew e List.mem_cons_self
      rw [addEntries_cons, ih hrest]
      · rw [find?_emplace hnone, find?_cons hsorted]
        by_cases hk : k = e.1
        · subst hk
          simp [hnone]
        · simp [hk]
      · intro e' he'
        rw [find?_emplace hnone, if_neg (ne_of_gt (hfirst e' he'))]
        exact hnew e' (List.mem_cons_of_mem _ he')

/-- A map is put together again from its entries. -/
@[simp] theorem addEntries_entries (m : OrderedMap κ α) : (empty : OrderedMap κ α).addEntries m.entries = m := by
  refine ext_find? fun k => ?_
  rw [find?_addEntries m.sorted (fun _ _ => rfl)]
  rfl

end OrderedMap

end Lib
