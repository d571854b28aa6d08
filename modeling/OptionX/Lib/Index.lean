import OptionX.Lib.OrderedMap

/-!
# Indexes over a table

A table binds keys to records, and each record has index values. An index is exact when it binds precisely the
values of the records in the table, each to the key of its record.
-/

namespace Lib

namespace OrderedMap

variable {κ ι α : Type} [LinearOrder κ] [LinearOrder ι]

/-- Removes every key of a list. -/
def eraseAll (m : OrderedMap κ α) (ks : List κ) : OrderedMap κ α := ks.foldl erase m

/-- Binds every key of a list to one value. -/
def assignAll (m : OrderedMap κ α) (ks : List κ) (v : α) : OrderedMap κ α := ks.foldl (fun m k => m.assign k v) m

@[simp] theorem find?_eraseAll (m : OrderedMap κ α) (ks : List κ) (k : κ) :
    (m.eraseAll ks).find? k = if k ∈ ks then none else m.find? k := by
  induction ks generalizing m with
  | nil => simp [eraseAll]
  | cons k' ks ih =>
      rw [eraseAll, List.foldl_cons, ← eraseAll, ih, find?_erase]
      by_cases h : k ∈ ks <;> by_cases h' : k = k' <;> simp [h, h']

@[simp] theorem find?_assignAll (m : OrderedMap κ α) (ks : List κ) (v : α) (k : κ) :
    (m.assignAll ks v).find? k = if k ∈ ks then some v else m.find? k := by
  induction ks generalizing m with
  | nil => simp [assignAll]
  | cons k' ks ih =>
      rw [assignAll, List.foldl_cons, ← assignAll, ih, find?_assign]
      by_cases h : k ∈ ks <;> by_cases h' : k = k' <;> simp [h, h']

end OrderedMap

/-- The index binds the values of the records in the table, and no others, each to the key of its record. -/
def Indexes {κ ι α : Type} [LinearOrder κ] [LinearOrder ι] (table : OrderedMap κ α) (values : α → List ι)
    (index : OrderedMap ι κ) : Prop :=
  ∀ i k, index.find? i = some k ↔ ∃ r, table.find? k = some r ∧ i ∈ values r

namespace Indexes

variable {κ ι α : Type} [LinearOrder κ] [LinearOrder ι] {table : OrderedMap κ α} {values : α → List ι}
  {index : OrderedMap ι κ} {k : κ} {r : α}

theorem empty : Indexes (OrderedMap.empty : OrderedMap κ α) values (OrderedMap.empty : OrderedMap ι κ) := by
  intro i k
  simp

/-- No value is in two records. -/
theorem unique (h : Indexes table values index) {k' : κ} {r' : α} {i : ι} (hk : table.find? k = some r)
    (hi : i ∈ values r) (hk' : table.find? k' = some r') (hi' : i ∈ values r') : k = k' :=
  Option.some.inj (((h i k).mpr ⟨r, hk, hi⟩).symm.trans ((h i k').mpr ⟨r', hk', hi'⟩))

theorem find?_eq_none (h : Indexes table values index) {i : ι} :
    index.find? i = none ↔ ∀ k r, table.find? k = some r → i ∉ values r := by
  constructor
  · intro hi k r hk hr
    rw [(h i k).mpr ⟨r, hk, hr⟩] at hi
    cases hi
  · intro hall
    cases hi : index.find? i with
    | none => rfl
    | some k =>
        obtain ⟨r, hk, hr⟩ := (h i k).mp hi
        exact absurd hr (hall k r hk)

/-- A record leaves the table and its values leave the index. -/
theorem erase (h : Indexes table values index) (hk : table.find? k = some r) :
    Indexes (table.erase k) values (index.eraseAll (values r)) := by
  intro i k'
  rw [OrderedMap.find?_eraseAll]
  constructor
  · intro hi
    split at hi
    · cases hi
    · next hnot =>
      obtain ⟨r', hk', hi'⟩ := (h i k').mp hi
      refine ⟨r', ?_, hi'⟩
      rw [OrderedMap.find?_erase, if_neg]
      · exact hk'
      · rintro rfl
        rw [hk] at hk'
        exact hnot (Option.some.inj hk' ▸ hi')
  · rintro ⟨r', hk', hi⟩
    rw [OrderedMap.find?_erase] at hk'
    split at hk'
    · cases hk'
    · next hne =>
      rw [if_neg fun hr => hne (h.unique hk' hi hk hr)]
      exact (h i k').mpr ⟨r', hk', hi⟩

/-- A record enters the table at an unbound key, with values that no record has. -/
theorem insert (h : Indexes table values index) (hk : table.find? k = none)
    (hnew : ∀ i ∈ values r, index.find? i = none) :
    Indexes (table.assign k r) values (index.assignAll (values r) k) := by
  intro i k'
  rw [OrderedMap.find?_assignAll]
  constructor
  · intro hi
    split at hi
    · next hmem =>
      obtain rfl := Option.some.inj hi
      exact ⟨r, by simp, hmem⟩
    · obtain ⟨r', hk', hi'⟩ := (h i k').mp hi
      refine ⟨r', ?_, hi'⟩
      rw [OrderedMap.find?_assign, if_neg]
      · exact hk'
      · rintro rfl
        rw [hk] at hk'
        cases hk'
  · rintro ⟨r', hk', hi⟩
    rw [OrderedMap.find?_assign] at hk'
    split at hk'
    · next heq =>
      obtain rfl := Option.some.inj hk'
      rw [if_pos hi, heq]
    · have hbound := (h i k').mpr ⟨r', hk', hi⟩
      rw [if_neg fun hr => by rw [hnew i hr] at hbound; cases hbound]
      exact hbound

end Indexes

end Lib
