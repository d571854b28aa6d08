import OptionX.Lib.Index

/-!
# Indexes with shared values

Each record of a table has a value, which it may share with other records. An index covers the table when it binds the value
of every record, and each value that it binds to the key of a record with that value. Which of several records with one
value the index leads to is left open, and so a record with others may not take the binding along when it leaves.
-/

namespace Lib

/-- Every value of a record is bound, and each bound value leads to a record that has it. -/
structure Covers {κ ι α : Type} [LinearOrder κ] [LinearOrder ι] (table : OrderedMap κ α) (value : α → ι)
    (index : OrderedMap ι κ) : Prop where
  bound : ∀ k r, table.find? k = some r → ∃ k', index.find? (value r) = some k'
  leads : ∀ i k, index.find? i = some k → ∃ r, table.find? k = some r ∧ value r = i

namespace Covers

variable {κ ι α : Type} [LinearOrder κ] [LinearOrder ι] {table : OrderedMap κ α} {value : α → ι}
  {index : OrderedMap ι κ} {k : κ} {r r' : α}

/-- No other record of the table has the value of the record at a key. -/
def Alone (table : OrderedMap κ α) (value : α → ι) (k : κ) (r : α) : Prop :=
  ∀ k' r', table.find? k' = some r' → value r' = value r → k' = k

theorem empty : Covers (OrderedMap.empty : OrderedMap κ α) value (OrderedMap.empty : OrderedMap ι κ) where
  bound _ _ h := by cases h
  leads _ _ h := by cases h

/-- A record is replaced by one with the same value. -/
theorem replace (h : Covers table value index) (hk : table.find? k = some r) (hvalue : value r' = value r) :
    Covers (table.assign k r') value index where
  bound k' r'' hk' := by
    rw [OrderedMap.find?_assign] at hk'
    split at hk'
    · obtain rfl := Option.some.inj hk'
      rw [hvalue]
      exact h.bound k r hk
    · exact h.bound k' r'' hk'
  leads i k' hi := by
    obtain ⟨r'', hk', rfl⟩ := h.leads i k' hi
    rw [OrderedMap.find?_assign]
    split
    · next heq =>
      subst heq
      obtain rfl := Option.some.inj (hk.symm.trans hk')
      exact ⟨r', rfl, hvalue⟩
    · exact ⟨r'', hk', rfl⟩

/-- A record enters at an unbound key, and its value leads to it from now on. -/
theorem insert (h : Covers table value index) (hk : table.find? k = none) :
    Covers (table.assign k r) value (index.assign (value r) k) where
  bound k' r' hk' := by
    rw [OrderedMap.find?_assign] at hk' ⊢
    split at hk'
    · obtain rfl := Option.some.inj hk'
      exact ⟨k, if_pos rfl⟩
    · split
      · exact ⟨k, rfl⟩
      · exact h.bound k' r' hk'
  leads i k' hi := by
    rw [OrderedMap.find?_assign] at hi
    split at hi
    · next heq =>
      obtain rfl := Option.some.inj hi
      exact ⟨r, by simp, heq.symm⟩
    · obtain ⟨r', hk', hvalue⟩ := h.leads i k' hi
      refine ⟨r', ?_, hvalue⟩
      rw [OrderedMap.find?_assign, if_neg]
      · exact hk'
      · rintro rfl
        rw [hk] at hk'
        cases hk'

/-- Records leave with their bindings: this is right when the records with their values leave with them. -/
theorem eraseAll_iff (h : Covers table value index) {leaving : List (κ × α)}
    (hthere : ∀ e ∈ leaving, table.find? e.1 = some e.2) :
    Covers (table.eraseAll (leaving.map Prod.fst)) value (index.eraseAll (leaving.map fun e => value e.2)) ↔
      ∀ e ∈ leaving, ∀ k r, table.find? k = some r → value r = value e.2 → (k, r) ∈ leaving := by
  have hleaves : ∀ {k r}, table.find? k = some r → (k ∈ leaving.map Prod.fst ↔ (k, r) ∈ leaving) := by
    intro k r hk
    constructor
    · intro hmem
      obtain ⟨e, he, rfl⟩ := List.mem_map.mp hmem
      obtain rfl := Option.some.inj ((hthere e he).symm.trans hk)
      exact he
    · exact fun hmem => List.mem_map.mpr ⟨_, hmem, rfl⟩
  constructor
  · intro hafter e he k r hk hvalue
    by_contra hstays
    obtain ⟨k', hk'⟩ := hafter.bound k r (by rw [OrderedMap.find?_eraseAll, if_neg (mt (hleaves hk).mp hstays), hk])
    rw [OrderedMap.find?_eraseAll, if_pos (List.mem_map.mpr ⟨e, he, hvalue.symm⟩)] at hk'
    cases hk'
  · intro htogether
    constructor
    · intro k r hk
      rw [OrderedMap.find?_eraseAll] at hk
      split at hk
      · cases hk
      · next hstays =>
        rw [OrderedMap.find?_eraseAll, if_neg]
        · exact h.bound k r hk
        · intro hmem
          obtain ⟨e, he, hvalue⟩ := List.mem_map.mp hmem
          exact hstays ((hleaves hk).mpr (htogether e he k r hk hvalue.symm))
    · intro i k hi
      rw [OrderedMap.find?_eraseAll] at hi
      split at hi
      · cases hi
      · next hother =>
        obtain ⟨r, hk, rfl⟩ := h.leads i k hi
        refine ⟨r, ?_, rfl⟩
        rw [OrderedMap.find?_eraseAll, if_neg]
        · exact hk
        · exact fun hmem => hother (List.mem_map.mpr ⟨_, (hleaves hk).mp hmem, rfl⟩)

/-- A record leaves with its binding: this is right when no other record has its value. -/
theorem erase_iff (h : Covers table value index) (hk : table.find? k = some r) :
    Covers (table.erase k) value (index.erase (value r)) ↔ Alone table value k r := by
  have hthere : ∀ e ∈ [(k, r)], table.find? e.1 = some e.2 := by simpa using hk
  refine Iff.trans (eraseAll_iff h hthere) ⟨?_, ?_⟩
  · intro htogether k' r' hk' hvalue
    have hmem := htogether _ (List.mem_singleton_self _) k' r' hk' hvalue
    exact congrArg Prod.fst (List.mem_singleton.mp hmem)
  · intro halone e he k' r' hk' hvalue
    obtain rfl := List.mem_singleton.mp he
    obtain rfl := halone k' r' hk' hvalue
    obtain rfl := Option.some.inj (hk.symm.trans hk')
    exact List.mem_singleton_self _

/-- The record at a key gets another value, which leads to it from now on: this is right when no other record has the old
value. -/
theorem move_iff (h : Covers table value index) (hk : table.find? k = some r) :
    Covers (table.assign k r') value ((index.erase (value r)).assign (value r') k) ↔
      value r = value r' ∨ Alone table value k r := by
  constructor
  · intro hafter
    by_cases hsame : value r = value r'
    · exact Or.inl hsame
    · refine Or.inr fun k' r'' hk' hvalue => ?_
      by_contra hne
      obtain ⟨k'', hk''⟩ := hafter.bound k' r'' (by rw [OrderedMap.find?_assign, if_neg hne, hk'])
      rw [hvalue, OrderedMap.find?_assign, if_neg hsame, OrderedMap.find?_erase, if_pos rfl] at hk''
      cases hk''
  · intro hold
    constructor
    · intro k' r'' hk'
      rw [OrderedMap.find?_assign] at hk' ⊢
      split at hk'
      · obtain rfl := Option.some.inj hk'
        exact ⟨k, if_pos rfl⟩
      · next hne =>
        split
        · exact ⟨k, rfl⟩
        · next hother =>
          rw [OrderedMap.find?_erase, if_neg]
          · exact h.bound k' r'' hk'
          · intro hvalue
            cases hold with
            | inl hsame => exact hother (hvalue.trans hsame)
            | inr halone => exact hne (halone k' r'' hk' hvalue)
    · intro i k' hi
      rw [OrderedMap.find?_assign] at hi
      split at hi
      · next heq =>
        obtain rfl := Option.some.inj hi
        exact ⟨r', by simp, heq.symm⟩
      · rw [OrderedMap.find?_erase] at hi
        split at hi
        · cases hi
        · next hne =>
          obtain ⟨r'', hk', hvalue⟩ := h.leads i k' hi
          refine ⟨r'', ?_, hvalue⟩
          rw [OrderedMap.find?_assign, if_neg]
          · exact hk'
          · rintro rfl
            obtain rfl := Option.some.inj (hk.symm.trans hk')
            exact hne hvalue.symm

end Covers

end Lib
