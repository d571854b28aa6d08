import Mathlib.Data.List.Perm.Subperm

/-!
# Greedy matching

Each element of one list takes the first partner that is left in another. An element is in a pair in every order of the
lists unless its partners can all go to others. When the same is made of an element with each of its partners, what is made
of the pairs is the same in every order unless the elements of which some of it is made can lose all their partners.
-/

namespace Lib.GreedyMatching

variable {α β γ : Type} {m : α → β → Bool} {p : β → Bool} {a : α} {b : β} {as as' : List α} {bs bs' rest : List β}
  {ps ps' : List (α × β)}

theorem exists_perm_cons (h : a ∈ as) : ∃ as', as.Perm (a :: as') := by
  obtain ⟨u, v, rfl⟩ := List.append_of_mem h
  exact ⟨u ++ v, List.perm_middle⟩

/-! ## Taking the first partner -/

/-- The first element that passes, and all others. -/
def takeFirst (p : β → Bool) : List β → Option (β × List β)
  | [] => none
  | b :: bs => if p b then some (b, bs) else (takeFirst p bs).map fun (found, rest) => (found, b :: rest)

theorem takeFirst_append (hbs : ∀ x ∈ bs, p x = false) (hb : p b = true) :
    takeFirst p (bs ++ b :: rest) = some (b, bs ++ rest) := by
  induction bs with
  | nil => simp [takeFirst, hb]
  | cons x bs ih =>
    have hx : p x = false := hbs x (by simp)
    simp [takeFirst, hx, ih fun y hy => hbs y (by simp [hy])]

theorem takeFirst_none (h : takeFirst p bs = none) : ∀ x ∈ bs, p x = false := by
  induction bs with
  | nil => simp
  | cons y bs ih =>
    cases hy : p y with
    | true => simp [takeFirst, hy] at h
    | false =>
      simp only [takeFirst, hy, Bool.false_eq_true, if_false, Option.map_eq_none_iff] at h
      simpa [hy] using ih h

theorem takeFirst_some (h : takeFirst p bs = some (b, rest)) : p b = true ∧ bs.Perm (b :: rest) := by
  induction bs generalizing rest with
  | nil => simp [takeFirst] at h
  | cons y bs ih =>
    cases hy : p y with
    | true =>
      simp only [takeFirst, hy, if_true, Option.some.injEq, Prod.mk.injEq] at h
      obtain ⟨rfl, rfl⟩ := h
      exact ⟨hy, .refl _⟩
    | false =>
      simp only [takeFirst, hy, Bool.false_eq_true, if_false, Option.map_eq_some_iff, Prod.exists,
        Prod.mk.injEq] at h
      obtain ⟨found, left, htaken, rfl, rfl⟩ := h
      obtain ⟨hfound, hperm⟩ := ih htaken
      exact ⟨hfound, (hperm.cons y).trans (.swap _ _ _)⟩

theorem takeFirst_eq_none (h : ∀ x ∈ bs, p x = false) : takeFirst p bs = none := by
  cases htaken : takeFirst p bs with
  | none => rfl
  | some found =>
    obtain ⟨hfound, hperm⟩ := takeFirst_some htaken
    have := h found.1 (hperm.mem_iff.mpr (by simp))
    simp [this] at hfound

/-! ## Pairs -/

/-- The pairs that come about when each element takes the first partner that is left. -/
def pairs (m : α → β → Bool) : List α → List β → List (α × β)
  | [], _ => []
  | a :: as, bs =>
    match takeFirst (m a) bs with
    | some (b, rest) => (a, b) :: pairs m as rest
    | none => pairs m as bs

theorem pairs_taken (h : takeFirst (m a) bs = some (b, rest)) : pairs m (a :: as) bs = (a, b) :: pairs m as rest := by
  rw [pairs, h]

theorem pairs_skipped (h : takeFirst (m a) bs = none) : pairs m (a :: as) bs = pairs m as bs := by
  rw [pairs, h]

/-- Each pair matches and each element is in one pair at most; no two elements that are left match. -/
structure Maximal (m : α → β → Bool) (as : List α) (bs : List β) (ps : List (α × β)) (restA : List α) (restB : List β) :
    Prop where
  left : as.Perm (ps.map Prod.fst ++ restA)
  right : bs.Perm (ps.map Prod.snd ++ restB)
  matched : ∀ q ∈ ps, m q.1 q.2 = true
  stuck : ∀ a ∈ restA, ∀ b ∈ restB, m a b = false

theorem maximal_pairs (m : α → β → Bool) (as : List α) (bs : List β) :
    ∃ restA restB, Maximal m as bs (pairs m as bs) restA restB := by
  induction as generalizing bs with
  | nil => exact ⟨[], bs, by simp [pairs], by simp [pairs], by simp [pairs], by simp⟩
  | cons a as ih =>
    cases htaken : takeFirst (m a) bs with
    | some found =>
      obtain ⟨b, rest⟩ := found
      obtain ⟨hb, hperm⟩ := takeFirst_some htaken
      obtain ⟨restA, restB, hleft, hright, hmatched, hstuck⟩ := ih rest
      rw [pairs_taken htaken]
      refine ⟨restA, restB, by simpa using hleft.cons a, ?_, by simpa using ⟨hb, fun a b => hmatched (a, b)⟩, hstuck⟩
      exact hperm.trans (by simpa using hright.cons b)
    | none =>
      obtain ⟨restA, restB, hleft, hright, hmatched, hstuck⟩ := ih bs
      rw [pairs_skipped htaken]
      refine ⟨a :: restA, restB, (hleft.cons a).trans List.perm_middle.symm, hright, hmatched, ?_⟩
      have hnone := takeFirst_none htaken
      simp only [List.forall_mem_cons]
      exact ⟨fun b hb => hnone b (hright.mem_iff.mpr (by simp [hb])), hstuck⟩

theorem pairs_eq_nil (h : ∀ a ∈ as, ∀ b ∈ bs, m a b = false) : pairs m as bs = [] := by
  induction as with
  | nil => rfl
  | cons a as ih =>
    rw [pairs_skipped (takeFirst_eq_none (h a (by simp)))]
    exact ih fun a' ha' => h a' (by simp [ha'])

/-- Pairs that stand in front of both lists come about. -/
theorem pairs_append (h : ∀ q ∈ ps, m q.1 q.2 = true) (as : List α) (bs : List β) :
    pairs m (ps.map Prod.fst ++ as) (ps.map Prod.snd ++ bs) = ps ++ pairs m as bs := by
  induction ps with
  | nil => rfl
  | cons q ps ih =>
    have htaken : takeFirst (m q.1) (q.2 :: (ps.map Prod.snd ++ bs)) = some (q.2, ps.map Prod.snd ++ bs) := by
      simp [takeFirst, h q (by simp)]
    simp only [List.map_cons, List.cons_append, pairs_taken htaken, ih fun q' hq' => h q' (by simp [hq'])]

/-- Each match is the first pair in some order, with pairs of the other elements behind it. -/
theorem exists_order_of_match (ha : as.Perm (a :: as')) (hb : bs.Perm (b :: bs')) (h : m a b = true) :
    (a :: as').Perm as ∧ (b :: bs').Perm bs ∧ pairs m (a :: as') (b :: bs') = (a, b) :: pairs m as' bs' := by
  have htaken : takeFirst (m a) (b :: bs') = some (b, bs') := by simp [takeFirst, h]
  exact ⟨ha.symm, hb.symm, pairs_taken htaken⟩

theorem mem_of_mem_pairs {q : α × β} (h : q ∈ pairs m as bs) : q.1 ∈ as ∧ q.2 ∈ bs ∧ m q.1 q.2 = true := by
  obtain ⟨restA, restB, hmaximal⟩ := maximal_pairs m as bs
  refine ⟨hmaximal.left.mem_iff.mpr ?_, hmaximal.right.mem_iff.mpr ?_, hmaximal.matched q h⟩
  · exact List.mem_append_left _ (List.mem_map_of_mem h)
  · exact List.mem_append_left _ (List.mem_map_of_mem h)

/-- No partner is in two pairs. -/
theorem pairs_snd_subperm (m : α → β → Bool) (as : List α) (bs : List β) :
    ((pairs m as bs).map Prod.snd).Subperm bs := by
  obtain ⟨restA, restB, hmaximal⟩ := maximal_pairs m as bs
  exact (List.sublist_append_left _ _).subperm.trans hmaximal.right.symm.subperm

theorem pairs_fst_sublist (m : α → β → Bool) (as : List α) (bs : List β) :
    ((pairs m as bs).map Prod.fst).Sublist as := by
  induction as generalizing bs with
  | nil => simp [pairs]
  | cons a as ih =>
    cases htaken : takeFirst (m a) bs with
    | some found =>
      rw [pairs_taken htaken]
      exact (ih found.2).cons_cons a
    | none =>
      rw [pairs_skipped htaken]
      exact (ih bs).cons a

/-! ## Losing all partners -/

/-- The partners may go to others such that none is left that matches an element of a kind. -/
def Lost (m : α → β → Bool) (as : List α) (bs : List β) (K : α → Prop) : Prop :=
  ∃ (ps : List (α × β)) (restA : List α) (restB : List β), as.Perm (ps.map Prod.fst ++ restA) ∧
    bs.Perm (ps.map Prod.snd ++ restB) ∧
    (∀ q ∈ ps, m q.1 q.2 = true ∧ ¬ K q.1) ∧ ∀ a ∈ restA, K a → ∀ b ∈ restB, m a b = false

variable {K : α → Prop}

/-- An element of a kind is in a pair in every order unless the kind can lose all its partners. -/
theorem meets_all_orders_iff :
    (∀ as' bs', as'.Perm as → bs'.Perm bs → ∃ q ∈ pairs m as' bs', K q.1) ↔ ¬ Lost m as bs K := by
  constructor
  · rintro hall ⟨ps, restA, restB, hleft, hright, hothers, hnone⟩
    obtain ⟨q, hq, hkind⟩ := hall _ _ hleft.symm hright.symm
    rw [pairs_append fun q hq => (hothers q hq).1] at hq
    rcases List.mem_append.mp hq with hq | hq
    · exact (hothers q hq).2 hkind
    · obtain ⟨ha, hb, hmatch⟩ := mem_of_mem_pairs hq
      have hfalse := hnone q.1 ha hkind q.2 hb
      rw [hmatch] at hfalse
      cases hfalse
  · intro hnot as' bs' ha hb
    by_contra hout
    simp only [not_exists, not_and] at hout
    obtain ⟨restA, restB, hmaximal⟩ := maximal_pairs m as' bs'
    refine hnot ⟨pairs m as' bs', restA, restB, ha.symm.trans hmaximal.left, hb.symm.trans hmaximal.right, ?_, ?_⟩
    · exact fun q hq => ⟨hmaximal.matched q hq, hout q hq⟩
    · exact fun a ha _ => hmaximal.stuck a ha

/-- A kind keeps a partner that matches no other element. -/
theorem not_lost_of_own (ha : a ∈ as) (hb : b ∈ bs) (hmatch : m a b = true) (hkind : K a)
    (hown : ∀ a' ∈ as, m a' b = true → K a') : ¬ Lost m as bs K := by
  rintro ⟨ps, restA, restB, hleft, hright, hothers, hnone⟩
  have hmem : ∀ q ∈ ps, q.1 ∈ as := fun q hq =>
    hleft.mem_iff.mpr (List.mem_append_left _ (List.mem_map_of_mem hq))
  have hrest : a ∈ restA := by
    rcases List.mem_append.mp (hleft.mem_iff.mp ha) with hin | hrest
    · obtain ⟨q, hq, rfl⟩ := List.mem_map.mp hin
      exact absurd hkind (hothers q hq).2
    · exact hrest
  rcases List.mem_append.mp (hright.mem_iff.mp hb) with hin | hin
  · obtain ⟨q, hq, rfl⟩ := List.mem_map.mp hin
    exact (hothers q hq).2 (hown q.1 (hmem q hq) (hothers q hq).1)
  · have hfalse := hnone a hrest hkind b hin
    rw [hmatch] at hfalse
    cases hfalse

/-! ## What is made of the pairs -/

variable {f : α → β → γ}

/-- The same is made of an element with each of its partners. -/
def RowAlike (m : α → β → Bool) (f : α → β → γ) (as : List α) (bs : List β) : Prop :=
  ∀ a ∈ as, ∀ b ∈ bs, ∀ b' ∈ bs, m a b = true → m a b' = true → f a b = f a b'

/-- What is made of the pairs is the same in every order. -/
def OrderFree (m : α → β → Bool) (f : α → β → γ) (as : List α) (bs : List β) : Prop :=
  ∀ as' bs', as'.Perm as → bs'.Perm bs →
    ∀ c, (∃ q ∈ pairs m as' bs', f q.1 q.2 = c) ↔ ∃ q ∈ pairs m as bs, f q.1 q.2 = c

/-- The elements of which the same can be made as of a match. -/
def Kin (m : α → β → Bool) (f : α → β → γ) (bs : List β) (c : γ) (a : α) : Prop :=
  ∃ b ∈ bs, m a b = true ∧ f a b = c

/-- What can be made of a match is made in every order. -/
theorem OrderFree.made (h : OrderFree m f as bs) (ha : a ∈ as) (hb : b ∈ bs) (hmatch : m a b = true) {as' : List α}
    {bs' : List β} (hperm : as'.Perm as) (hperm' : bs'.Perm bs) : ∃ q ∈ pairs m as' bs', f q.1 q.2 = f a b := by
  obtain ⟨as₁, ha₁⟩ := exists_perm_cons ha
  obtain ⟨bs₁, hb₁⟩ := exists_perm_cons hb
  obtain ⟨horder, horder', hpairs⟩ := exists_order_of_match ha₁ hb₁ hmatch
  refine (h as' bs' hperm hperm' _).mpr ((h _ _ horder horder' _).mp ⟨(a, b), ?_, rfl⟩)
  rw [hpairs]
  exact List.mem_cons_self

/-- When a match is the first pair, anything else is made of the elements behind it. -/
theorem OrderFree.made_behind (h : OrderFree m f as bs) (ha : as.Perm (a :: as')) (hb : bs.Perm (b :: bs'))
    (hmatch : m a b = true) {a' : α} {b' : β} (ha' : a' ∈ as) (hb' : b' ∈ bs) (hmatch' : m a' b' = true)
    (hne : f a b ≠ f a' b') : ∃ q ∈ pairs m as' bs', f q.1 q.2 = f a' b' := by
  obtain ⟨horder, horder', hpairs⟩ := exists_order_of_match ha hb hmatch
  obtain ⟨q, hq, hmade⟩ := h.made ha' hb' hmatch' horder horder'
  rw [hpairs, List.mem_cons] at hq
  rcases hq with rfl | hq
  · exact absurd hmade hne
  · exact ⟨q, hq, hmade⟩

theorem orderFree_iff (hrow : RowAlike m f as bs) :
    OrderFree m f as bs ↔ ∀ a ∈ as, ∀ b ∈ bs, m a b = true → ¬ Lost m as bs (Kin m f bs (f a b)) := by
  constructor
  · intro hfree a ha b hb hmatch
    rw [← meets_all_orders_iff]
    intro as' bs' hperm hperm'
    obtain ⟨q, hq, hmade⟩ := hfree.made ha hb hmatch hperm hperm'
    obtain ⟨-, hb', hmatch'⟩ := mem_of_mem_pairs hq
    exact ⟨q, hq, q.2, hperm'.mem_iff.mp hb', hmatch', hmade⟩
  · intro hnot
    have hmade : ∀ as' bs', as'.Perm as → bs'.Perm bs →
        ∀ c, (∃ q ∈ pairs m as' bs', f q.1 q.2 = c) ↔ ∃ a ∈ as, ∃ b ∈ bs, m a b = true ∧ f a b = c := by
      intro as' bs' hperm hperm' c
      constructor
      · rintro ⟨q, hq, rfl⟩
        obtain ⟨ha, hb, hmatch⟩ := mem_of_mem_pairs hq
        exact ⟨q.1, hperm.mem_iff.mp ha, q.2, hperm'.mem_iff.mp hb, hmatch, rfl⟩
      · rintro ⟨a, ha, b, hb, hmatch, rfl⟩
        obtain ⟨q, hq, b', hb', hmatch', hsame⟩ :=
          meets_all_orders_iff.mpr (hnot a ha b hb hmatch) as' bs' hperm hperm'
        obtain ⟨ha', hb'', hmatch''⟩ := mem_of_mem_pairs hq
        refine ⟨q, hq, ?_⟩
        rw [← hsame, hrow q.1 (hperm.mem_iff.mp ha') q.2 (hperm'.mem_iff.mp hb'') b' hb' hmatch'' hmatch']
    intro as' bs' hperm hperm' c
    rw [hmade as' bs' hperm hperm', hmade as bs (.refl _) (.refl _)]

end Lib.GreedyMatching
