import OptionX.Lib.Hiding

/-!
# Nested assignments

Where an assignment that begins in the value of another also ends in it, the passes for one key after the other leave what
one pass for all of them leaves: the values in no other value are hidden. Texts that differ in such values are then not
told apart.
-/

namespace Lib.Hiding

variable {κ α : Type}

namespace Grammar

/-! ## Definitions -/

/-- Assignments that begin in the text end in it. -/
def Within (G : Grammar κ α) (keys : Set κ) (free : Bool) (x rest : List α) : Prop :=
  G.Each keys (fun _ _ a => rest.length ≤ a.length) free x rest

/-- Assignments that begin in a value end in it. -/
def Nests (G : Grammar κ α) (keys : Set κ) (free : Bool) (x rest : List α) : Prop :=
  G.Each keys (fun h v a => G.Within keys (G.freeAfter true h) v a) free x rest

/-- The text falls into nested assignments, and leaves the outline with the outermost values hidden. -/
inductive Nested (G : Grammar κ α) (keys : Set κ) : Bool → List α → List α → List α → Prop
  | nil {free rest} : Nested G keys free [] rest []
  | char {c free x rest o} (hx : G.Unassigned keys free (c :: (x ++ rest)))
      (hn : Nested G keys (!G.isWord c) x rest o) : Nested G keys free (c :: x) rest (c :: o)
  | value {k free h v x rest ov o} (hk : k ∈ keys)
      (hx : G.Assigned k free (h ++ (v ++ (x ++ rest))) h v (x ++ rest))
      (hv : Nested G keys (G.freeAfter true h) v (x ++ rest) ov) (hn : Nested G keys true x rest o) :
      Nested G keys free (h ++ (v ++ x)) rest (h ++ (G.marker ++ o))

/-- The texts differ in values that are assigned at the same places. -/
inductive Alike (G : Grammar κ α) (keys : Set κ) : Bool → List α → List α → Prop
  | nil {free} : Alike G keys free [] []
  | char {c free x y} (h : Alike G keys (!G.isWord c) x y) : Alike G keys free (c :: x) (c :: y)
  | value {k free x x' h v v' a a'} (hk : k ∈ keys) (hx : G.Assigned k free x h v a)
      (hx' : G.Assigned k free x' h v' a') (ha : Alike G keys true a a') : Alike G keys free x x'

variable {G : Grammar κ α} {k : κ} {keys : Set κ} {free free' : Bool}
variable {x x' y y' h v v' a a' rest rest' o : List α}

/-- What ends in a text behind a part of it leaves the rest of the text. -/
theorem exists_rest (htext : x ++ rest = y ++ a) (hlength : rest.length ≤ a.length) :
    ∃ z, x = y ++ z ∧ a = z ++ rest := by
  have hsuffix : rest <:+ a :=
    List.suffix_of_suffix_length_le (List.suffix_append x rest) (htext ▸ List.suffix_append y a) hlength
  obtain ⟨z, rfl⟩ := hsuffix
  rw [← List.append_assoc] at htext
  exact ⟨z, List.append_cancel_right htext, rfl⟩

/-! ## Nested texts -/

theorem within_nil : G.Within keys free x [] := by
  intro _ _ _ _ _ _ _ _ _
  simp

/-- What follows an assignment has nested assignments too. -/
theorem Nests.after (hn : G.Nests keys free x []) (hx : G.Assigned k free x h v a) : G.Nests keys true a [] := by
  rw [hx.text, ← List.append_assoc] at hn
  exact hn.drop.anyway hx.after_word (by simp)

/-- Where assignments nest, a text falls into them. -/
theorem Nests.nested (hwithin : G.Within keys free x rest) (hnests : G.Nests keys free x rest)
    (hrest : ∀ c ∈ rest.head?, G.isWord c = false) : ∃ o, G.Nested keys free x rest o := by
  induction hn : x.length using Nat.strong_induction_on generalizing free x rest with
  | _ n ih =>
    cases x with
    | nil => exact ⟨_, .nil⟩
    | cons c x =>
      by_cases hfound : G.Unassigned keys free (c :: (x ++ rest))
      · obtain ⟨o, ho⟩ :=
          ih x.length (by simp [← hn]) (each_cons.mp hwithin).2 (each_cons.mp hnests).2 hrest rfl
        exact ⟨_, .char hfound ho⟩
      · simp only [Unassigned, not_forall, not_not] at hfound
        obtain ⟨k, hk, h, v, a, hfound⟩ := hfound
        have hin := (each_cons.mp hnests).1 k hk h v a hfound
        obtain ⟨c', w, rfl, _⟩ := G.head_word hfound.head
        -- the value ends in the text, and what follows it is a text with nested assignments too
        have htext : c :: x ++ rest = (c' :: w ++ v) ++ a := by rw [List.append_assoc, ← hfound.text]; rfl
        obtain ⟨x', hx, rfl⟩ := exists_rest htext ((each_cons.mp hwithin).1 k hk _ v a hfound)
        rw [hx] at hwithin hnests hn ⊢
        have hafter : ∀ c ∈ x'.head?, G.isWord c = false := by
          intro c hc
          exact hfound.after_word c (by simp [List.head?_append, Option.mem_def.mp hc])
        have hnestsValue : G.Nests keys (G.freeAfter true (c' :: w)) v (x' ++ rest) := by
          rw [List.append_assoc] at hnests
          exact hnests.drop.take
        simp only [List.length_append, List.length_cons] at hn
        obtain ⟨ov, hov⟩ := ih v.length (by omega) hin hnestsValue hfound.after_word rfl
        obtain ⟨o, ho⟩ := ih x'.length (by omega) (hwithin.drop.anyway hafter hrest)
          (hnests.drop.anyway hafter hrest) hrest rfl
        rw [List.append_assoc]
        exact ⟨_, .value hk (by simpa [hfound.text] using hfound) hov ho⟩

/-- One pass for all keys leaves the outline. -/
theorem Nested.hides (hx : G.Nested keys free x rest o) (hrest : ∀ c ∈ rest.head?, G.isWord c = false)
    (hy : G.Hides keys true rest y) : G.Hides keys free (x ++ rest) (o ++ y) := by
  induction hx with
  | nil => exact hy.anyway hrest
  | char hx _ ih => exact .char hx (ih hrest hy)
  | value hk hx _ _ _ ih =>
    have := Hides.found hk hx (ih hrest hy)
    simpa using this

theorem nested_of_not_word (hx : ∀ c ∈ x, G.isWord c = false) : G.Nested keys free x rest x := by
  induction x generalizing free with
  | nil => exact .nil
  | cons c x ih =>
    rw [List.forall_mem_cons] at hx
    exact .char (unassigned_of_quiet (by simp [hx.1])) (ih hx.2)

/-- A pass for one of the keys leaves the outline as it is. -/
theorem Nested.pass (hx : G.Nested keys free x rest o) (hk : k ∈ keys) (hrest : ∀ c ∈ rest.head?, G.isWord c = false)
    (hy : G.Hides {k} true rest rest') :
    ∃ x', G.Hides {k} free (x ++ rest) (x' ++ rest') ∧ G.Nested keys free x' rest' o ∧
      ∀ c ∈ x', c ∈ x ∨ c ∈ G.marker := by
  induction hx generalizing rest' with
  | nil => exact ⟨[], hy.anyway hrest, .nil, by simp⟩
  | @char c free x rest o hx hn ih =>
    obtain ⟨x', hpass, hnested, hmem⟩ := ih hrest hy
    refine ⟨c :: x', .char (fun k' hk' => hx k' (hk' ▸ hk)) hpass, .char ?_ hnested, ?_⟩
    · intro k' hk' h v a h'
      obtain ⟨_, _, v', a', _, _, _, _, hbefore⟩ := hpass.assigned_before h'
      exact hx k' hk' h v' a' hbefore
    · intro d hd
      rcases List.mem_cons.mp hd with rfl | hd
      · simp
      · rcases hmem d hd with hd | hd <;> simp [hd]
  | @value k' free h v x rest ov o hk' hx hv hn ihv ih =>
    obtain ⟨x', hpass, hnested, hmem⟩ := ih hrest hy
    obtain ⟨v', hpassValue, hnestedValue, hmemValue⟩ := ihv hx.after_word hpass
    by_cases hkey : k' = k
    · -- the value itself is hidden
      subst hkey
      refine ⟨h ++ (G.marker ++ x'), ?_, ?_, ?_⟩
      · have := Hides.found (Set.mem_singleton k') hx hpass
        simpa using this
      · exact .value hk' (hx.marked hpass.head?) (nested_of_not_word fun _ => G.marker_word) hnested
      · intro d hd
        simp only [List.mem_append] at hd ⊢
        rcases hd with hd | hd | hd
        · simp [hd]
        · simp [hd]
        · rcases hmem d hd with hd | hd <;> simp [hd]
    · -- the pass goes into the value
      refine ⟨h ++ (v' ++ x'), ?_, .value hk' (hx.change ?_ hpass.head? ?_) hnestedValue hnested, ?_⟩
      · obtain ⟨c, w, rfl, hc, hw⟩ := G.head_word hx.head
        have hnot : G.Unassigned {k} free (c :: w ++ (v ++ (x ++ rest))) := by
          rintro _ rfl h' v' a' hx'
          exact hkey (hx.unique hx').1
        have hquiet : Quiet G.isWord (!G.isWord c) w := by simpa [hc] using hw
        have := Hides.char hnot (hpassValue.quiet_append hquiet)
        simpa using this
      · intro d hd
        rcases hmemValue d hd with hd | hd
        · exact hx.value d hd
        · exact G.marker_stop hx.head hd
      · exact hpassValue.head? ▸ hx.opens
      · intro d hd
        simp only [List.mem_append] at hd ⊢
        rcases hd with hd | hd | hd
        · simp [hd]
        · rcases hmemValue d hd with hd | hd <;> simp [hd]
        · rcases hmem d hd with hd | hd <;> simp [hd]

theorem Nested.passes {order : List κ} (hxy : G.Passes order x y) (horder : ∀ k ∈ order, k ∈ keys)
    (hx : G.Nested keys true x [] o) : G.Nested keys true y [] o := by
  induction hxy with
  | nil => exact hx
  | cons hpass _ ih =>
    rw [List.forall_mem_cons] at horder
    obtain ⟨x', hpass', hnested, _⟩ := hx.pass horder.1 (by simp) .nil
    rw [List.append_nil, List.append_nil] at hpass'
    obtain rfl := hpass.deterministic hpass'
    exact ih horder.2 hnested

/-- Where assignments nest, the passes do what one pass for all keys does. -/
theorem Passes.hides {order : List κ} (hxy : G.Passes order x y) (horder : ∀ k, k ∈ order ↔ k ∈ keys)
    (hnests : G.Nests keys true x []) : G.Hides keys true x y := by
  obtain ⟨o, hnested⟩ := hnests.nested within_nil (by simp)
  have hoy := (hnested.passes hxy fun k => (horder k).mp).hides (by simp) .nil
  have hclean : G.Clean keys true y := fun w z hz k hk => hxy.clean k ((horder k).mpr hk) w z hz k rfl
  rw [List.append_nil, List.append_nil] at hoy
  obtain rfl := hclean.hides.deterministic hoy
  have hxo := hnested.hides (by simp) .nil
  rwa [List.append_nil, List.append_nil] at hxo

/-! ## Texts that differ in values -/

theorem Alike.symm (hx : G.Alike keys free x y) : G.Alike keys free y x := by
  induction hx with
  | nil => exact .nil
  | char _ ih => exact .char ih
  | value hk hx hx' _ ih => exact .value hk hx' hx ih

theorem Alike.head? (hx : G.Alike keys free x y) : y.head? = x.head? := by
  cases hx with
  | nil => rfl
  | char => rfl
  | value _ hx hx' _ =>
    obtain ⟨c, w, rfl, _⟩ := G.head_word hx.head
    simp [hx.text, hx'.text]

theorem Alike.of_quiet_append (hw : Quiet G.isWord free w) (hx : G.Alike keys free (w ++ x) y) :
    ∃ y', y = w ++ y' ∧ G.Alike keys (G.freeAfter free w) x y' := by
  induction w generalizing free y with
  | nil => exact ⟨y, rfl, hx⟩
  | cons c w ih =>
    cases hx with
    | char hx =>
      obtain ⟨y', rfl, hy'⟩ := ih hw.2 hx
      exact ⟨y', rfl, hy'⟩
    | value hk hx => exact absurd hx (unassigned_of_quiet hw.1 _ hk _ _ _)

/-- An assignment that begins in a value leaves a part of the value behind it. -/
theorem Assigned.ends_within {b m z : List α} {k' : κ} {h' : List α} (hz : G.Assigned k' free z h' m b) (hk : k' ∈ keys)
    (hh : G.IsHead k h) (ha : ∀ c ∈ a.head?, G.stop k h c = true) (hin : G.Within keys free v a) (hv : v ++ a = z) :
    ∃ m', v = h' ++ (m ++ m') ∧ b = m' ++ a ∧ G.Within keys true m' a := by
  obtain ⟨c, w, rfl, hc, _⟩ := G.head_word hz.head
  have htext := hv.trans hz.text
  have hlength : a.length ≤ b.length := by
    cases v with
    | nil =>
      rw [List.nil_append] at htext
      have := G.stop_word hh (ha c (by simp [htext]))
      simp [hc] at this
    | cons d v => exact hin [] _ rfl k' hk _ m b (hv ▸ hz)
  rw [← List.append_assoc] at htext
  obtain ⟨m', rfl, rfl⟩ := exists_rest htext hlength
  refine ⟨m', List.append_assoc _ _ _, rfl, hin.drop.anyway ?_ fun d hd => G.stop_word hh (ha d hd)⟩
  intro d hd
  exact hz.after_word d (by simp [List.head?_append, Option.mem_def.mp hd])

/-- The values of one assignment in both texts end alike when assignments within end in them. -/
theorem Alike.values (hh : G.IsHead k h) (hz : G.Alike keys free (v ++ a) (v' ++ a'))
    (hv : ∀ c ∈ v, G.stop k h c = false) (ha : ∀ c ∈ a.head?, G.stop k h c = true)
    (hv' : ∀ c ∈ v', G.stop k h c = false) (ha' : ∀ c ∈ a'.head?, G.stop k h c = true)
    (hin : G.Within keys free v a) (hin' : G.Within keys free v' a') : G.Alike keys true a a' := by
  generalize hx : v ++ a = z at hz
  generalize hx' : v' ++ a' = z' at hz
  induction hz generalizing v v' with
  | nil =>
    obtain ⟨rfl, rfl⟩ := List.append_eq_nil_iff.mp hx
    obtain ⟨rfl, rfl⟩ := List.append_eq_nil_iff.mp hx'
    exact .nil
  | @char c free x y hz ih =>
    cases v with
    | nil =>
      rw [List.nil_append] at hx
      subst hx
      cases v' with
      | nil =>
        rw [List.nil_append] at hx'
        subst hx'
        exact .char hz
      | cons d v' =>
        simp only [List.cons_append, List.cons.injEq] at hx'
        have hstop := hv' d (by simp)
        rw [hx'.1, ha c (by simp)] at hstop
        cases hstop
    | cons d v =>
      simp only [List.cons_append, List.cons.injEq] at hx
      obtain ⟨rfl, rfl⟩ := hx
      cases v' with
      | nil =>
        rw [List.nil_append] at hx'
        subst hx'
        have hstop := hv d (by simp)
        rw [ha' d (by simp)] at hstop
        cases hstop
      | cons d' v' =>
        simp only [List.cons_append, List.cons.injEq] at hx'
        obtain ⟨rfl, rfl⟩ := hx'
        rw [List.forall_mem_cons] at hv hv'
        exact ih hv.2 hv'.2 (each_cons.mp hin).2 (each_cons.mp hin').2 rfl rfl
  | @value k' free x x' h' u u' b b' hk hassigned hassigned' hb ih =>
    obtain ⟨m, rfl, hm, hinner⟩ := hassigned.ends_within hk hh ha hin hx
    obtain ⟨m', rfl, hm', hinner'⟩ := hassigned'.ends_within hk hh ha' hin' hx'
    simp only [List.forall_mem_append] at hv hv'
    exact ih hv.2.2 hv'.2.2 hinner hinner' hm.symm hm'.symm

/-- What is assigned in one of the texts is so in the other, and the texts go on alike. -/
theorem Alike.assigned (hx : G.Alike keys free x x') (hn : G.Nests keys free x []) (hn' : G.Nests keys free x' [])
    (hk : k ∈ keys) (hassigned : G.Assigned k free x h v a) :
    ∃ v' a', G.Assigned k free x' h v' a' ∧ G.Alike keys true a a' := by
  cases hx with
  | nil => exact absurd hassigned (unassigned_nil k hk h v a)
  | value hk' hy hy' ha =>
    obtain ⟨rfl, rfl, rfl, rfl⟩ := hassigned.unique hy
    exact ⟨_, _, hy', ha⟩
  | @char c _ y y' hy =>
    obtain ⟨c', w, rfl, hc, hw⟩ := G.head_word hassigned.head
    have htext := hassigned.text
    simp only [List.cons_append, List.cons.injEq] at htext
    obtain ⟨rfl, rfl⟩ := htext
    obtain ⟨z, rfl, hz⟩ := hy.of_quiet_append (by simpa [hc] using hw)
    obtain ⟨v', a', rfl, hassigned'⟩ := exists_assigned hassigned.head (hz.head? ▸ hassigned.opens)
    have hassigned' : G.Assigned k free (c :: w ++ (v' ++ a')) (c :: w) v' a' := hassigned.start ▸ hassigned'
    refine ⟨v', a', hassigned', hz.values hassigned.head hassigned.value hassigned.after hassigned'.value
      hassigned'.after ?_ ?_⟩
    · exact hn [] _ rfl k hk _ v a (by simpa using hassigned)
    · exact hn' [] _ rfl k hk _ v' a' (by simpa using hassigned')

/-- Texts that differ in values with nested assignments are not told apart. -/
theorem Hides.alike (hy : G.Hides keys free x y) (hx : G.Alike keys free x x') (hy' : G.Hides keys free x' y')
    (hn : G.Nests keys free x []) (hn' : G.Nests keys free x' []) : y = y' := by
  induction hy generalizing x' y' with
  | nil =>
    cases hx with
    | nil => exact Hides.deterministic .nil hy'
    | value hk hx => exact absurd hx (unassigned_nil _ hk _ _ _)
  | found hk hassigned hy ih =>
    obtain ⟨v', a', hassigned', ha⟩ := hx.assigned hn hn' hk hassigned
    cases hy' with
    | nil => exact absurd hassigned' (unassigned_nil _ hk _ _ _)
    | char hnot => exact absurd hassigned' (hnot _ hk _ _ _)
    | found _ hfound hy' =>
      obtain ⟨rfl, rfl, rfl, rfl⟩ := hassigned'.unique hfound
      rw [ih ha hy' (hn.after hassigned) (hn'.after hassigned')]
  | char hnot hy ih =>
    cases hx with
    | value hk hx => exact absurd hx (hnot _ hk _ _ _)
    | char hx =>
      cases hy' with
      | found hk hfound _ =>
        obtain ⟨v, a, hassigned, _⟩ := (Alike.char hx).symm.assigned hn' hn hk hfound
        exact absurd hassigned (hnot _ hk _ _ _)
      | char _ hy' => rw [ih hx hy' (each_cons.mp hn).2 (each_cons.mp hn').2]

/-- Texts that are not told apart differ in values only. -/
theorem alike_of_hides (hy : G.Hides keys free x y) (hy' : G.Hides keys free x' y) : G.Alike keys free x x' := by
  induction hy generalizing x' with
  | nil =>
    generalize hz : ([] : List α) = z at hy'
    cases hy' with
    | nil => exact .nil
    | found _ hx _ =>
      obtain ⟨c, w, rfl, _⟩ := G.head_word hx.head
      cases hz
    | char => cases hz
  | @found k free x h v a y hk hx hy ih =>
    have hmarked := hx.marked hy.head?
    generalize hz : h ++ (G.marker ++ y) = z at hy' hmarked
    cases hy' with
    | nil => exact absurd hmarked (unassigned_nil k hk _ _ _)
    | found hk' hx' hy' =>
      obtain ⟨rfl, rfl, -, rfl⟩ := hmarked.unique (hx'.marked hy'.head?)
      exact .value hk hx hx' (ih hy')
    | char hnot hy' =>
      obtain ⟨_, _, v', a', _, _, _, _, hbefore⟩ := hy'.assigned_before hmarked
      exact absurd hbefore (hnot k hk h v' a')
  | @char c free x y hnot hy ih =>
    generalize hz : c :: y = z at hy'
    cases hy' with
    | nil => cases hz
    | found hk hx' hy' =>
      have hmarked := hx'.marked hy'.head?
      rw [← hz] at hmarked
      obtain ⟨_, _, v', a', _, _, _, _, hbefore⟩ := hy.assigned_before hmarked
      exact absurd hbefore (hnot _ hk _ v' a')
    | char _ hy' =>
      cases hz
      exact .char (ih hy')

/-- Where no word begins, it does not matter whether one may. -/
theorem Alike.anyway (hx : G.Alike keys free x y) (hword : ∀ c ∈ x.head?, G.isWord c = false) :
    G.Alike keys free' x y := by
  cases hx with
  | nil => exact .nil
  | char hx => exact .char hx
  | value _ hx =>
    obtain ⟨c, w, rfl, hc, _⟩ := G.head_word hx.head
    simp [hx.text, hc] at hword

theorem Alike.append {w : List α} (hx : G.Alike keys (G.freeAfter free w) x y) : G.Alike keys free (w ++ x) (w ++ y) := by
  induction w generalizing free with
  | nil => exact hx
  | cons c w ih => exact .char (ih hx)

end Grammar

end Lib.Hiding
