import OptionX.Lib.Strings

/-!
# Hiding the values of assignments

A grammar says which texts open an assignment of a key, what may come first behind them, and what ends the value. A pass
goes through a text from left to right and puts a marker in place of each value it meets. A key begins a word, so that no
assignment begins within the opening of another.
-/

namespace Lib.Hiding

open Strings (takeWhile_split split_unique)

variable {κ α : Type}

/-- No word begins in the text; `free` says that one may begin at its start. -/
def Quiet (isWord : α → Bool) : Bool → List α → Prop
  | _, [] => True
  | free, c :: x => (isWord c = true → free = false) ∧ Quiet isWord (!isWord c) x

structure Grammar (κ α : Type) where
  isWord : α → Bool
  /-- The text up to the value. -/
  IsHead : κ → List α → Prop
  /-- What may come first behind the head. -/
  Opens : κ → List α → Option α → Prop
  /-- What ends the value. -/
  stop : κ → List α → α → Bool
  marker : List α
  head_word {k h} : IsHead k h → ∃ c w, h = c :: w ∧ isWord c = true ∧ Quiet isWord false w
  head_unique {k k' h h' x x'} : IsHead k h → IsHead k' h' → Opens k h x.head? → Opens k' h' x'.head? →
    h ++ x = h' ++ x' → k = k' ∧ h = h'
  stop_word {k h c} : IsHead k h → stop k h c = true → isWord c = false
  marker_word {c} : c ∈ marker → isWord c = false
  marker_stop {k h c} : IsHead k h → c ∈ marker → stop k h c = false
  marker_opens {k h} : IsHead k h → ∀ x : List α, Opens k h (marker ++ x).head?

namespace Grammar

variable (G : Grammar κ α)

/-- A word may begin behind the text. -/
def freeAfter (free : Bool) (x : List α) : Bool := x.foldl (fun _ c => !G.isWord c) free

/-- The text begins with an assignment. -/
structure Assigned (k : κ) (free : Bool) (x h v a : List α) : Prop where
  start : free = true
  head : G.IsHead k h
  opens : G.Opens k h (v ++ a).head?
  text : x = h ++ (v ++ a)
  value : ∀ c ∈ v, G.stop k h c = false
  after : ∀ c ∈ a.head?, G.stop k h c = true

/-- Nothing is assigned at the start of the text. -/
def Unassigned (keys : Set κ) (free : Bool) (x : List α) : Prop :=
  ∀ k ∈ keys, ∀ h v a, ¬ G.Assigned k free x h v a

/-- A pass for the keys leads from the first text to the second. -/
inductive Hides (keys : Set κ) : Bool → List α → List α → Prop
  | nil {free} : Hides keys free [] []
  | found {k free x h v a y} (hk : k ∈ keys) (hx : G.Assigned k free x h v a) (hy : Hides keys true a y) :
      Hides keys free x (h ++ (G.marker ++ y))
  | char {c free x y} (hx : G.Unassigned keys free (c :: x)) (hy : Hides keys (!G.isWord c) x y) :
      Hides keys free (c :: x) (c :: y)

/-- A pass for each of the keys. -/
inductive Passes : List κ → List α → List α → Prop
  | nil {x} : Passes [] x x
  | cons {k keys x y z} (hx : G.Hides {k} true x y) (hy : Passes keys y z) : Passes (k :: keys) x z

end Grammar

variable {G : Grammar κ α} {k k' : κ} {free free' : Bool} {x y z h h' v v' a a' w : List α} {c : α}

/-! ## Quiet texts -/

@[simp]
theorem freeAfter_nil : G.freeAfter free [] = free := rfl

@[simp]
theorem freeAfter_cons : G.freeAfter free (c :: x) = G.freeAfter (!G.isWord c) x := rfl

@[simp]
theorem freeAfter_append : G.freeAfter free (x ++ y) = G.freeAfter (G.freeAfter free x) y := by
  simp [Grammar.freeAfter]

/-- Characters outside of words are quiet. -/
theorem quiet_of_not_word {isWord : α → Bool} (hx : ∀ c ∈ x, isWord c = false) : Quiet isWord free x := by
  induction x generalizing free with
  | nil => trivial
  | cons c x ih =>
    rw [List.forall_mem_cons] at hx
    exact ⟨by simp [hx.1], ih hx.2⟩

/-- Within a word no word begins. -/
theorem quiet_of_word {isWord : α → Bool} (hx : ∀ c ∈ x, isWord c = true) : Quiet isWord false x := by
  induction x with
  | nil => trivial
  | cons c x ih =>
    rw [List.forall_mem_cons] at hx
    refine ⟨fun _ => rfl, ?_⟩
    rw [hx.1]
    exact ih hx.2

theorem Quiet.append {isWord : α → Bool} (hx : Quiet isWord free x) (hy : ∀ free, Quiet isWord free y) :
    Quiet isWord free (x ++ y) := by
  induction x generalizing free with
  | nil => exact hy free
  | cons c x ih => exact ⟨hx.1, ih hx.2⟩

namespace Grammar

/-! ## Assignments -/

/-- What the text begins with says which key is assigned, and where the value ends. -/
theorem Assigned.unique (hx : G.Assigned k free x h v a) (hx' : G.Assigned k' free' x h' v' a') :
    k = k' ∧ h = h' ∧ v = v' ∧ a = a' := by
  have htext := hx.text.symm.trans hx'.text
  obtain ⟨rfl, rfl⟩ := G.head_unique hx.head hx'.head hx.opens hx'.opens htext
  obtain ⟨rfl, rfl⟩ := split_unique hx.value hx.after hx'.value hx'.after (List.append_cancel_left htext)
  exact ⟨rfl, rfl, rfl, rfl⟩

/-- Behind a head that opens one stands a value. -/
theorem exists_assigned (hh : G.IsHead k h) (hx : G.Opens k h x.head?) :
    ∃ v a, x = v ++ a ∧ G.Assigned k true (h ++ x) h v a := by
  have hsplit := @List.takeWhile_append_dropWhile _ (!G.stop k h ·) x
  refine ⟨_, _, hsplit.symm, rfl, hh, hsplit.symm ▸ hx, by rw [hsplit], ?_, ?_⟩
  · intro c hc
    simpa using List.mem_takeWhile_imp hc
  · intro c hc
    have := List.head?_dropWhile_not (!G.stop k h ·) x
    simpa [Option.mem_def.mp hc] using this

/-- The value and what follows may be replaced by what begins and ends likewise. -/
theorem Assigned.change (hx : G.Assigned k free x h v a) (hv : ∀ c ∈ v', G.stop k h c = false)
    (ha : a'.head? = a.head?) (hopens : G.Opens k h (v' ++ a').head?) :
    G.Assigned k free (h ++ (v' ++ a')) h v' a' :=
  ⟨hx.start, hx.head, hopens, rfl, hv, ha ▸ hx.after⟩

theorem Assigned.marked (hx : G.Assigned k free x h v a) (ha : a'.head? = a.head?) :
    G.Assigned k free (h ++ (G.marker ++ a')) h G.marker a' :=
  hx.change (fun _ => G.marker_stop hx.head) ha (G.marker_opens hx.head a')

/-- What follows a value begins no word. -/
theorem Assigned.after_word (hx : G.Assigned k free x h v a) : ∀ c ∈ a.head?, G.isWord c = false :=
  fun c hc => G.stop_word hx.head (hx.after c hc)

/-- Nothing is assigned where no word begins. -/
theorem unassigned_of_quiet {keys : Set κ} (h : G.isWord c = true → free = false) : G.Unassigned keys free (c :: x) := by
  intro k _ h' v a hx
  obtain ⟨c', w, rfl, hc', _⟩ := G.head_word hx.head
  have htext := hx.text
  rw [List.cons_append, List.cons.injEq] at htext
  simp [htext.1, hc', hx.start] at h

theorem unassigned_nil {keys : Set κ} : G.Unassigned keys free [] := by
  intro k _ h v a hx
  obtain ⟨c, w, rfl, _⟩ := G.head_word hx.head
  simpa using hx.text

/-! ## Passes -/

variable {keys : Set κ}

theorem Hides.head? (hx : G.Hides keys free x y) : y.head? = x.head? := by
  cases hx with
  | nil => rfl
  | found _ hx _ =>
    obtain ⟨c, w, rfl, _⟩ := G.head_word hx.head
    simp [hx.text]
  | char => rfl

theorem Hides.deterministic (hx : G.Hides keys free x y) (hx' : G.Hides keys free x z) : y = z := by
  induction hx generalizing z with
  | nil =>
    cases hx' with
    | nil => rfl
    | found hk hx _ => exact absurd hx (unassigned_nil _ hk _ _ _)
  | found hk hx _ ih =>
    cases hx' with
    | nil => exact absurd hx (unassigned_nil _ hk _ _ _)
    | found _ hx' hy' =>
      obtain ⟨rfl, rfl, rfl, rfl⟩ := hx.unique hx'
      rw [ih hy']
    | char hx' _ => exact absurd hx (hx' _ hk _ _ _)
  | char hx _ ih =>
    cases hx' with
    | found hk hx' _ => exact absurd hx' (hx _ hk _ _ _)
    | char _ hy' => rw [ih hy']

theorem Hides.exists (keys : Set κ) (free : Bool) (x : List α) : ∃ y, G.Hides keys free x y := by
  induction hn : x.length using Nat.strong_induction_on generalizing free x with
  | _ n ih =>
    by_cases hx : G.Unassigned keys free x
    · cases x with
      | nil => exact ⟨_, .nil⟩
      | cons c x =>
        obtain ⟨y, hy⟩ := ih x.length (by simp [← hn]) _ x rfl
        exact ⟨_, .char hx hy⟩
    · simp only [Unassigned, not_forall, not_not] at hx
      obtain ⟨k, hk, h, v, a, hx⟩ := hx
      obtain ⟨c, w, rfl, _⟩ := G.head_word hx.head
      obtain ⟨y, hy⟩ := ih a.length (by simp [← hn, hx.text]; omega) true a rfl
      exact ⟨_, .found hk hx hy⟩

/-- Where no word begins, it does not matter whether one may. -/
theorem Hides.anyway (hx : G.Hides keys free x y) (hword : ∀ c ∈ x.head?, G.isWord c = false) :
    G.Hides keys free' x y := by
  cases hx with
  | nil => exact .nil
  | found _ hx _ =>
    obtain ⟨c, w, rfl, hc, _⟩ := G.head_word hx.head
    simp [hx.text, hc] at hword
  | char hx hy =>
    refine .char (unassigned_of_quiet ?_) hy
    simp only [List.head?_cons, Option.mem_some_iff, forall_eq'] at hword
    simp [hword]

/-- A pass leaves a text as it is in which nothing is assigned, and comes to what follows it. -/
theorem Hides.pass_over (hw : ∀ u z, w = u ++ z → z ≠ [] → G.Unassigned keys (G.freeAfter free u) (z ++ x))
    (hx : G.Hides keys (G.freeAfter free w) x y) : G.Hides keys free (w ++ x) (w ++ y) := by
  induction w generalizing free with
  | nil => exact hx
  | cons c w ih =>
    refine .char (hw [] (c :: w) rfl (by simp)) (ih ?_ hx)
    intro u z huz hz
    exact hw (c :: u) z (by rw [huz]; rfl) hz

/-- Within a quiet text a word begins only where one goes on. -/
theorem quiet_split {u : List α} (hw : Quiet G.isWord free (u ++ c :: w)) :
    G.isWord c = true → G.freeAfter free u = false := by
  induction u generalizing free with
  | nil => exact hw.1
  | cons d u ih => exact ih hw.2

theorem Hides.quiet_append (hw : Quiet G.isWord free w) (hx : G.Hides keys (G.freeAfter free w) x y) :
    G.Hides keys free (w ++ x) (w ++ y) := by
  refine .pass_over ?_ hx
  rintro u z rfl hz
  cases z with
  | nil => exact absurd rfl hz
  | cons c z => exact unassigned_of_quiet (quiet_split hw)

/-- A quiet text in the result stood there before. -/
theorem Hides.of_quiet_append (hw : Quiet G.isWord free w) (hx : G.Hides keys free x (w ++ y)) :
    ∃ x', x = w ++ x' ∧ G.Hides keys (G.freeAfter free w) x' y := by
  induction w generalizing free x with
  | nil => exact ⟨x, rfl, hx⟩
  | cons c w ih =>
    generalize hz : c :: w ++ y = z at hx
    cases hx with
    | nil => simp at hz
    | found hk hx _ =>
      obtain ⟨c', w', rfl, hc', _⟩ := G.head_word hx.head
      simp only [List.cons_append, List.cons.injEq] at hz
      exact absurd (hw.1 (hz.1 ▸ hc')) (by simp [hx.start])
    | char _ hy =>
      simp only [List.cons_append, List.cons.injEq] at hz
      obtain ⟨rfl, rfl⟩ := hz
      obtain ⟨x', rfl, hx'⟩ := ih hw.2 hy
      exact ⟨x', rfl, hx'⟩

/-- What is assigned in the result of a pass has its head where it was before. -/
theorem Hides.assigned_before (hy : G.Hides keys (!G.isWord c) x y) (hx : G.Assigned k free (c :: y) h v a) :
    ∃ w x' v' a', h = c :: w ∧ x = w ++ x' ∧ G.Hides keys (G.freeAfter (!G.isWord c) w) x' (v ++ a) ∧
      x' = v' ++ a' ∧ G.Assigned k free (c :: x) h v' a' := by
  obtain ⟨c', w, rfl, hc, hw⟩ := G.head_word hx.head
  have htext := hx.text
  simp only [List.cons_append, List.cons.injEq] at htext
  obtain ⟨rfl, rfl⟩ := htext
  obtain ⟨x', rfl, hx'⟩ := hy.of_quiet_append (by simpa [hc] using hw)
  obtain ⟨v', a', rfl, hassigned⟩ := exists_assigned hx.head (hx'.head? ▸ hx.opens)
  exact ⟨w, _, v', a', rfl, rfl, hx', rfl, hx.start ▸ hassigned⟩

/-- The opening of a hidden value and the marker are quiet behind the first character. -/
theorem Assigned.quiet_marked (hx : G.Assigned k free x (c :: w) v a) :
    Quiet G.isWord (!G.isWord c) (w ++ G.marker) := by
  obtain ⟨c', w', hcons, hc, hw⟩ := G.head_word hx.head
  obtain ⟨rfl, rfl⟩ := List.cons.inj hcons
  simpa [hc] using hw.append fun _ => quiet_of_not_word fun _ => G.marker_word

/-! ## Everywhere in a text -/

/-- Each assignment that begins in the text, with `rest` behind it, is such. -/
def Each (G : Grammar κ α) (keys : Set κ) (Q : List α → List α → List α → Prop) (free : Bool) (x rest : List α) : Prop :=
  ∀ w y, x = w ++ y → ∀ k ∈ keys, ∀ h v a, G.Assigned k (G.freeAfter free w) (y ++ rest) h v a → Q h v a

variable {Q : List α → List α → List α → Prop} {rest : List α}

theorem each_nil (hrest : ∀ c ∈ rest.head?, G.isWord c = false) : G.Each keys Q free [] rest := by
  intro w y hy k hk h v a hx
  obtain ⟨rfl, rfl⟩ := List.nil_eq_append_iff.mp hy
  cases rest with
  | nil => exact absurd hx (unassigned_nil _ hk _ _ _)
  | cons c rest =>
    refine absurd hx (unassigned_of_quiet ?_ _ hk _ _ _)
    simp [hrest c (by simp)]

theorem each_cons : G.Each keys Q free (c :: x) rest ↔
    (∀ k ∈ keys, ∀ h v a, G.Assigned k free (c :: (x ++ rest)) h v a → Q h v a) ∧
      G.Each keys Q (!G.isWord c) x rest := by
  constructor
  · intro hx
    exact ⟨fun k hk h v a => hx [] (c :: x) rfl k hk h v a, fun w y hy => hx (c :: w) y (by rw [hy]; rfl)⟩
  · rintro ⟨hhead, htail⟩ w y hy
    cases w with
    | nil =>
      rw [List.nil_append] at hy
      subst hy
      exact hhead
    | cons c' w =>
      simp only [List.cons_append, List.cons.injEq] at hy
      obtain ⟨rfl, rfl⟩ := hy
      exact htail w y rfl

theorem Each.drop (hx : G.Each keys Q free (w ++ x) rest) : G.Each keys Q (G.freeAfter free w) x rest := by
  intro w' y hy
  have := hx (w ++ w') y (by simp [hy])
  rwa [freeAfter_append] at this

theorem Each.take (hx : G.Each keys Q free (x ++ y) rest) : G.Each keys Q free x (y ++ rest) := by
  intro w z hz
  have := hx w (z ++ y) (by simp [hz])
  rwa [List.append_assoc] at this

theorem Each.quiet_append (hw : Quiet G.isWord free w) (hx : G.Each keys Q (G.freeAfter free w) x rest) :
    G.Each keys Q free (w ++ x) rest := by
  induction w generalizing free with
  | nil => exact hx
  | cons c w ih =>
    exact each_cons.mpr ⟨fun k hk h v a h' => absurd h' (unassigned_of_quiet hw.1 k hk h v a), ih hw.2 hx⟩

theorem Each.anyway (hx : G.Each keys Q free x rest) (hword : ∀ c ∈ x.head?, G.isWord c = false)
    (hrest : ∀ c ∈ rest.head?, G.isWord c = false) : G.Each keys Q free' x rest := by
  cases x with
  | nil => exact each_nil hrest
  | cons c x =>
    have hquiet : G.isWord c = true → free' = false := by simp [hword c (by simp)]
    exact each_cons.mpr
      ⟨fun k hk h v a h' => absurd h' (unassigned_of_quiet hquiet k hk h v a), (each_cons.mp hx).2⟩

/-! ## Hidden values -/

/-- All values are hidden. -/
def Clean (G : Grammar κ α) (keys : Set κ) (free : Bool) (x : List α) : Prop :=
  G.Each keys (fun _ v _ => v = G.marker) free x []

/-- A pass for hidden values changes nothing. -/
theorem Clean.hides (hx : G.Clean keys free x) : G.Hides keys free x x := by
  induction hn : x.length using Nat.strong_induction_on generalizing free x with
  | _ n ih =>
    cases x with
    | nil => exact .nil
    | cons c x =>
      obtain ⟨hhead, htail⟩ := each_cons.mp hx
      rw [List.append_nil] at hhead
      by_cases hfound : G.Unassigned keys free (c :: x)
      · exact .char hfound (ih x.length (by simp [← hn]) htail rfl)
      · simp only [Unassigned, not_forall, not_not] at hfound
        obtain ⟨k, hk, h, v, a, hfound⟩ := hfound
        obtain rfl := hhead k hk h v a hfound
        obtain ⟨c', w, rfl, _⟩ := G.head_word hfound.head
        have hafter : G.Clean keys true a := by
          rw [hfound.text, ← List.append_assoc] at hx
          exact hx.drop.anyway hfound.after_word (by simp)
        have hy := ih a.length (by simp [← hn, hfound.text]; omega) hafter rfl
        have := Hides.found hk hfound hy
        rwa [← hfound.text] at this

/-- The result of a pass, where a value stands hidden. -/
theorem Assigned.clean_marked (hx : G.Assigned k free x h v a) (ha : y.head? = a.head?) (hy : G.Clean keys true y) :
    G.Clean keys free (h ++ (G.marker ++ y)) := by
  obtain ⟨c, w, rfl, _⟩ := G.head_word hx.head
  rw [List.cons_append, ← List.append_assoc]
  refine each_cons.mpr ⟨?_, ?_⟩
  · intro k' _ h' v' a' hx'
    rw [List.append_nil, List.append_assoc, ← List.cons_append] at hx'
    exact (hx'.unique (hx.marked ha)).2.2.1
  · exact Each.quiet_append hx.quiet_marked (Each.anyway hy (ha ▸ hx.after_word) (by simp))

/-- A pass hides all values. -/
theorem Hides.clean (hx : G.Hides keys free x y) : G.Clean keys free y := by
  induction hx with
  | nil => exact each_nil (by simp)
  | found _ hx hy ih => exact hx.clean_marked hy.head? ih
  | char hx hy ih =>
    refine each_cons.mpr ⟨?_, ih⟩
    intro k hk h v a h'
    rw [List.append_nil] at h'
    obtain ⟨_, _, v', a', _, _, _, _, hbefore⟩ := hy.assigned_before h'
    exact absurd hbefore (hx k hk h v' a')

/-- A pass for other keys leaves hidden values hidden. -/
theorem Hides.keeps_clean {keys' : Set κ} (hx : G.Hides keys' free x y) (hclean : G.Clean keys free x) :
    G.Clean keys free y := by
  induction hx with
  | nil => exact hclean
  | found _ hx hy ih =>
    refine hx.clean_marked hy.head? (ih ?_)
    rw [hx.text, ← List.append_assoc] at hclean
    exact hclean.drop.anyway hx.after_word (by simp)
  | char hx hy ih =>
    obtain ⟨hhead, htail⟩ := each_cons.mp hclean
    refine each_cons.mpr ⟨?_, ih htail⟩
    intro k hk h v a h'
    rw [List.append_nil] at h' hhead
    obtain ⟨w, x', v', a', rfl, rfl, hvalue, rfl, hbefore⟩ := hy.assigned_before h'
    obtain rfl := hhead k hk _ v' a' hbefore
    -- the pass goes over the marker, and keeps what follows it ended
    obtain ⟨z, hz⟩ := Hides.exists keys' (G.freeAfter (G.freeAfter (!G.isWord _) w) G.marker) a'
    have hmarker := hvalue.deterministic
      (hz.quiet_append (quiet_of_not_word fun _ => G.marker_word))
    exact (split_unique h'.value h'.after (fun _ => G.marker_stop h'.head) (hz.head? ▸ hbefore.after) hmarker).1

theorem Passes.keeps_clean {order : List κ} (hx : G.Passes order x y) (hclean : G.Clean keys true x) :
    G.Clean keys true y := by
  induction hx with
  | nil => exact hclean
  | cons hx _ ih => exact ih (hx.keeps_clean hclean)

theorem Passes.clean {order : List κ} (hx : G.Passes order x y) : ∀ k ∈ order, G.Clean {k} true y := by
  induction hx with
  | nil => simp
  | cons hx hy ih =>
    rw [List.forall_mem_cons]
    exact ⟨hy.keeps_clean hx.clean, ih⟩

theorem passes_of_clean {order : List κ} (hx : ∀ k ∈ order, G.Clean {k} true x) : G.Passes order x x := by
  induction order with
  | nil => exact .nil
  | cons k order ih =>
    rw [List.forall_mem_cons] at hx
    exact .cons hx.1.hides (ih hx.2)

/-- The passes change nothing when they are made again. -/
theorem Passes.idempotent {order : List κ} (hx : G.Passes order x y) : G.Passes order y y :=
  passes_of_clean hx.clean

theorem Passes.deterministic {order : List κ} (hx : G.Passes order x y) (hx' : G.Passes order x z) : y = z := by
  induction hx with
  | nil =>
    cases hx'
    rfl
  | cons hx _ ih =>
    cases hx' with
    | cons hx' hy' =>
      obtain rfl := hx.deterministic hx'
      exact ih hy'

end Grammar

end Lib.Hiding
