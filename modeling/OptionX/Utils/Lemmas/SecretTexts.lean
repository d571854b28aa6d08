import OptionX.Utils.Lemmas.LogRedaction

/-!
# Texts with secrets

Two texts that differ in the values of assignments, quoted with backslash escapes or up to the delimiter of the key. The
grammar of the code has the same values where only spaces stand around the separator and no quote is escaped.
-/

namespace OptionX.Utils.LogRedaction

open Lib.Hiding.Grammar (Assigned Alike Nests Unassigned)

/-! ## Definitions -/

/-- Text between quotes, in which a backslash stands before any character. -/
inductive Escaped (q : Char) : List Char → Prop
  | nil : Escaped q []
  | char {c v} (hquote : c ≠ q) (hbackslash : c ≠ '\\') (hv : Escaped q v) : Escaped q (c :: v)
  | escape {c v} (hv : Escaped q v) : Escaped q ('\\' :: c :: v)

/-- The value stands behind the head, and ends where `rest` begins. -/
def Head.Holds {key : SecretKey} (head : Head key) (value rest : List Char) : Prop :=
  value ≠ [] ∧
    match head.quote with
    | some q => Escaped q value ∧ rest.head? = some q
    | none =>
      (∀ c ∈ value.head?, c ≠ ' ' ∧ c ≠ '\t' ∧ isQuote c = false) ∧ (∀ c ∈ value, isEnd key none c = false) ∧
        ∀ c ∈ rest.head?, isEnd key none c = true

/-- A character, or an assignment with its values in two texts. -/
inductive Piece where
  | char (c : Char)
  | secret (key : SecretKey) (head : Head key) (first second : List Char)

namespace Piece

def firstText : Piece → List Char
  | char c => [c]
  | secret _ head first _ => head.text ++ first

def secondText : Piece → List Char
  | char c => [c]
  | secret _ head _ second => head.text ++ second

/-- The values are those of the code: there is no tab where the code expects none, and quoted values differ only before their
first own quote. -/
def Recognised : Piece → Prop
  | char _ => True
  | secret key head first second =>
    (∀ c ∈ head.before, c = ' ') ∧
      match head.quote with
      | some q => (∀ c ∈ head.behind, c = ' ') ∧ first.dropWhile (· ≠ q) = second.dropWhile (· ≠ q)
      | none => (∀ c ∈ head.behind, c = ' ') ∨ key.isLineValued = true

end Piece

def firstText (pieces : List Piece) : List Char := pieces.flatMap Piece.firstText

def secondText (pieces : List Piece) : List Char := pieces.flatMap Piece.secondText

/-- Keys begin words, and the values stand behind their heads in both texts. -/
def WellFormed : Bool → List Piece → Prop
  | _, [] => True
  | _, .char c :: pieces => WellFormed (isKeyBoundary c) pieces
  | free, .secret _ head first second :: pieces =>
    free = true ∧ head.Holds first (firstText pieces) ∧ head.Holds second (secondText pieces) ∧ WellFormed false pieces

/-- An assignment that begins in the value of another ends in it. -/
def AssignmentsNest (text : List Char) : Prop := secrets.Nests Set.univ true text []

/-- The texts differ only in values as the code finds them. -/
def DifferInValues (text text' : List Char) : Prop := secrets.Alike Set.univ true text text'

variable {key : SecretKey} {x v a : List Char} {free : Bool} {pieces : List Piece}

/-! ## Values -/

/-- The head without what the code takes for a part of the value. -/
def Head.trimmed (head : Head key) : Head key :=
  { head with
    behind := head.behind.takeWhile (· = ' ')
    behind_blank := fun _ hc => .inl (by simpa using List.mem_takeWhile_imp hc) }

theorem Head.trimmed_spaced (head : Head key) (hbefore : ∀ c ∈ head.before, c = ' ') : head.trimmed.Spaced :=
  ⟨hbefore, fun _ hc => by simpa using List.mem_takeWhile_imp hc⟩

theorem Head.text_trimmed (head : Head key) (hquote : head.quote = none) :
    head.text = head.trimmed.text ++ head.behind.dropWhile (· = ' ') := by
  simp [Head.text, Head.trimmed, hquote]

theorem isEnd_blank {c : Char} (hline : key.isLineValued = true) (hc : c = ' ' ∨ c = '\t') : isEnd key none c = false := by
  rcases hc with rfl | rfl <;> simp [isEnd, hline]

/-- What the code takes for a value without quotes. -/
theorem Head.assigned_plain (head : Head key) (hquote : head.quote = none) (hbefore : ∀ c ∈ head.before, c = ' ')
    (hbehind : (∀ c ∈ head.behind, c = ' ') ∨ key.isLineValued = true) (hv : head.Holds v a) :
    secrets.Assigned key true (head.text ++ v ++ a) head.trimmed.text (head.behind.dropWhile (· = ' ') ++ v) a := by
  obtain ⟨hne, hv⟩ := hv
  rw [hquote] at hv
  obtain ⟨hfirst, hvalue, hafter⟩ := hv
  have htrimmed : head.trimmed.quote = none := hquote
  have hopens : Opens head.trimmed.text (head.behind.dropWhile (· = ' ') ++ v ++ a).head? := by
    rw [head.trimmed.opens_iff]
    refine .inr ?_
    have hspace := List.head?_dropWhile_not (fun c => decide (c = ' ')) head.behind
    cases hdrop : head.behind.dropWhile (· = ' ') with
    | nil =>
      cases v with
      | nil => exact absurd rfl hne
      | cons c v =>
        have := hfirst c rfl
        exact ⟨c, rfl, this.1, this.2.2⟩
    | cons c rest =>
      have hmem : c ∈ head.behind := (List.dropWhile_suffix _).subset (hdrop ▸ List.mem_cons_self)
      rw [hdrop] at hspace
      have htab : c = '\t' := (head.behind_blank c hmem).resolve_left (by simpa using hspace)
      exact ⟨c, rfl, by rw [htab]; simp, by rw [htab]; rfl⟩
  refine ⟨rfl, ⟨head.trimmed, head.trimmed_spaced hbefore, rfl⟩, hopens, ?_, ?_, ?_⟩
  · rw [head.text_trimmed hquote]
    simp
  · intro c hc
    rw [stop_text, htrimmed]
    rcases List.mem_append.mp hc with hc | hc
    · have hmem : c ∈ head.behind := (List.dropWhile_suffix _).subset hc
      rcases hbehind with hspaces | hline
      · rw [List.dropWhile_eq_nil_iff.mpr (by simpa using hspaces)] at hc
        cases hc
      · exact isEnd_blank hline (head.behind_blank c hmem)
    · exact hvalue c hc
  · intro c hc
    rw [stop_text, htrimmed]
    exact hafter c hc

/-- What the code takes for a value in quotes. -/
theorem Head.assigned_quoted (head : Head key) {q : Char} (hquote : head.quote = some q)
    (hspaced : head.Spaced) (hv : head.Holds v a) :
    secrets.Assigned key true (head.text ++ v ++ a) head.text (v.takeWhile (· ≠ q)) (v.dropWhile (· ≠ q) ++ a) := by
  obtain ⟨-, hv⟩ := hv
  rw [hquote] at hv
  obtain ⟨-, hafter⟩ := hv
  refine ⟨rfl, ⟨head, hspaced, rfl⟩, ?_, ?_, ?_, ?_⟩
  · exact head.opens_iff.mpr (.inl (by simp [hquote]))
  · have hsplit := @List.takeWhile_append_dropWhile _ (fun c => decide (c ≠ q)) v
    calc head.text ++ v ++ a
        = head.text ++ (v.takeWhile (· ≠ q) ++ v.dropWhile (· ≠ q)) ++ a := by rw [hsplit]
      _ = _ := by simp only [List.append_assoc]
  · intro c hc
    rw [stop_text, hquote]
    simpa [isEnd] using List.mem_takeWhile_imp hc
  · intro c hc
    rw [stop_text, hquote]
    have hnot := List.head?_dropWhile_not (fun c => decide (c ≠ q)) v
    cases hdrop : v.dropWhile (fun c => decide (c ≠ q)) with
    | nil =>
      rw [hdrop, List.nil_append, hafter] at hc
      simpa [isEnd] using hc.symm
    | cons d rest =>
      rw [hdrop] at hc hnot
      obtain rfl : d = c := by simpa using hc
      simpa [isEnd] using hnot

/-- What follows a value begins no word. -/
theorem Head.Holds.after_word {head : Head key} (h : head.Holds v a) : ∀ c ∈ a.head?, isWord c = false := by
  obtain ⟨-, hv⟩ := h
  intro c hc
  cases hquote : head.quote with
  | none =>
    rw [hquote] at hv
    exact isWord_of_isEnd (by simp) (hv.2.2 c hc)
  | some q =>
    rw [hquote] at hv
    obtain rfl : q = c := Option.some.inj (hv.2.symm.trans hc)
    exact isWord_of_isQuote (head.quote_eq q hquote)

/-- Recognised values are the values of the code. -/
theorem differ_of_recognised (hpieces : WellFormed free pieces) (hrecognised : ∀ p ∈ pieces, p.Recognised) :
    secrets.Alike Set.univ free (firstText pieces) (secondText pieces) := by
  induction pieces generalizing free with
  | nil => exact .nil
  | cons p pieces ih =>
    rw [List.forall_mem_cons] at hrecognised
    cases p with
    | char c => exact .char (ih hpieces hrecognised.2)
    | secret key head first second =>
      obtain ⟨rfl, hfirst, hsecond, hpieces⟩ := hpieces
      obtain ⟨⟨hbefore, hbehind⟩, hrecognised⟩ := hrecognised
      have hrest := ih hpieces hrecognised
      have hafter := hfirst.after_word
      simp only [firstText, secondText, List.flatMap_cons, Piece.firstText, Piece.secondText] at *
      cases hquote : head.quote with
      | none =>
        rw [hquote] at hbehind
        exact .value trivial (head.assigned_plain hquote hbefore hbehind hfirst)
          (head.assigned_plain hquote hbefore hbehind hsecond) (hrest.anyway hafter)
      | some q =>
        rw [hquote] at hbehind
        have hquoted := head.assigned_quoted hquote ⟨hbefore, hbehind.1⟩ hfirst
        refine .value trivial hquoted (head.assigned_quoted hquote ⟨hbefore, hbehind.1⟩ hsecond) ?_
        rw [← hbehind.2]
        exact (hrest.anyway hafter).append

/-! ## Texts with one separator -/

/-- A head takes a separator. -/
theorem unassigned_of_no_separator (hx : x.countP (fun c => c = '=' || c = ':') = 0) {keys : Set SecretKey} :
    secrets.Unassigned keys free x := by
  rintro key - _ v a ⟨-, ⟨head, -, rfl⟩, -, rfl, -⟩
  rw [List.countP_eq_zero] at hx
  have := hx head.separator (by simp [Head.text])
  rcases head.separator_eq with h | h <;> simp [h] at this

/-- In a text with one separator no assignment begins in the value of another. -/
theorem nests_of_single (hx : x.countP (fun c => c = '=' || c = ':') ≤ 1) : AssignmentsNest x := by
  rintro w y rfl key - _ v a ⟨-, ⟨head, -, rfl⟩, -, htext, -⟩ w' u rfl key' hkey' h' v' a' hassigned
  rw [List.append_nil] at htext
  have hnone : (u ++ a).countP (fun c => c = '=' || c = ':') = 0 := by
    rw [htext] at hx
    have hseparator : 0 < head.text.countP (fun c => c = '=' || c = ':') := by
      rw [List.countP_pos_iff]
      refine ⟨head.separator, by simp [Head.text], ?_⟩
      rcases head.separator_eq with h | h <;> simp [h]
    simp only [List.countP_append] at hx ⊢
    omega
  exact absurd hassigned (unassigned_of_no_separator hnone key' hkey' h' v' a')

end OptionX.Utils.LogRedaction
