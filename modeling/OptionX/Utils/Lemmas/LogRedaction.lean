import OptionX.Lib.Nesting
import OptionX.Utils.LogRedaction

/-!
# The grammar of secrets

Keys with a separator among spaces open an assignment. The loop for one key is a pass of that grammar, so that redaction is
one pass for each key.
-/

namespace OptionX.Utils.LogRedaction

open Lib.Hiding (Grammar Quiet quiet_of_not_word quiet_of_word)
open Lib.Hiding.Grammar (Unassigned Hides Passes unassigned_of_quiet)
open Lib.Strings (cut cut_eq cut_first cut_none takeWhile_split split_unique)

/-- The text of an assignment up to its value: the key in any case, a separator among spaces and tabs, and a quote. -/
structure Head (key : SecretKey) where
  name : List Char
  before : List Char
  separator : Char
  behind : List Char
  quote : Option Char
  name_eq : toLowerAscii name = key.text
  before_blank : ∀ c ∈ before, c = ' ' ∨ c = '\t'
  separator_eq : separator = '=' ∨ separator = ':'
  behind_blank : ∀ c ∈ behind, c = ' ' ∨ c = '\t'
  quote_eq : ∀ q ∈ quote, isQuote q = true

namespace Head

variable {key : SecretKey}

def text (head : Head key) : List Char :=
  head.name ++ (head.before ++ head.separator :: (head.behind ++ head.quote.toList))

/-- There are no tabs. -/
def Spaced (head : Head key) : Prop := (∀ c ∈ head.before, c = ' ') ∧ ∀ c ∈ head.behind, c = ' '

/-- The head with a quote behind it. -/
def quoted (head : Head key) (q : Char) (hq : isQuote q = true) : Head key :=
  { head with quote := some q, quote_eq := fun _ h => Option.mem_some_iff.mp h ▸ hq }

@[simp]
theorem quote_quoted (head : Head key) {q : Char} (hq : isQuote q = true) : (head.quoted q hq).quote = some q := rfl

theorem text_quoted (head : Head key) {q : Char} (hq : isQuote q = true) (hquote : head.quote = none) :
    (head.quoted q hq).text = head.text ++ [q] := by
  simp [text, quoted, hquote]

end Head

/-- The quote that a text ends with. -/
def quoteOf (h : List Char) : Option Char := h.getLast?.filter isQuote

variable {key key' : SecretKey} {h x x' y v a : List Char} {c : Char} {previous : Option Char}

/-! ## Characters -/

theorem isWord_of_mem_text (h : c ∈ key.text) : isWord c = true := by
  cases key <;> simp only [SecretKey.text, List.mem_cons, List.not_mem_nil, or_false] at h <;>
    rcases h with rfl | rfl | rfl | rfl | rfl | rfl | rfl | rfl | rfl | rfl | rfl | rfl | rfl <;> rfl

theorem text_injective (h : key.text = key'.text) : key = key' := by
  cases key <;> cases key' <;> first | rfl | exact absurd h (by decide)

theorem isWord_of_toLower (h : isWord c.toLower = true) : isWord c = true := by
  by_cases hupper : c.isUpper = true
  · simp [isWord, Char.isAlphanum, Char.isAlpha, hupper]
  · have : c.toLower = c := by
      simp only [Char.isUpper, decide_eq_true_eq] at hupper
      unfold Char.toLower
      rw [dif_neg hupper]
    rwa [this] at h

theorem isWord_of_isEnd {quote : Option Char} (hquote : ∀ q ∈ quote, isQuote q = true) (h : isEnd key quote c = true) :
    isWord c = false := by
  cases quote with
  | some q =>
    simp only [isEnd, decide_eq_true_eq] at h
    have hq := hquote q rfl
    simp only [isQuote, Bool.or_eq_true, decide_eq_true_eq, ← h] at hq
    rcases hq with rfl | rfl <;> rfl
  | none =>
    have hdelimiter : isValueDelimiter c = true := by
      simp only [isEnd] at h
      split at h
      · simp only [Bool.or_eq_true, decide_eq_true_eq] at h
        rcases h with rfl | rfl <;> rfl
      · exact h
    simp only [isValueDelimiter, Bool.or_eq_true, decide_eq_true_eq] at hdelimiter
    rcases hdelimiter with (((((rfl | rfl) | rfl) | rfl) | rfl) | rfl) | rfl <;> rfl

theorem quoteOf_isQuote : ∀ q ∈ quoteOf h, isQuote q = true := by
  intro q hq
  simp only [quoteOf, Option.mem_def, Option.filter_eq_some_iff] at hq
  exact hq.2

theorem isEnd_star {quote : Option Char} (hquote : ∀ q ∈ quote, isQuote q = true) : isEnd key quote '*' = false := by
  cases quote with
  | some q =>
    have hq := hquote q rfl
    simp only [isQuote, Bool.or_eq_true, decide_eq_true_eq] at hq
    rcases hq with rfl | rfl <;> rfl
  | none => cases key <;> rfl

/-! ## Heads -/

theorem isWord_of_key (hkey : toLowerAscii x = key.text) : ∀ c ∈ x, isWord c = true := by
  intro c hc
  have : c.toLower ∈ key.text := by
    rw [← hkey]
    exact List.mem_map_of_mem hc
  exact isWord_of_toLower (isWord_of_mem_text this)

theorem length_of_key (hkey : toLowerAscii x = key.text) : x.length = key.text.length := by
  rw [← hkey, toLowerAscii, List.length_map]

/-- A key is a word. -/
theorem exists_word_of_key (hkey : toLowerAscii x = key.text) :
    ∃ c w, x = c :: w ∧ isWord c = true ∧ Quiet isWord false w := by
  cases x with
  | nil => exact absurd (length_of_key hkey) (by simp [key.text_length_pos.ne])
  | cons c w =>
    have hword := isWord_of_key hkey
    rw [List.forall_mem_cons] at hword
    exact ⟨c, w, rfl, hword.1, quiet_of_word hword.2⟩

theorem isWord_of_blank (h : c = ' ' ∨ c = '\t') : isWord c = false := by
  rcases h with rfl | rfl <;> rfl

theorem isWord_of_isQuote (h : isQuote c = true) : isWord c = false := by
  simp only [isQuote, Bool.or_eq_true, decide_eq_true_eq] at h
  rcases h with rfl | rfl <;> rfl

theorem Head.isWord_separator (head : Head key) : isWord head.separator = false := by
  rcases head.separator_eq with h | h <;> rw [h] <;> rfl

theorem Head.separator_ne_space (head : Head key) : head.separator ≠ ' ' := by
  rcases head.separator_eq with h | h <;> rw [h] <;> simp

/-- Behind the key no word begins. -/
theorem Head.isWord_behind (head : Head key) :
    ∀ c ∈ head.before ++ head.separator :: (head.behind ++ head.quote.toList), isWord c = false := by
  intro c hc
  simp only [List.mem_append, List.mem_cons, Option.mem_toList] at hc
  rcases hc with hc | rfl | hc | hc
  · exact isWord_of_blank (head.before_blank c hc)
  · exact head.isWord_separator
  · exact isWord_of_blank (head.behind_blank c hc)
  · exact isWord_of_isQuote (head.quote_eq c hc)

theorem Head.isWord_next (head : Head key) :
    ∀ c ∈ (head.before ++ (head.separator :: (head.behind ++ (head.quote.toList ++ x)))).head?, isWord c = false := by
  intro c hc
  apply head.isWord_behind c
  cases hbefore : head.before with
  | nil =>
    rw [hbefore] at hc
    simp_all
  | cons d l =>
    rw [hbefore] at hc
    simp_all

theorem Head.begins_word (head : Head key) : ∃ c w, head.text = c :: w ∧ isWord c = true ∧ Quiet isWord false w := by
  obtain ⟨c, w, hname, hc, hw⟩ := exists_word_of_key head.name_eq
  exact ⟨c, _, by rw [Head.text, hname]; rfl, hc, hw.append fun _ => quiet_of_not_word head.isWord_behind⟩

/-- The quote of a head is the last character, since a separator and blanks are none. -/
theorem Head.quoteOf_text (head : Head key) : quoteOf head.text = head.quote := by
  unfold quoteOf
  cases hquote : head.quote with
  | some q =>
    have hlast : head.text.getLast? = some q := by
      have htext : head.text = head.name ++ head.before ++ [head.separator] ++ head.behind ++ [q] := by
        simp [Head.text, hquote]
      rw [htext, List.getLast?_concat]
    rw [hlast, Option.filter_some, if_pos (head.quote_eq q hquote)]
  | none =>
    have hmem : ∀ c ∈ head.text.getLast?, isQuote c = false := by
      have htext : head.text = head.name ++ head.before ++ (head.separator :: head.behind) := by
        simp [Head.text, hquote]
      intro c hc
      rw [htext, List.getLast?_append_of_ne_nil _ (by simp)] at hc
      rcases List.mem_cons.mp (List.mem_of_getLast? hc) with rfl | hc
      · rcases head.separator_eq with h | h <;> rw [h] <;> rfl
      · rcases head.behind_blank c hc with rfl | rfl <;> rfl
    cases hlast : head.text.getLast? with
    | none => rfl
    | some c => rw [Option.filter_some, hmem c hlast]; rfl

/-- What a value may begin with: a quote is part of the head, and so are spaces. -/
def Opens (h : List Char) (first : Option Char) : Prop :=
  quoteOf h ≠ none ∨ ∃ c, first = some c ∧ c ≠ ' ' ∧ isQuote c = false

theorem Head.opens_iff (head : Head key) : Opens head.text x.head? ↔
    head.quote ≠ none ∨ ∃ c, x.head? = some c ∧ c ≠ ' ' ∧ isQuote c = false := by
  rw [Opens, head.quoteOf_text]

/-- Behind the spaces comes no space. -/
theorem Head.first_ne_space (head : Head key) (hopens : Opens head.text x.head?) :
    ∀ c ∈ (head.quote.toList ++ x).head?, c ≠ ' ' := by
  intro c hc
  rcases head.opens_iff.mp hopens with hquote | ⟨d, hd, hspace, _⟩
  · obtain ⟨q, hq⟩ := Option.ne_none_iff_exists'.mp hquote
    rw [hq] at hc
    obtain rfl : q = c := by simpa using hc
    have := head.quote_eq q hq
    rintro rfl
    cases this
  · cases hquote : head.quote with
    | none =>
      simp only [hquote, Option.toList_none, List.nil_append, Option.mem_def, hd, Option.some.injEq] at hc
      exact hc ▸ hspace
    | some q =>
      rw [hquote] at hc
      obtain rfl : q = c := by simpa using hc
      have := head.quote_eq q hquote
      rintro rfl
      cases this

theorem Head.quote_of_none (head : Head key) (hquote : head.quote = none) (hopens : Opens head.text x.head?) :
    ∀ c ∈ x.head?, isQuote c = false := by
  obtain ⟨d, hd, _, hnot⟩ := (head.opens_iff.mp hopens).resolve_left (by simp [hquote])
  intro c hc
  rw [hd] at hc
  exact Option.mem_some_iff.mp hc ▸ hnot

theorem Head.quote_unique (head : Head key) (head' : Head key') (hopens : Opens head.text x.head?)
    (hopens' : Opens head'.text x'.head?) (htext : head.quote.toList ++ x = head'.quote.toList ++ x') :
    head.quote = head'.quote := by
  cases hquote : head.quote with
  | none =>
    cases hquote' : head'.quote with
    | none => rfl
    | some q =>
      rw [hquote, hquote'] at htext
      obtain rfl : x = q :: x' := by simpa using htext
      have hnot := head.quote_of_none hquote hopens q (by simp)
      simp [head'.quote_eq q hquote'] at hnot
  | some q =>
    cases hquote' : head'.quote with
    | none =>
      rw [hquote, hquote'] at htext
      obtain rfl : q :: x = x' := by simpa using htext
      have hnot := head'.quote_of_none hquote' hopens' q (by simp)
      simp [head.quote_eq q hquote] at hnot
    | some q' =>
      rw [hquote, hquote'] at htext
      simpa using (List.cons.inj htext).1

/-- A text behind a head without tabs is split from it in one way. -/
theorem Head.text_unique (head : Head key) (head' : Head key') (hspaced : head.Spaced) (hspaced' : head'.Spaced)
    (hopens : Opens head.text x.head?) (hopens' : Opens head'.text x'.head?) (htext : head.text ++ x = head'.text ++ x') :
    key = key' ∧ head.text = head'.text := by
  have hfirst := head.first_ne_space hopens
  have hfirst' := head'.first_ne_space hopens'
  simp only [Head.text, List.append_assoc, List.cons_append] at htext
  obtain ⟨hname, hrest⟩ := @split_unique _ (!isWord ·) _ _ _ _ (by simpa using (isWord_of_key head.name_eq))
    (fun c hc => by simp [head.isWord_next c hc]) (by simpa using (isWord_of_key head'.name_eq))
    (fun c hc => by simp [head'.isWord_next c hc]) htext
  obtain rfl : key = key' := text_injective (head.name_eq.symm.trans ((congrArg _ hname).trans head'.name_eq))
  obtain ⟨hbefore, hrest⟩ := @split_unique _ (fun c => !(c == ' ')) _ _ _ _ (by simpa using hspaced.1)
    (by simp [head.separator_ne_space]) (by simpa using hspaced'.1) (by simp [head'.separator_ne_space]) hrest
  obtain ⟨hsep, hrest⟩ := List.cons.inj hrest
  obtain ⟨hbehind, hrest⟩ := @split_unique _ (fun c => !(c == ' ')) _ _ _ _ (by simpa using hspaced.2)
    (by simpa using hfirst) (by simpa using hspaced'.2) (by simpa using hfirst') hrest
  refine ⟨rfl, ?_⟩
  rw [Head.text, Head.text, hname, hbefore, hsep, hbehind, head.quote_unique head' hopens hopens' hrest]

/-! ## The grammar -/

/-- Assignments as the loop finds them. -/
def secrets : Grammar SecretKey Char where
  isWord := isWord
  IsHead key h := ∃ head : Head key, head.Spaced ∧ h = head.text
  Opens _ h first := Opens h first
  stop key h c := isEnd key (quoteOf h) c
  marker := marker
  head_word := by
    rintro _ _ ⟨head, _, rfl⟩
    exact head.begins_word
  head_unique := by
    rintro _ _ _ _ _ _ ⟨head, hspaced, rfl⟩ ⟨head', hspaced', rfl⟩ hopens hopens' htext
    exact head.text_unique head' hspaced hspaced' hopens hopens' htext
  stop_word := fun _ h => isWord_of_isEnd quoteOf_isQuote h
  marker_word := by simp [marker, isWord]
  marker_stop := by
    intro _ _ _ _ hc
    obtain rfl : _ = '*' := by simpa [marker] using hc
    exact isEnd_star quoteOf_isQuote
  marker_opens := fun _ _ => .inr ⟨'*', rfl, by decide, rfl⟩

/-! ## The loop -/

theorem stop_text (head : Head key) : secrets.stop key head.text c = isEnd key head.quote c := by
  rw [← head.quoteOf_text]
  rfl

/-- An assignment is taken for one. -/
theorem occurrenceAt_of_assigned (hx : secrets.Assigned key (previous.all isKeyBoundary) x h v a) :
    occurrenceAt key previous x = .assigned ⟨h, v, a⟩ := by
  obtain ⟨hstart, ⟨head, hspaced, rfl⟩, hopens, rfl, hv, ha⟩ := hx
  simp only [stop_text] at hv ha
  obtain ⟨hvalue, hafter⟩ := @takeWhile_split _ (!isEnd key head.quote ·) v a (by simpa using hv) (by simpa using ha)
  have htext : head.text ++ (v ++ a) =
      head.name ++ (head.before ++ (head.separator :: (head.behind ++ (head.quote.toList ++ (v ++ a))))) := by
    simp [Head.text]
  obtain ⟨hbefore, hseparator⟩ := @takeWhile_split _ (fun c => decide (c = ' ')) head.before
    (head.separator :: (head.behind ++ (head.quote.toList ++ (v ++ a)))) (by simpa using hspaced.1)
    (by simp [head.separator_ne_space])
  obtain ⟨hbehind, hrest⟩ := @takeWhile_split _ (fun c => decide (c = ' ')) head.behind (head.quote.toList ++ (v ++ a))
    (by simpa using hspaced.2) (by simpa using head.first_ne_space hopens)
  have hnext : (head.before ++ (head.separator :: (head.behind ++ (head.quote.toList ++ (v ++ a))))).head?.all
      isKeyBoundary = true := by
    cases hfirst : (head.before ++ (head.separator :: (head.behind ++ (head.quote.toList ++ (v ++ a))))).head? with
    | none => rfl
    | some c => simp [isKeyBoundary, head.isWord_next c hfirst]
  have hsep : ¬ (head.separator ≠ '=' ∧ head.separator ≠ ':') := by
    rcases head.separator_eq with h | h <;> simp [h]
  have hvalueAt : valueAt key (head.name ++ (head.before ++ head.separator :: head.behind))
      (head.quote.toList ++ (v ++ a)) = .assigned ⟨head.text, v, a⟩ := by
    cases hquote : head.quote with
    | some q =>
      rw [hquote] at hvalue hafter
      rw [Option.toList_some, List.singleton_append, valueAt, if_pos (head.quote_eq q hquote), hvalue, hafter]
      simp [Head.text, hquote]
    | none =>
      have hnot := head.quote_of_none hquote hopens
      obtain ⟨c, hc, _⟩ := (head.opens_iff.mp hopens).resolve_left (by simp [hquote])
      obtain ⟨rest, hcons⟩ := List.head?_eq_some_iff.mp hc
      rw [hquote] at hvalue hafter
      rw [Option.toList_none, List.nil_append, hcons, valueAt, hnot c hc, if_neg (by simp), ← hcons, hvalue, hafter]
      simp [Head.text, hquote]
  rw [occurrenceAt, htext, List.take_left' (length_of_key head.name_eq), List.drop_left' (length_of_key head.name_eq), hstart, hnext,
    Bool.true_and, if_pos rfl, separatorAt, hseparator]
  simp only [if_neg hsep, hbefore, hbehind, hrest, hvalueAt]

/-- Behind a head the value goes on to its end. -/
theorem Head.assigned (head : Head key) (hspaced : head.Spaced) (hopens : Opens head.text x.head?) :
    secrets.Assigned key true (head.text ++ x) head.text (x.takeWhile (!isEnd key head.quote ·))
      (x.dropWhile (!isEnd key head.quote ·)) := by
  have hsplit := @List.takeWhile_append_dropWhile _ (!isEnd key head.quote ·) x
  refine ⟨rfl, ⟨head, hspaced, rfl⟩, hsplit.symm ▸ hopens, by rw [hsplit], ?_, ?_⟩
  · intro c hc
    rw [stop_text]
    simpa using List.mem_takeWhile_imp hc
  · intro c hc
    rw [stop_text]
    have := List.head?_dropWhile_not (!isEnd key head.quote ·) x
    simpa [Option.mem_def.mp hc] using this

/-- A value that is found behind a head belongs to it, or to the head with the quote. -/
theorem valueAt_assigned {parts : Parts} (head : Head key) (hspaced : head.Spaced) (hquote : head.quote = none)
    (hspace : ∀ c ∈ x.head?, c ≠ ' ') (h : valueAt key head.text x = .assigned parts) :
    secrets.Assigned key true (head.text ++ x) parts.head parts.value parts.after := by
  cases x with
  | nil => cases h
  | cons ch rest =>
    rw [valueAt] at h
    split at h
    · rename_i hch
      cases h
      have hassigned := @Head.assigned _ rest (head.quoted ch hch) hspaced
        ((head.quoted ch hch).opens_iff.mpr (.inl (Option.some_ne_none ch)))
      rw [head.text_quoted hch hquote] at hassigned
      simpa using hassigned
    · rename_i hch
      cases h
      have hassigned := @Head.assigned _ (ch :: rest) head hspaced
        (head.opens_iff.mpr (.inr ⟨ch, List.head?_cons, hspace ch List.head?_cons, by simpa using hch⟩))
      rwa [hquote] at hassigned

/-- What the code takes for an assignment is one. -/
theorem occurrenceAt_assigned {parts : Parts} (hkey : toLowerAscii (x.take key.text.length) = key.text)
    (h : occurrenceAt key previous x = .assigned parts) :
    secrets.Assigned key (previous.all isKeyBoundary) x parts.head parts.value parts.after := by
  simp only [occurrenceAt, separatorAt] at h
  split at h
  · rename_i hboundaries
    rw [Bool.and_eq_true] at hboundaries
    rw [hboundaries.1]
    split at h
    · cases h
    · rename_i sep rest hsep
      split at h
      · cases h
      · rename_i hseparator
        have hblank : ∀ l : List Char, ∀ c ∈ l.takeWhile (fun c => decide (c = ' ')), c = ' ' := fun l c hc => by
          simpa using List.mem_takeWhile_imp hc
        have hspace : ∀ c ∈ (rest.dropWhile (fun c => decide (c = ' '))).head?, c ≠ ' ' := fun c hc => by
          have := List.head?_dropWhile_not (fun c => decide (c = ' ')) rest
          simpa [Option.mem_def.mp hc] using this
        have htext : x.take key.text.length ++ ((x.drop key.text.length).takeWhile (fun c => decide (c = ' ')) ++
            sep :: rest.takeWhile (fun c => decide (c = ' '))) ++ rest.dropWhile (fun c => decide (c = ' ')) = x := by
          simp only [List.append_assoc, List.cons_append, List.takeWhile_append_dropWhile, ← hsep,
            List.take_append_drop]
        have hassigned := @valueAt_assigned key _ _
          ⟨x.take key.text.length, _, sep, _, none, hkey, fun c hc => .inl (hblank _ c hc),
            by rwa [ne_eq, ne_eq, ← not_or, not_not] at hseparator, fun c hc => .inl (hblank _ c hc), by simp⟩
          ⟨hblank _, hblank _⟩ rfl hspace (by simpa [Head.text] using h)
        simpa [Head.text, htext] using hassigned
  · cases h

/-- Whether a word may begin is told by the last character. -/
theorem freeAfter_last (before : List Char) (previous : Option Char) :
    secrets.freeAfter (previous.all isKeyBoundary) before = (before.getLast?.or previous).all isKeyBoundary := by
  induction before generalizing previous with
  | nil => simp
  | cons c before ih =>
    have := ih (some c)
    rw [Option.or_some] at this
    rw [Lib.Hiding.freeAfter_cons, List.getLast?_cons]
    exact this

/-- Where the key does not stand, it is not assigned. -/
theorem unassigned_of_unread (hnot : ¬ key.text <+: toLowerAscii x) {free : Bool} :
    secrets.Unassigned {key} free x := by
  rintro _ rfl h v a ⟨_, ⟨head, _, rfl⟩, _, rfl, _⟩
  apply hnot
  simp [Head.text, toLowerAscii, ← head.name_eq]

/-- What stands behind a key without a value begins no word. -/
theorem noValue_not_word (h : occurrenceAt key previous x = .noValue) :
    ∀ c ∈ x.drop key.text.length, isWord c = false := by
  simp only [occurrenceAt, separatorAt] at h
  split at h
  · split at h
    · cases h
    · rename_i sep rest hsep
      split at h
      · cases h
      · rename_i hseparator
        have hrest : rest.dropWhile (fun c => decide (c = ' ')) = [] := by
          cases hvalue : rest.dropWhile (fun c => decide (c = ' ')) with
          | nil => rfl
          | cons ch value =>
            rw [hvalue, valueAt] at h
            split at h <;> cases h
        have hafter := @List.takeWhile_append_dropWhile _ (fun c => decide (c = ' ')) (x.drop key.text.length)
        rw [← hafter, hsep]
        intro c hc
        simp only [List.mem_append, List.mem_cons] at hc
        rcases hc with hc | rfl | hc
        · obtain rfl : c = ' ' := by simpa using List.mem_takeWhile_imp hc
          rfl
        · have hsep : c = '=' ∨ c = ':' := by rwa [ne_eq, ne_eq, ← not_or, not_not] at hseparator
          rcases hsep with rfl | rfl <;> rfl
        · obtain rfl : c = ' ' := by simpa using List.dropWhile_eq_nil_iff.mp hrest c hc
          rfl
  · cases h

/-- A pass goes over a key that is not assigned. -/
theorem hides_key (hkey : toLowerAscii (x.take key.text.length) = key.text)
    (hx : secrets.Unassigned {key} (previous.all isKeyBoundary) x)
    (hy : secrets.Hides {key} ((x.take key.text.length).getLast?.all isKeyBoundary) (x.drop key.text.length) y) :
    secrets.Hides {key} (previous.all isKeyBoundary) x (x.take key.text.length ++ y) := by
  obtain ⟨c, w, hname, hc, hw⟩ := exists_word_of_key hkey
  have htext : x = c :: (w ++ x.drop key.text.length) := by
    rw [← List.cons_append, ← hname, List.take_append_drop]
  rw [hname] at hy ⊢
  rw [htext] at hx
  have hnext : secrets.Hides {key} (!isWord c) (w ++ x.drop key.text.length) (w ++ y) := by
    refine .quiet_append (by rwa [hc]) ?_
    have hflag := freeAfter_last w (some c)
    rw [Option.or_some] at hflag
    rw [List.getLast?_cons] at hy
    exact hflag ▸ hy
  have := Hides.char hx hnext
  rwa [← htext] at this

theorem find_first {before rest : List Char} (h : find key x = some (before, rest)) :
    ∀ w z, before = w ++ z → z ≠ [] → ¬ key.text <+: toLowerAscii (z ++ rest) := by
  simp only [find, Option.map_eq_some_iff, Prod.mk.injEq] at h
  obtain ⟨⟨lower, lowerRest⟩, hcut, rfl, rfl⟩ := h
  intro w z hz hne
  have htext := (cut_eq hcut).1
  have hlower : lower = toLowerAscii (w ++ z) := by
    rw [← hz, toLowerAscii, List.map_take, ← toLowerAscii, htext, List.take_left]
  have hrest : lowerRest = toLowerAscii (x.drop lower.length) := by
    rw [toLowerAscii, List.map_drop, ← toLowerAscii, htext, List.drop_left]
  have hfirst := cut_first hcut (toLowerAscii w) (toLowerAscii z) (by simp [hlower, toLowerAscii])
    (by simpa [toLowerAscii] using hne)
  rw [hrest] at hfirst
  simpa [toLowerAscii] using hfirst

theorem find_none (h : find key x = none) : secrets.Clean {key} (previous.all isKeyBoundary) x := by
  intro w y hy k hk h' v a hx
  rw [find, Option.map_eq_none_iff] at h
  rw [List.append_nil] at hx
  have hnot : ¬ key.text <+: toLowerAscii y := by
    intro hstarts
    apply cut_none h
    rw [hy, toLowerAscii, List.map_append]
    exact hstarts.isInfix.trans (List.suffix_append _ _).isInfix
  exact absurd hx (unassigned_of_unread hnot k hk h' v a)

theorem redactKey_none (h : find key x = none) : redactKey key previous x = x := by
  rw [redactKey]
  split
  · rfl
  · rename_i hfind
    rw [h] at hfind
    cases hfind

theorem redactKey_assigned {before rest : List Char} {parts : Parts} (hfind : find key x = some (before, rest))
    (h : occurrenceAt key (before.getLast?.or previous) rest = .assigned parts) :
    redactKey key previous x = before ++ (parts.head ++ (marker ++ redactKey key marker.getLast? parts.after)) := by
  rw [redactKey]
  split
  · rename_i hnone
    rw [hfind] at hnone
    cases hnone
  · rename_i hsome
    rw [hfind] at hsome
    cases hsome
    split
    · rename_i hoccurrence
      rw [h] at hoccurrence
      cases hoccurrence
    · rename_i hoccurrence
      rw [h] at hoccurrence
      cases hoccurrence
    · rename_i hoccurrence
      rw [h] at hoccurrence
      cases hoccurrence
      rfl

/-- The loop for a key is a pass. -/
theorem redactKey_hides (key : SecretKey) (previous : Option Char) (x : List Char) :
    secrets.Hides {key} (previous.all isKeyBoundary) x (redactKey key previous x) := by
  induction hn : x.length using Nat.strong_induction_on generalizing previous x with
  | _ n ih =>
    rw [redactKey]
    split
    · rename_i hfind
      exact (find_none hfind).hides
    · rename_i before rest hfind
      obtain ⟨rfl, hkey⟩ := find_eq hfind
      have hlength := find_length hfind
      have hbefore : ∀ w z, before = w ++ z → z ≠ [] →
          secrets.Unassigned {key} (secrets.freeAfter (previous.all isKeyBoundary) w) (z ++ rest) :=
        fun w z hz hne => unassigned_of_unread (find_first hfind w z hz hne)
      have hunassigned : (∀ parts, occurrenceAt key (before.getLast?.or previous) rest ≠ .assigned parts) →
          secrets.Unassigned {key} ((before.getLast?.or previous).all isKeyBoundary) rest := by
        rintro hnot _ rfl h v a hx
        exact hnot _ (occurrenceAt_of_assigned hx)
      split
      · rename_i hoccurrence
        refine .pass_over hbefore ?_
        rw [freeAfter_last]
        apply hides_key hkey (hunassigned (by simp [hoccurrence]))
        exact ih _ (by have := key.text_length_pos; simp [← hn]; omega) _ _ rfl
      · rename_i hoccurrence
        refine .pass_over hbefore ?_
        rw [freeAfter_last]
        have hafter : ∀ free, secrets.Hides {key} free (rest.drop key.text.length) (rest.drop key.text.length) := by
          intro free
          have hquiet : Quiet secrets.isWord free (rest.drop key.text.length) :=
            quiet_of_not_word (noValue_not_word hoccurrence)
          simpa using Hides.quiet_append hquiet .nil
        have := hides_key hkey (hunassigned (by simp [hoccurrence])) (hafter _)
        rwa [List.take_append_drop] at this
      · rename_i parts hoccurrence
        refine .pass_over hbefore ?_
        rw [freeAfter_last]
        have hafter := occurrenceAt_length hoccurrence
        have hrest := ih parts.after.length (by simp [← hn]; omega) marker.getLast? parts.after rfl
        exact .found rfl (occurrenceAt_assigned hkey hoccurrence) hrest

/-- Redaction is a pass for each key. -/
theorem redactSecretsInText_passes (x : List Char) : secrets.Passes SecretKey.all x (redactSecretsInText x) := by
  unfold redactSecretsInText
  induction SecretKey.all generalizing x with
  | nil => exact .nil
  | cons key keys ih => exact .cons (redactKey_hides key none x) (ih _)

theorem foldl_redactKey_none {keys : List SecretKey} (h : ∀ key ∈ keys, find key x = none) :
    keys.foldl (fun text key => redactKey key none text) x = x := by
  induction keys with
  | nil => rfl
  | cons key keys ih =>
    rw [List.forall_mem_cons] at h
    rw [List.foldl_cons, redactKey_none h.1, ih h.2]

/-- Where one key alone stands in the text, its loop does all. -/
theorem redactSecretsInText_single {before after : List SecretKey} (hall : SecretKey.all = before ++ key :: after)
    (hbefore : ∀ key ∈ before, find key x = none) (hkey : redactKey key none x = y)
    (hafter : ∀ key ∈ after, find key y = none) : redactSecretsInText x = y := by
  rw [redactSecretsInText, hall, List.foldl_append, foldl_redactKey_none hbefore, List.foldl_cons, hkey,
    foldl_redactKey_none hafter]

end OptionX.Utils.LogRedaction
