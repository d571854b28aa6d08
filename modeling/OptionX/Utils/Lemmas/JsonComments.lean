import OptionX.Lib.JsonText
import OptionX.Utils.JsonComments

/-!
# Texts with comments

The loop is read as a function that gives the output character by character. Over the pieces of a JSON text it leaves
all characters, and of a comment it leaves white space.
-/

namespace OptionX.Utils.JsonComments

open Lib.JsonText (Piece Lexed Spaced render render_cons render_spaces)

variable {preserve start : Bool} {before rest : List Char} {ch next : Char}

/-! ## Output by characters -/

inductive Mode where
  | code | string | line | block
  deriving DecidableEq

/-- What a removed character leaves in the output. -/
def gap (preserve : Bool) (text : List Char) : List Char := if preserve then text.map blank else []

def startsLine (start : Bool) (ch : Char) : Bool := if isNewline ch then true else if !isSpace ch then false else start

/-- One turn of the loop: what it adds, where it stands then, and whether it passes over the next character. -/
structure Turn where
  added : List Char
  mode : Mode
  start : Bool
  both : Bool := false

def turn (preserve : Bool) (mode : Mode) (start : Bool) (before : List Char) (ch next : Char) : Turn :=
  match mode with
  | .code =>
    if ch = '"' then ⟨[ch], if isEscapedJsonQuote before then .code else .string, startsLine start ch, false⟩
    else if ch = '/' ∧ next = '/' then ⟨gap preserve ['/', '/'], .line, start, true⟩
    else if ch = '/' ∧ next = '*' then ⟨gap preserve ['/', '*'], .block, start, true⟩
    else if ch = '#' ∧ (start ∨ before.head?.all isSpace) then ⟨gap preserve ['#'], .line, start, false⟩
    else ⟨[ch], .code, startsLine start ch, false⟩
  | .string =>
    if ch = '"' then ⟨[ch], if isEscapedJsonQuote before then .string else .code, startsLine start ch, false⟩
    else ⟨[ch], .string, startsLine start ch, false⟩
  | .line =>
    if ch = '\n' then ⟨['\n'], .code, true, false⟩
    else if ch = '\r' ∧ next = '\n' then ⟨['\r', '\n'], .code, true, true⟩
    else ⟨gap preserve [ch], .line, start, false⟩
  | .block =>
    if ch = '*' ∧ next = '/' then ⟨gap preserve ['*', '/'], .code, start, true⟩
    else ⟨gap preserve [ch], .block, start, false⟩

def clean (preserve : Bool) (mode : Mode) (start : Bool) (before : List Char) : List Char → List Char
  | [] => []
  | [ch] => (turn preserve mode start before ch '\x00').added
  | ch :: next :: rest =>
    let t := turn preserve mode start before ch next
    t.added ++
      if t.both then clean preserve t.mode t.start (next :: ch :: before) rest
      else clean preserve t.mode t.start (ch :: before) (next :: rest)

theorem clean_cons (mode : Mode) (before rest : List Char) (ch : Char) :
    clean preserve mode start before (ch :: rest) =
      (turn preserve mode start before ch (rest.headD '\x00')).added ++
        if (turn preserve mode start before ch (rest.headD '\x00')).both then
          clean preserve (turn preserve mode start before ch (rest.headD '\x00')).mode
            (turn preserve mode start before ch (rest.headD '\x00')).start (rest.headD '\x00' :: ch :: before) rest.tail
        else
          clean preserve (turn preserve mode start before ch (rest.headD '\x00')).mode
            (turn preserve mode start before ch (rest.headD '\x00')).start (ch :: before) rest := by
  cases rest with
  | nil => simp [clean]
  | cons next rest => rfl

namespace StripState

variable {s : StripState}

def mode (s : StripState) : Mode :=
  match s.comment with
  | .none => if s.inString then .string else .code
  | .line => .line
  | .block => .block

/-- The output, with what is still kept back. -/
def pending (preserve : Bool) (s : StripState) : List Char :=
  s.output ++ if s.comment = .none then s.chunk else gap preserve s.removed

theorem finish_eq : s.finish preserve = s.pending preserve := by
  unfold finish pending
  cases hcomment : s.comment <;> cases preserve <;> simp [gap, appendSpacesPreserveNewlines]

/-- A step of the loop is a turn. -/
theorem step_eq (hstring : s.comment ≠ .none → s.inString = false) :
    let t := turn preserve s.mode s.atLineStart before ch next
    (s.step preserve before ch next).2 = t.both ∧
      (s.step preserve before ch next).1.pending preserve = s.pending preserve ++ t.added ∧
      (s.step preserve before ch next).1.mode = t.mode ∧ (s.step preserve before ch next).1.atLineStart = t.start ∧
      ((s.step preserve before ch next).1.comment ≠ .none → (s.step preserve before ch next).1.inString = false) := by
  obtain ⟨output, inString, atLineStart, comment, chunk, removed⟩ := s
  cases comment with
  | none =>
    cases inString with
    | true =>
      change let t := turn preserve .string atLineStart before ch next; _
      by_cases hquote : ch = '"'
      · by_cases hescaped : isEscapedJsonQuote before = true <;>
          simp [step, turn, hquote, hescaped, keep, pending, mode, lineStart, startsLine]
      · simp [step, turn, hquote, keep, pending, mode, lineStart, startsLine]
    | false =>
      change let t := turn preserve .code atLineStart before ch next; _
      simp only [step, turn, true_and, Bool.false_eq_true, if_false]
      by_cases hquote : ch = '"'
      · by_cases hescaped : isEscapedJsonQuote before = true <;>
          simp [hquote, hescaped, keep, pending, mode, lineStart, startsLine]
      · by_cases hline : ch = '/' ∧ next = '/'
        · simp [hline, openComment, pending, mode]
        · by_cases hblock : ch = '/' ∧ next = '*'
          · simp [hblock, openComment, pending, mode]
          · by_cases hhash : ch = '#' ∧ (atLineStart = true ∨ before.head?.all isSpace = true)
            · simp [hhash, openComment, pending, mode]
            · simp [hquote, hline, hblock, hhash, keep, pending, mode, lineStart, startsLine]
  | line =>
    obtain rfl : inString = false := hstring (by simp)
    change let t := turn preserve .line atLineStart before ch next; _
    simp only [step, turn, reduceCtorEq, false_and, Bool.false_eq_true, if_false]
    by_cases hfeed : ch = '\n'
    · cases preserve <;> simp [hfeed, closeComment, pending, mode, gap, appendSpacesPreserveNewlines]
    · by_cases hreturn : ch = '\r' ∧ next = '\n'
      · cases preserve <;> simp [hreturn, closeComment, pending, mode, gap, appendSpacesPreserveNewlines]
      · cases preserve <;> simp [hfeed, hreturn, skip, pending, mode, gap]
  | block =>
    obtain rfl : inString = false := hstring (by simp)
    change let t := turn preserve .block atLineStart before ch next; _
    simp only [step, turn, reduceCtorEq, false_and, Bool.false_eq_true, if_false]
    by_cases hend : ch = '*' ∧ next = '/'
    · cases preserve <;> simp [hend, closeComment, pending, mode, gap, appendSpacesPreserveNewlines]
    · cases preserve <;> simp [hend, skip, pending, mode, gap]

/-- The loop gives what it has kept back, and then a turn for each character that it stops at. -/
theorem run_eq (hstring : s.comment ≠ .none → s.inString = false) (text : List Char) :
    (run preserve s before text).finish preserve =
      s.pending preserve ++ clean preserve s.mode s.atLineStart before text := by
  fun_induction run preserve s before text with
  | case1 s before => simp [finish_eq, clean]
  | case2 s before ch =>
    obtain ⟨-, hpending, -⟩ := @step_eq preserve before ch '\x00' s hstring
    rw [finish_eq, hpending]
    rfl
  | case3 s before ch next rest s' hstep ih =>
    obtain ⟨hboth, hpending, hmode, hstart, hnext⟩ := @step_eq preserve before ch next s hstring
    simp only [hstep] at hboth hpending hmode hstart hnext
    rw [ih hnext, hpending, hmode, hstart, clean]
    simp [← hboth]
  | case4 s before ch next rest s' hstep ih =>
    obtain ⟨hboth, hpending, hmode, hstart, hnext⟩ := @step_eq preserve before ch next s hstring
    simp only [hstep] at hboth hpending hmode hstart hnext
    rw [ih hnext, hpending, hmode, hstart, clean]
    simp [← hboth]

end StripState

theorem stripJsonComments_eq (text : List Char) (preserve : Bool) :
    stripJsonComments text preserve = clean preserve .code true [] text := by
  rw [stripJsonComments, StripState.run_eq (by simp)]
  rfl

/-! ## Positions of line breaks -/

/-- Both are the same line break, or neither is one. -/
def SameBreak (c d : Char) : Prop := (d = '\n' ↔ c = '\n') ∧ (d = '\r' ↔ c = '\r')

theorem sameBreak_blank (c : Char) : SameBreak c (blank c) := by
  unfold SameBreak blank isNewline
  split
  · simp
  · rename_i h
    simp only [Bool.or_eq_true, decide_eq_true_eq, not_or] at h
    simp [h.1, h.2]

theorem sameBreak_refl (c : Char) : SameBreak c c := ⟨Iff.rfl, Iff.rfl⟩

theorem turn_sameBreak (mode : Mode) :
    List.Forall₂ SameBreak (if (turn true mode start before ch next).both then [ch, next] else [ch])
      (turn true mode start before ch next).added := by
  cases mode with
  | code =>
    by_cases hquote : ch = '"'
    · simp [turn, hquote, sameBreak_refl]
    · by_cases hline : ch = '/' ∧ next = '/'
      · simp [turn, hline, gap, sameBreak_blank]
      · by_cases hblock : ch = '/' ∧ next = '*'
        · simp [turn, hblock, gap, sameBreak_blank]
        · by_cases hhash : ch = '#' ∧ (start = true ∨ before.head?.all isSpace = true)
          · simp [turn, hhash, gap, sameBreak_blank]
          · simp [turn, hquote, hline, hblock, hhash, sameBreak_refl]
  | string => by_cases hquote : ch = '"' <;> simp [turn, hquote, sameBreak_refl]
  | line =>
    by_cases hfeed : ch = '\n'
    · simp [turn, hfeed, sameBreak_refl]
    · by_cases hreturn : ch = '\r' ∧ next = '\n'
      · simp [turn, hreturn, sameBreak_refl]
      · simp [turn, hfeed, hreturn, gap, sameBreak_blank]
  | block => by_cases hend : ch = '*' ∧ next = '/' <;> simp [turn, hend, gap, sameBreak_blank]

/-- At the end of the text there is no next character to pass over. -/
theorem turn_last (mode : Mode) : (turn preserve mode start before ch '\x00').both = false := by
  cases mode <;> unfold turn <;> dsimp only <;> split_ifs <;> simp_all

theorem clean_sameBreak (mode : Mode) (text : List Char) :
    List.Forall₂ SameBreak text (clean true mode start before text) := by
  fun_induction clean true mode start before text with
  | case1 => exact .nil
  | case2 mode start before ch =>
    have hturn := @turn_sameBreak start before ch '\x00' mode
    rwa [turn_last, if_neg Bool.false_ne_true] at hturn
  | case3 mode start before ch next rest t ih ih' =>
    have hturn := @turn_sameBreak start before ch next mode
    cases hboth : t.both with
    | true =>
      rw [if_pos rfl]
      rw [if_pos hboth] at hturn
      exact List.rel_append hturn ih
    | false =>
      rw [if_neg (by simp)]
      rw [if_neg (by simpa using hboth)] at hturn
      exact List.rel_append hturn ih'

/-! ## Escapes -/

theorem isEscapedJsonQuote_cons (c : Char) (before : List Char) :
    isEscapedJsonQuote (c :: before) = (decide (c = '\\') && !isEscapedJsonQuote before) := by
  unfold isEscapedJsonQuote
  by_cases hc : c = '\\'
  · simp only [hc, List.takeWhile_cons, decide_true, if_true, List.length_cons, Bool.true_and]
    rw [← decide_not, decide_eq_decide]
    omega
  · simp [hc]

/-! ## Pieces -/

/-- A character that is nothing to the loop outside of strings. -/
def isPlain (c : Char) : Bool := c ≠ '"' && c ≠ '/' && c ≠ '#' && c ≠ '\\'

theorem clean_plain (hch : isPlain ch = true) (rest : List Char) :
    clean preserve .code start before (ch :: rest) =
      ch :: clean preserve .code (startsLine start ch) (ch :: before) rest := by
  simp only [isPlain, Bool.and_eq_true, decide_eq_true_eq] at hch
  obtain ⟨⟨⟨hquote, hslash⟩, hhash⟩, -⟩ := hch
  rw [clean_cons]
  simp [turn, hquote, hslash, hhash]

theorem clean_plains {text : List Char} (htext : ∀ c ∈ text, isPlain c = true) (start : Bool) (before rest : List Char) :
    ∃ start', clean preserve .code start before (text ++ rest) =
      text ++ clean preserve .code start' (text.reverse ++ before) rest := by
  induction text generalizing start before with
  | nil => exact ⟨start, rfl⟩
  | cons c text ih =>
    obtain ⟨start', hrest⟩ := ih (fun d hd => htext d (by simp [hd])) (startsLine start c) (c :: before)
    refine ⟨start', ?_⟩
    rw [List.cons_append, clean_plain (htext c (by simp)), hrest]
    simp

theorem clean_string {body : List Char} {escaped : Bool} (hbody : Lib.JsonText.closes escaped body = true)
    (start : Bool) (before rest : List Char) (hbefore : isEscapedJsonQuote before = escaped) :
    ∃ start', clean preserve .string start before (body ++ '"' :: rest) =
      body ++ '"' :: clean preserve .code start' ('"' :: (body.reverse ++ before)) rest := by
  induction body generalizing start before escaped with
  | nil =>
    cases escaped with
    | true => simp [Lib.JsonText.closes] at hbody
    | false =>
      refine ⟨startsLine start '"', ?_⟩
      rw [List.nil_append, clean_cons]
      simp [turn, hbefore]
  | cons c body ih =>
    have hnext : Lib.JsonText.closes (isEscapedJsonQuote (c :: before)) body = true := by
      rw [isEscapedJsonQuote_cons, hbefore]
      cases escaped with
      | true => simpa [Lib.JsonText.closes] using hbody
      | false => simpa [Lib.JsonText.closes] using (Bool.and_eq_true _ _ ▸ hbody).2
    have hstays : (turn preserve .string start before c ((body ++ '"' :: rest).headD '\x00')) =
        ⟨[c], .string, startsLine start c, false⟩ := by
      by_cases hc : c = '"'
      · cases escaped with
        | true => simp [turn, hc, hbefore]
        | false => simp [Lib.JsonText.closes, hc] at hbody
      · simp [turn, hc]
    obtain ⟨start', hrest⟩ := ih hnext (startsLine start c) (c :: before) rfl
    refine ⟨start', ?_⟩
    rw [List.cons_append, clean_cons, hstays]
    simp [hrest]

theorem isPlain_of_isSpace {c : Char} (h : Lib.JsonText.isSpace c = true) : isPlain c = true := by
  simp only [Lib.JsonText.isSpace, Bool.or_eq_true, decide_eq_true_eq] at h
  rcases h with ((rfl | rfl) | rfl) | rfl <;> rfl

theorem isPlain_of_isMark {c : Char} (h : Lib.JsonText.isMark c = true) : isPlain c = true := by
  simp only [Lib.JsonText.isMark, Bool.or_eq_true, decide_eq_true_eq] at h
  rcases h with ((((rfl | rfl) | rfl) | rfl) | rfl) | rfl <;> rfl

theorem isPlain_of_isWordChar {c : Char} (h : Lib.JsonText.isWordChar c = true) : isPlain c = true := by
  by_contra hnot
  simp only [isPlain, Bool.and_eq_true, decide_eq_true_eq, not_and_or, not_not] at hnot
  rcases hnot with ((rfl | rfl) | rfl) | rfl <;> exact absurd h (by decide)

theorem isEscapedJsonQuote_plains {text : List Char} (hne : text ≠ []) (htext : ∀ c ∈ text, isPlain c = true)
    (before : List Char) : isEscapedJsonQuote (text.reverse ++ before) = false := by
  obtain ⟨init, c, rfl⟩ := List.eq_nil_or_concat text |>.resolve_left hne
  have hc := htext c (by simp)
  simp only [isPlain, Bool.and_eq_true, decide_eq_true_eq] at hc
  simp [isEscapedJsonQuote_cons, hc.2]

/-- Pieces stay as they are, and a string behind them would not begin with an escaped quote. -/
theorem clean_piece {p : Piece} {ps : List Piece} (h : Lexed (p :: ps)) (start : Bool) (before rest : List Char)
    (hbefore : isEscapedJsonQuote before = false ∨ p.text.head? ≠ some '"') :
    ∃ start', clean preserve .code start before (p.text ++ rest) =
        p.text ++ clean preserve .code start' (p.text.reverse ++ before) rest ∧
      isEscapedJsonQuote (p.text.reverse ++ before) = false := by
  have hplains : ∀ text : List Char, text ≠ [] → (∀ c ∈ text, isPlain c = true) → p.text = text →
      ∃ start', clean preserve .code start before (p.text ++ rest) =
          p.text ++ clean preserve .code start' (p.text.reverse ++ before) rest ∧
        isEscapedJsonQuote (p.text.reverse ++ before) = false := by
    rintro text hne htext rfl
    obtain ⟨start', hclean⟩ := clean_plains htext start before rest
    exact ⟨start', hclean, isEscapedJsonQuote_plains hne htext before⟩
  cases h with
  | @space c ps hc => exact hplains [c] (by simp) (by simpa using isPlain_of_isSpace hc) rfl
  | @mark c ps hc => exact hplains [c] (by simp) (by simpa using isPlain_of_isMark hc) rfl
  | @word text ps hne htext => exact hplains text hne (fun c hc => isPlain_of_isWordChar (htext c hc)) rfl
  | @string body ps hbody =>
    have hopen : isEscapedJsonQuote before = false := hbefore.resolve_right (by simp [Piece.text])
    obtain ⟨start', hstring⟩ := @clean_string preserve body false hbody (startsLine start '"') ('"' :: before) rest
      (by simp [isEscapedJsonQuote_cons])
    refine ⟨start', ?_, by simp [Piece.text, isEscapedJsonQuote_cons]⟩
    rw [Piece.text, List.cons_append, List.append_assoc, List.singleton_append, clean_cons]
    simp [turn, hopen, hstring]

/-- Without comments nothing changes. -/
theorem clean_render {ps : List Piece} (h : Lexed ps) (start : Bool) {before : List Char}
    (hbefore : isEscapedJsonQuote before = false) : clean preserve .code start before (render ps) = render ps := by
  induction ps generalizing start before with
  | nil => rfl
  | cons p ps ih =>
    obtain ⟨start', hpiece, hnext⟩ := @clean_piece preserve p ps h start before (render ps) (.inl hbefore)
    rw [render_cons, hpiece, ih h.tail start' hnext]

/-! ## Comments -/

/-- A comment leaves white space. -/
theorem isSpace_gap (preserve : Bool) (text : List Char) : ∀ c ∈ gap preserve text, Lib.JsonText.isSpace c = true := by
  intro c hc
  unfold gap at hc
  split at hc
  · obtain ⟨d, -, rfl⟩ := List.mem_map.mp hc
    unfold blank isNewline
    split
    · rename_i h
      simp only [Bool.or_eq_true, decide_eq_true_eq] at h
      rcases h with rfl | rfl <;> rfl
    · rfl
  · cases hc

/-- A block comment ends at its first end mark. -/
theorem clean_block {body : List Char} (hbody : ¬ ['*', '/'] <:+: body) (start : Bool) (before rest : List Char) :
    clean preserve .block start before (body ++ '*' :: '/' :: rest) =
      gap preserve (body ++ ['*', '/']) ++
        clean preserve .code start ('/' :: '*' :: (body.reverse ++ before)) rest := by
  induction body generalizing before with
  | nil => simp [clean, turn]
  | cons c body ih =>
    have hrest : ¬ ['*', '/'] <:+: body := fun h => hbody (h.trans (List.suffix_cons c body).isInfix)
    have hstays : ¬ (c = '*' ∧ (body ++ '*' :: '/' :: rest).headD '\x00' = '/') := by
      rintro ⟨rfl, hslash⟩
      cases body with
      | nil => simp at hslash
      | cons d body =>
        obtain rfl : d = '/' := hslash
        exact hbody ⟨[], body, rfl⟩
    rw [List.cons_append, clean_cons]
    simp only [turn, if_neg hstays]
    rw [if_neg (by simp), ih hrest]
    cases preserve <;> simp [gap]

/-- A line comment goes on up to a line feed, and keeps nothing but a carriage return before it. -/
theorem clean_line {body : List Char} (hbody : '\n' ∉ body) (start : Bool) (before rest : List Char) :
    ∃ spaces start', (∀ c ∈ spaces, Lib.JsonText.isSpace c = true) ∧
      clean preserve .line start before (body ++ rest) =
        spaces ++ clean preserve .line start' (body.reverse ++ before) rest := by
  induction body generalizing start before with
  | nil => exact ⟨[], start, by simp, rfl⟩
  | cons c body ih =>
    simp only [List.mem_cons, not_or] at hbody
    have hc : c ≠ '\n' := fun h => hbody.1 h.symm
    by_cases hreturn : c = '\r' ∧ (body ++ rest).headD '\x00' = '\n'
    · obtain ⟨rfl, hfeed⟩ := hreturn
      cases body with
      | cons d body =>
        obtain rfl : d = '\n' := hfeed
        simp at hbody
      | nil =>
        cases rest with
        | nil => simp at hfeed
        | cons d rest =>
          obtain rfl : d = '\n' := hfeed
          have hnext : clean preserve .line start ('\r' :: before) ('\n' :: rest) =
              '\n' :: clean preserve .code true ('\n' :: '\r' :: before) rest := by
            rw [clean_cons]
            simp [turn]
          refine ⟨['\r'], start, by simp [Lib.JsonText.isSpace], ?_⟩
          rw [List.cons_append, clean_cons]
          simp [turn, hnext]
    · obtain ⟨spaces, start', hspaces, hrest⟩ := ih hbody.2 start (c :: before)
      refine ⟨gap preserve [c] ++ spaces, start', ?_, ?_⟩
      · intro d hd
        rcases List.mem_append.mp hd with hd | hd
        · exact isSpace_gap preserve _ d hd
        · exact hspaces d hd
      · rw [List.cons_append, clean_cons]
        simp only [turn, if_neg hc, if_neg hreturn]
        rw [if_neg (by simp), hrest]
        simp

/-- A line comment is ended by a line feed of its own, with or without a carriage return, by one that stands there, or by
the end of the input. -/
inductive Ended : List Char → List Char → Prop
  | lineFeed {rest : List Char} : Ended ['\n'] rest
  | carriageReturn {rest : List Char} : Ended ['\r', '\n'] rest
  | beforeLineFeed {rest : List Char} : Ended [] ('\n' :: rest)
  | beforeCarriageReturn {rest : List Char} : Ended [] ('\r' :: '\n' :: rest)
  | input : Ended [] []

theorem clean_ended {ending : List Char} (h : Ended ending rest) (start : Bool) (before : List Char) :
    ∃ spaces start', (∀ c ∈ spaces, Lib.JsonText.isSpace c = true) ∧
      clean preserve .line start before (ending ++ rest) =
        spaces ++ clean preserve .code start' (ending.reverse ++ before) rest := by
  cases h with
  | lineFeed =>
    refine ⟨['\n'], true, by simp [Lib.JsonText.isSpace], ?_⟩
    rw [List.singleton_append, clean_cons]
    simp [turn]
  | carriageReturn =>
    refine ⟨['\r', '\n'], true, by simp [Lib.JsonText.isSpace], ?_⟩
    rw [List.cons_append, clean_cons]
    simp [turn]
  | beforeLineFeed =>
    refine ⟨[], true, by simp, ?_⟩
    rw [List.nil_append, List.nil_append, clean_cons, clean_plain (by decide)]
    simp [turn, startsLine, isNewline]
  | beforeCarriageReturn =>
    refine ⟨[], true, by simp, ?_⟩
    rw [List.nil_append, List.nil_append, clean_cons, clean_plain (by decide), clean_plain (by decide)]
    simp [turn, startsLine, isNewline]
  | input => exact ⟨[], true, by simp, rfl⟩

/-- The text comes of the pieces by comments between them. A number sign begins a comment at the start of the text or
behind white space. -/
inductive Commented : List Char → List Piece → List Char → Prop
  | nil {before : List Char} : Commented before [] []
  | piece {before : List Char} {ps : List Piece} {rest : List Char} (p : Piece)
      (h : Commented (p.text.reverse ++ before) ps rest) : Commented before (p :: ps) (p.text ++ rest)
  | block {before body : List Char} {ps : List Piece} {rest : List Char} (hbody : ¬ ['*', '/'] <:+: body)
      (h : Commented ('/' :: '*' :: (body.reverse ++ '*' :: '/' :: before)) ps rest) :
      Commented before ps ('/' :: '*' :: (body ++ '*' :: '/' :: rest))
  | line {before mark body ending : List Char} {ps : List Piece} {rest : List Char}
      (hmark : mark = ['/', '/'] ∨ mark = ['#'] ∧ before.head?.all isSpace = true) (hbody : '\n' ∉ body)
      (hended : Ended ending rest)
      (h : Commented (ending.reverse ++ (body.reverse ++ (mark.reverse ++ before))) ps rest) :
      Commented before ps (mark ++ (body ++ (ending ++ rest)))

theorem clean_mark {mark : List Char} (hmark : mark = ['/', '/'] ∨ mark = ['#'] ∧ before.head?.all isSpace = true)
    (start : Bool) (rest : List Char) :
    clean preserve .code start before (mark ++ rest) =
      gap preserve mark ++ clean preserve .line start (mark.reverse ++ before) rest := by
  rcases hmark with rfl | ⟨rfl, hbefore⟩
  · rw [List.cons_append, clean_cons]
    simp [turn]
  · rw [List.singleton_append, clean_cons]
    simp [turn, hbefore]

/-- What is left of a text with comments is the pieces with more white space between them. -/
theorem clean_commented {ps : List Piece} {text : List Char} (h : Commented before ps text) (hps : Lexed ps)
    (hbefore : isEscapedJsonQuote before = false ∨ text.head? ≠ some '"') (start : Bool) :
    ∃ ps', Spaced ps ps' ∧ clean preserve .code start before text = render ps' := by
  induction h generalizing start with
  | nil => exact ⟨[], .nil, rfl⟩
  | @piece before ps rest p _ ih =>
    have hopen : isEscapedJsonQuote before = false ∨ p.text.head? ≠ some '"' := by
      refine hbefore.imp_right fun hne hhead => hne ?_
      rw [List.head?_append, hhead]
      rfl
    obtain ⟨start', hpiece, hnext⟩ := @clean_piece preserve p ps hps start before rest hopen
    obtain ⟨ps', hspaced, hrest⟩ := ih hps.tail (.inl hnext) start'
    exact ⟨p :: ps', .keep p hspaced, by rw [hpiece, hrest, render_cons]⟩
  | @block before body ps rest hbody _ ih =>
    obtain ⟨ps', hspaced, hrest⟩ := ih hps (.inl (by simp [isEscapedJsonQuote_cons])) start
    refine ⟨_, hspaced.spaces (isSpace_gap preserve ('/' :: '*' :: (body ++ ['*', '/']))), ?_⟩
    have hopen : clean preserve .code start before ('/' :: '*' :: (body ++ '*' :: '/' :: rest)) =
        gap preserve ['/', '*'] ++ clean preserve .block start ('*' :: '/' :: before) (body ++ '*' :: '/' :: rest) := by
      rw [clean_cons]
      simp [turn]
    rw [hopen, clean_block hbody, hrest, render_spaces]
    cases preserve <;> simp [gap]
  | @line before mark body ending ps rest hmark hbody hended _ ih =>
    obtain ⟨spaces, start', hspaces, hline⟩ := @clean_line preserve body hbody start (mark.reverse ++ before) (ending ++ rest)
    obtain ⟨spaces', start'', hspaces', hended'⟩ :=
      @clean_ended preserve rest ending hended start' (body.reverse ++ (mark.reverse ++ before))
    have hnext : isEscapedJsonQuote (ending.reverse ++ (body.reverse ++ (mark.reverse ++ before))) = false ∨
        rest.head? ≠ some '"' := by
      cases hended <;> simp [isEscapedJsonQuote_cons]
    obtain ⟨ps', hspaced, hrest⟩ := ih hps hnext start''
    refine ⟨_, ((hspaced.spaces hspaces').spaces hspaces).spaces (isSpace_gap preserve mark), ?_⟩
    rw [clean_mark hmark, hline, hended', hrest, render_spaces, render_spaces, render_spaces]

end OptionX.Utils.JsonComments
