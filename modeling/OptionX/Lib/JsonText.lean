import Mathlib

/-!
# JSON texts

A JSON text is a sequence of pieces: white space, structural marks, words and strings. Its value is a matter of the pieces
that are no white space, and these stay when white space is put between pieces.
-/

namespace Lib.JsonText

inductive Piece where
  | space (c : Char)
  | mark (c : Char)
  | word (text : List Char)
  | string (body : List Char)
  deriving DecidableEq

def Piece.text : Piece → List Char
  | space c | mark c => [c]
  | word text => text
  | string body => '"' :: (body ++ ['"'])

/-- The text of a sequence of pieces. -/
def render (pieces : List Piece) : List Char := pieces.flatMap Piece.text

@[simp]
theorem render_cons (p : Piece) (ps : List Piece) : render (p :: ps) = p.text ++ render ps := rfl

/-- Characters as pieces of white space. -/
@[simp]
theorem render_spaces (s : List Char) (ps : List Piece) : render (s.map .space ++ ps) = s ++ render ps := by
  induction s with
  | nil => rfl
  | cons c s ih => simp [Piece.text, ih]

/-- The pieces that a value is made of. -/
def tokens (pieces : List Piece) : List Piece :=
  pieces.filter fun
    | .space _ => false
    | _ => true

/-! ## Lexing -/

def isSpace (c : Char) : Bool := c = ' ' || c = '\t' || c = '\n' || c = '\r'

def isMark (c : Char) : Bool := c = '{' || c = '}' || c = '[' || c = ']' || c = ':' || c = ','

def isWordChar (c : Char) : Bool := c.isAlphanum || c = '+' || c = '-' || c = '.'

/-- One more character at the front of a word. -/
def consWord (c : Char) : List Piece → List Piece
  | .word text :: ps => .word (c :: text) :: ps
  | ps => .word [c] :: ps

/-- One more character at the front of a string. -/
def consString (c : Char) : List Piece → List Piece
  | .string body :: ps => .string (c :: body) :: ps
  | ps => ps

/-- Pieces from within a string, behind a backslash or not, or from outside of strings. -/
def lexFrom : Option Bool → List Char → Option (List Piece)
  | none, [] => some []
  | some _, [] => none
  | some true, c :: rest => (lexFrom (some false) rest).map (consString c)
  | some false, c :: rest =>
    if c = '"' then (lexFrom none rest).map (.string [] :: ·)
    else (lexFrom (some (c = '\\')) rest).map (consString c)
  | none, c :: rest =>
    if isSpace c then (lexFrom none rest).map (.space c :: ·)
    else if isMark c then (lexFrom none rest).map (.mark c :: ·)
    else if c = '"' then lexFrom (some false) rest
    else if isWordChar c then (lexFrom none rest).map (consWord c)
    else none

def lex (text : List Char) : Option (List Piece) := lexFrom none text

/-- The body of a string goes on without a quote that would close it. -/
def closes : Bool → List Char → Bool
  | escaped, [] => !escaped
  | true, _ :: rest => closes false rest
  | false, c :: rest => c ≠ '"' && closes (c = '\\') rest

/-- Pieces as the lexer gives them: words are as long as they can be. -/
inductive Lexed : List Piece → Prop
  | nil : Lexed []
  | space {c : Char} {ps : List Piece} (hc : isSpace c = true) (h : Lexed ps) : Lexed (.space c :: ps)
  | mark {c : Char} {ps : List Piece} (hc : isMark c = true) (h : Lexed ps) : Lexed (.mark c :: ps)
  | word {text : List Char} {ps : List Piece} (hne : text ≠ []) (htext : ∀ c ∈ text, isWordChar c = true)
      (hnext : ∀ next ∈ ps.head?, ∀ text', next ≠ .word text') (h : Lexed ps) : Lexed (.word text :: ps)
  | string {body : List Char} {ps : List Piece} (hbody : closes false body = true) (h : Lexed ps) :
      Lexed (.string body :: ps)

theorem Lexed.tail {p : Piece} {ps : List Piece} (h : Lexed (p :: ps)) : Lexed ps := by
  cases h <;> assumption

theorem lexFrom_spec {mode : Option Bool} {text : List Char} {pieces : List Piece}
    (h : lexFrom mode text = some pieces) :
    match mode with
    | none => Lexed pieces ∧ text = render pieces
    | some escaped => ∃ body ps, pieces = .string body :: ps ∧ closes escaped body = true ∧ Lexed ps ∧
        text = body ++ '"' :: render ps := by
  induction text generalizing mode pieces with
  | nil =>
    cases mode with
    | none =>
      cases h
      exact ⟨.nil, rfl⟩
    | some escaped => simp [lexFrom] at h
  | cons c rest ih =>
    match mode with
    | some true =>
      simp only [lexFrom, Option.map_eq_some_iff] at h
      obtain ⟨ps, hps, rfl⟩ := h
      obtain ⟨body, ps, rfl, hbody, hlexed, rfl⟩ := ih hps
      exact ⟨c :: body, ps, rfl, hbody, hlexed, rfl⟩
    | some false =>
      rw [lexFrom] at h
      split at h
      · rename_i hquote
        simp only [Option.map_eq_some_iff] at h
        obtain ⟨ps, hps, rfl⟩ := h
        obtain ⟨hlexed, rfl⟩ := ih hps
        exact ⟨[], ps, rfl, rfl, hlexed, by rw [hquote]; rfl⟩
      · rename_i hquote
        simp only [Option.map_eq_some_iff] at h
        obtain ⟨ps, hps, rfl⟩ := h
        obtain ⟨body, ps, rfl, hbody, hlexed, rfl⟩ := ih hps
        exact ⟨c :: body, ps, rfl, by simp [closes, hquote, hbody], hlexed, rfl⟩
    | none =>
      rw [lexFrom] at h
      split_ifs at h with hspace hmark hquote hword
      · simp only [Option.map_eq_some_iff] at h
        obtain ⟨ps, hps, rfl⟩ := h
        obtain ⟨hlexed, rfl⟩ := ih hps
        exact ⟨.space hspace hlexed, rfl⟩
      · simp only [Option.map_eq_some_iff] at h
        obtain ⟨ps, hps, rfl⟩ := h
        obtain ⟨hlexed, rfl⟩ := ih hps
        exact ⟨.mark hmark hlexed, rfl⟩
      · obtain ⟨body, ps, rfl, hbody, hlexed, rfl⟩ := ih h
        exact ⟨.string hbody hlexed, by simp [Piece.text, hquote]⟩
      · simp only [Option.map_eq_some_iff] at h
        obtain ⟨ps, hps, rfl⟩ := h
        obtain ⟨hlexed, rfl⟩ := ih hps
        have hstart : ∀ ps : List Piece, Lexed ps → (∀ next ∈ ps.head?, ∀ text', next ≠ .word text') →
            Lexed (.word [c] :: ps) := fun ps hps hnext => .word (by simp) (by simpa using hword) hnext hps
        match ps, hlexed with
        | [], hlexed => exact ⟨hstart _ hlexed (by simp), rfl⟩
        | .word text :: ps, .word hne htext hnext hrest =>
          exact ⟨.word (by simp) (by simpa [hword] using htext) hnext hrest, rfl⟩
        | .space d :: ps, hlexed => exact ⟨hstart _ hlexed (by simp), rfl⟩
        | .mark d :: ps, hlexed => exact ⟨hstart _ hlexed (by simp), rfl⟩
        | .string body :: ps, hlexed => exact ⟨hstart _ hlexed (by simp), rfl⟩

theorem lex_spec {text : List Char} {pieces : List Piece} (h : lex text = some pieces) :
    Lexed pieces ∧ text = render pieces := lexFrom_spec h

theorem lexFrom_closes {escaped : Bool} {body rest : List Char} {ps : List Piece} (h : closes escaped body = true)
    (hrest : lexFrom none rest = some ps) : lexFrom (some escaped) (body ++ '"' :: rest) = some (.string body :: ps) := by
  induction body generalizing escaped with
  | nil =>
    cases escaped with
    | true => simp [closes] at h
    | false => simp [lexFrom, hrest]
  | cons c body ih =>
    cases escaped with
    | true =>
      rw [List.cons_append, lexFrom, ih h]
      rfl
    | false =>
      simp only [closes, Bool.and_eq_true, decide_eq_true_eq] at h
      rw [List.cons_append, lexFrom, if_neg h.1, ih h.2]
      rfl

theorem isSpace_of_isWordChar {c : Char} (h : isWordChar c = true) : isSpace c = false ∧ isMark c = false ∧ c ≠ '"' := by
  refine ⟨?_, ?_, ?_⟩
  · by_contra hnot
    simp only [isSpace, Bool.not_eq_false, Bool.or_eq_true, decide_eq_true_eq] at hnot
    rcases hnot with ((rfl | rfl) | rfl) | rfl <;> exact absurd h (by decide)
  · by_contra hnot
    simp only [isMark, Bool.not_eq_false, Bool.or_eq_true, decide_eq_true_eq] at hnot
    rcases hnot with ((((rfl | rfl) | rfl) | rfl) | rfl) | rfl <;> exact absurd h (by decide)
  · rintro rfl
    exact absurd h (by decide)

theorem lexFrom_word {text rest : List Char} {ps : List Piece} (hne : text ≠ [])
    (htext : ∀ c ∈ text, isWordChar c = true) (hnext : ∀ next ∈ ps.head?, ∀ text', next ≠ .word text')
    (hrest : lexFrom none rest = some ps) : lexFrom none (text ++ rest) = some (.word text :: ps) := by
  induction text with
  | nil => exact absurd rfl hne
  | cons c text ih =>
    have hc := htext c (by simp)
    obtain ⟨hspace, hmark, hquote⟩ := isSpace_of_isWordChar hc
    simp only [List.cons_append, lexFrom, hspace, hmark, hquote, hc, Bool.false_eq_true, if_false, if_true]
    cases text with
    | nil =>
      rw [List.nil_append, hrest]
      cases ps with
      | nil => rfl
      | cons p ps =>
        cases p with
        | word text' => exact absurd rfl (hnext _ rfl text')
        | _ => rfl
    | cons d text =>
      rw [ih (by simp) fun e he => htext e (List.mem_cons_of_mem c he)]
      rfl

/-- The lexer finds the pieces that a text was made of. -/
theorem lex_render {pieces : List Piece} (h : Lexed pieces) : lex (render pieces) = some pieces := by
  unfold lex
  induction h with
  | nil => rfl
  | space hc _ ih => simp [Piece.text, lexFrom, hc, ih]
  | @mark c ps hc _ ih =>
    have hspace : isSpace c = false := by
      by_contra hnot
      simp only [isSpace, Bool.not_eq_false, Bool.or_eq_true, decide_eq_true_eq] at hnot
      rcases hnot with ((rfl | rfl) | rfl) | rfl <;> exact absurd hc (by decide)
    simp [Piece.text, lexFrom, hc, hspace, ih]
  | word hne htext hnext _ ih => exact lexFrom_word hne htext hnext ih
  | string hbody _ ih =>
    rw [render_cons, Piece.text, List.cons_append, List.append_assoc, List.singleton_append, lexFrom,
      if_neg (by decide), if_neg (by decide), if_pos rfl]
    exact lexFrom_closes hbody ih

/-! ## White space between pieces -/

/-- The second sequence has more white space than the first. -/
inductive Spaced : List Piece → List Piece → Prop
  | nil : Spaced [] []
  | keep {ps ps' : List Piece} (p : Piece) (h : Spaced ps ps') : Spaced (p :: ps) (p :: ps')
  | space {c : Char} {ps ps' : List Piece} (hc : isSpace c = true) (h : Spaced ps ps') : Spaced ps (.space c :: ps')

namespace Spaced

variable {ps ps' : List Piece}

theorem refl : (ps : List Piece) → Spaced ps ps
  | [] => .nil
  | p :: ps => .keep p (refl ps)

theorem spaces {s : List Char} (hs : ∀ c ∈ s, isSpace c = true) (h : Spaced ps ps') :
    Spaced ps (s.map .space ++ ps') := by
  induction s with
  | nil => exact h
  | cons c s ih => exact .space (hs c (by simp)) (ih fun d hd => hs d (by simp [hd]))

theorem tokens_eq (h : Spaced ps ps') : tokens ps' = tokens ps := by
  induction h with
  | nil => rfl
  | keep p _ ih => simp only [tokens, List.filter_cons] at ih ⊢; rw [ih]
  | space _ _ ih => exact ih

theorem lexed (h : Spaced ps ps') (hps : Lexed ps) : Lexed ps' := by
  induction h with
  | nil => exact .nil
  | space hc _ ih => exact .space hc (ih hps)
  | keep p hspaced ih =>
    cases hps with
    | space hc hps => exact .space hc (ih hps)
    | mark hc hps => exact .mark hc (ih hps)
    | string hbody hps => exact .string hbody (ih hps)
    | word hne htext hnext hps =>
      refine .word hne htext ?_ (ih hps)
      rintro next hnext' text' rfl
      cases hspaced with
      | nil => cases hnext'
      | keep p => exact hnext p rfl text' (Option.some.inj hnext')
      | space => cases hnext'

end Spaced

/-! ## Values -/

def isHex (c : Char) : Bool := c.isDigit || ('a' ≤ c && c ≤ 'f') || ('A' ≤ c && c ≤ 'F')

def isEscape (c : Char) : Bool :=
  c = '"' || c = '\\' || c = '/' || c = 'b' || c = 'f' || c = 'n' || c = 'r' || c = 't'

/-- A body of a string, from behind a backslash or where so many hexadecimal digits are due. -/
def isStringBody : Option Nat → List Char → Bool
  | due, [] => due = some 0
  | none, c :: rest => if c = 'u' then isStringBody (some 4) rest else isEscape c && isStringBody (some 0) rest
  | some (n + 1), c :: rest => isHex c && isStringBody (some n) rest
  | some 0, c :: rest =>
    if c = '\\' then isStringBody none rest else 32 ≤ c.toNat && c ≠ '"' && isStringBody (some 0) rest

def isExponent (text : List Char) : Bool :=
  match text with
  | [] => true
  | e :: rest =>
    let digits := if rest.head? = some '+' ∨ rest.head? = some '-' then rest.tail else rest
    (e = 'e' || e = 'E') && digits ≠ [] && digits.all Char.isDigit

def isFraction (text : List Char) : Bool :=
  if text.head? = some '.' then
    text.tail.takeWhile Char.isDigit ≠ [] && isExponent (text.tail.dropWhile Char.isDigit)
  else isExponent text

def isNumber (text : List Char) : Bool :=
  let unsigned := if text.head? = some '-' then text.tail else text
  let whole := unsigned.takeWhile Char.isDigit
  (whole = ['0'] || (whole ≠ [] && whole.head? ≠ some '0')) && isFraction (unsigned.dropWhile Char.isDigit)

def isScalar (text : List Char) : Bool :=
  text = "true".toList || text = "false".toList || text = "null".toList || isNumber text

/-- JSON values, with words and strings as they are written. -/
inductive Json where
  | scalar (text : List Char)
  | string (body : List Char)
  | array (items : List Json)
  | object (members : List (List Char × Json))

mutual

/-- The pieces of a value. -/
inductive IsValue : List Piece → Json → Prop
  | scalar {text : List Char} (h : isScalar text = true) : IsValue [.word text] (.scalar text)
  | string {body : List Char} (h : isStringBody (some 0) body = true) : IsValue [.string body] (.string body)
  | emptyArray : IsValue [.mark '[', .mark ']'] (.array [])
  | array {ps : List Piece} {items : List Json} (h : AreItems ps items) :
      IsValue (.mark '[' :: (ps ++ [.mark ']'])) (.array items)
  | emptyObject : IsValue [.mark '{', .mark '}'] (.object [])
  | object {ps : List Piece} {members : List (List Char × Json)} (h : AreMembers ps members) :
      IsValue (.mark '{' :: (ps ++ [.mark '}'])) (.object members)

/-- The pieces of values with commas between. -/
inductive AreItems : List Piece → List Json → Prop
  | one {ps : List Piece} {item : Json} (h : IsValue ps item) : AreItems ps [item]
  | more {ps ps' : List Piece} {item : Json} {items : List Json} (h : IsValue ps item) (hmore : AreItems ps' items) :
      AreItems (ps ++ .mark ',' :: ps') (item :: items)

/-- The pieces of keys with their values and commas between. -/
inductive AreMembers : List Piece → List (List Char × Json) → Prop
  | one {key : List Char} {ps : List Piece} {value : Json} (hkey : isStringBody (some 0) key = true)
      (h : IsValue ps value) : AreMembers (.string key :: .mark ':' :: ps) [(key, value)]
  | more {key : List Char} {ps ps' : List Piece} {value : Json} {members : List (List Char × Json)}
      (hkey : isStringBody (some 0) key = true) (h : IsValue ps value) (hmore : AreMembers ps' members) :
      AreMembers (.string key :: .mark ':' :: (ps ++ .mark ',' :: ps')) ((key, value) :: members)

end

/-- A text denotes a value. -/
def Denotes (text : List Char) (value : Json) : Prop := ∃ pieces, lex text = some pieces ∧ IsValue (tokens pieces) value

/-- White space between pieces does not change what a text denotes. -/
theorem denotes_of_spaced {text : List Char} {ps ps' : List Piece} (hlex : lex text = some ps) (h : Spaced ps ps')
    (value : Json) : Denotes (render ps') value ↔ Denotes text value := by
  have hlex' := lex_render (h.lexed (lex_spec hlex).1)
  simp only [Denotes, hlex, hlex', Option.some.injEq, exists_eq_left', h.tokens_eq]

end Lib.JsonText
