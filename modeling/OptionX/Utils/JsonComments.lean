import Mathlib

/-!
# JSON comments

`strip_json_comments` of `json_comments.hpp`. The position of the loop splits the text into what stands before it, last
character first, and what is still to come; `chunk_begin` and `comment_begin` are kept as the text from there on.
-/

namespace OptionX.Utils

/-- `std::isspace` in the C locale. -/
def isSpace (c : Char) : Bool := c = ' ' || (9 ≤ c.toNat && c.toNat ≤ 13)

namespace JsonComments

/-- An odd number of backslashes stands right before the position. -/
def isEscapedJsonQuote (before : List Char) : Bool := (before.takeWhile (· = '\\')).length % 2 = 1

def isNewline (ch : Char) : Bool := ch = '\n' || ch = '\r'

/-- What a removed character leaves. -/
def blank (ch : Char) : Char := if isNewline ch then ch else ' '

def appendSpacesPreserveNewlines (output source : List Char) : List Char := output ++ source.map blank

inductive CommentState where
  | none | line | block
  deriving DecidableEq

structure StripState where
  output : List Char := []
  inString : Bool := false
  atLineStart : Bool := true
  comment : CommentState := .none
  /-- From `chunk_begin`. -/
  chunk : List Char := []
  /-- From `comment_begin`. -/
  removed : List Char := []

namespace StripState

variable (preserveWhitespace : Bool) (s : StripState)

/-- The flag behind a character that is kept. -/
def lineStart (ch : Char) : Bool := if isNewline ch then true else if !isSpace ch then false else s.atLineStart

/-- A character that belongs to the chunk. -/
def keep (ch : Char) : StripState := { s with atLineStart := s.lineStart ch, chunk := s.chunk ++ [ch] }

/-- The chunk ends where a comment begins. -/
def openComment (comment : CommentState) (mark : List Char) : StripState :=
  { s with output := s.output ++ s.chunk, chunk := [], removed := mark, comment }

def skip (ch : Char) : StripState := { s with removed := s.removed ++ [ch] }

/-- The comment ends with `removed`, and the output goes on with `ending`. -/
def closeComment (removed ending : List Char) : StripState :=
  { s with
    output := (if preserveWhitespace then appendSpacesPreserveNewlines s.output removed else s.output) ++ ending
    comment := .none, chunk := [], removed := [] }

/-- One turn of the loop, and whether it passes over the next character too. -/
def step (before : List Char) (ch next : Char) : StripState × Bool :=
  if s.comment = .none ∧ ch = '"' then
    ({ s.keep ch with inString := if isEscapedJsonQuote before then s.inString else !s.inString }, false)
  else if s.inString then (s.keep ch, false)
  else
    match s.comment with
    | .none =>
      if ch = '/' ∧ next = '/' then (s.openComment .line ['/', '/'], true)
      else if ch = '/' ∧ next = '*' then (s.openComment .block ['/', '*'], true)
      else if ch = '#' ∧ (s.atLineStart ∨ before.head?.all isSpace) then (s.openComment .line ['#'], false)
      else (s.keep ch, false)
    | .line =>
      if ch = '\n' then ({ s.closeComment preserveWhitespace s.removed ['\n'] with atLineStart := true }, false)
      else if ch = '\r' ∧ next = '\n' then
        ({ s.closeComment preserveWhitespace s.removed ['\r', '\n'] with atLineStart := true }, true)
      else (s.skip ch, false)
    | .block =>
      if ch = '*' ∧ next = '/' then (s.closeComment preserveWhitespace (s.removed ++ ['*', '/']) [], true)
      else (s.skip ch, false)

/-- The loop; a position past the end reads as the null character. -/
def run (s : StripState) (before : List Char) : List Char → StripState
  | [] => s
  | [ch] => (s.step preserveWhitespace before ch '\x00').1
  | ch :: next :: rest =>
    match s.step preserveWhitespace before ch next with
    | (s', true) => run s' (next :: ch :: before) rest
    | (s', false) => run s' (ch :: before) (next :: rest)

/-- What follows the loop. -/
def finish : List Char :=
  if s.comment = .none then s.output ++ s.chunk
  else if preserveWhitespace then appendSpacesPreserveNewlines s.output s.removed
  else s.output

end StripState

def stripJsonComments (text : List Char) (preserveWhitespace : Bool) : List Char :=
  (StripState.run preserveWhitespace {} [] text).finish preserveWhitespace

end JsonComments

end OptionX.Utils
