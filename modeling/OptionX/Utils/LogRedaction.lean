import OptionX.Lib.Strings

/-!
# Log redaction

`redact_secrets_in_text` of `log_redaction.hpp`. The position of the loop splits the text, and of what stands before it only
the last character is looked at. Only letters have a case, so that all tests but the search for a key are made on the text
as it is.
-/

namespace OptionX.Utils.LogRedaction

open Lib.Strings (cut cut_eq)

/-- The listed keys. -/
inductive SecretKey where
  | authToken | authorization | cookie | cookies | password | passwd | proxyAuth | session | token | userHash
  | xApiToken
  deriving DecidableEq

namespace SecretKey

/-- The keys in the order in which they are processed. -/
def all : List SecretKey :=
  [authToken, authorization, cookie, cookies, password, passwd, proxyAuth, session, token, userHash, xApiToken]

def text : SecretKey → List Char
  | authToken => ['a', 'u', 't', 'h', '_', 't', 'o', 'k', 'e', 'n']
  | authorization => ['a', 'u', 't', 'h', 'o', 'r', 'i', 'z', 'a', 't', 'i', 'o', 'n']
  | cookie => ['c', 'o', 'o', 'k', 'i', 'e']
  | cookies => ['c', 'o', 'o', 'k', 'i', 'e', 's']
  | password => ['p', 'a', 's', 's', 'w', 'o', 'r', 'd']
  | passwd => ['p', 'a', 's', 's', 'w', 'd']
  | proxyAuth => ['p', 'r', 'o', 'x', 'y', '_', 'a', 'u', 't', 'h']
  | session => ['s', 'e', 's', 's', 'i', 'o', 'n']
  | token => ['t', 'o', 'k', 'e', 'n']
  | userHash => ['u', 's', 'e', 'r', '_', 'h', 'a', 's', 'h']
  | xApiToken => ['x', '-', 'a', 'p', 'i', '-', 't', 'o', 'k', 'e', 'n']

/-- The value of the key goes on to the end of the line. -/
def isLineValued (key : SecretKey) : Bool := key = cookie || key = cookies || key = authorization

theorem text_length_pos (key : SecretKey) : 0 < key.text.length := by cases key <;> simp [text]

end SecretKey

def toLowerAscii (value : List Char) : List Char := value.map Char.toLower

/-- Letters, digits, underscores and hyphens. -/
def isWord (ch : Char) : Bool := ch.isAlphanum || ch = '_' || ch = '-'

def isKeyBoundary (ch : Char) : Bool := !isWord ch

def isValueDelimiter (ch : Char) : Bool :=
  ch = '&' || ch = ',' || ch = ';' || ch = '\r' || ch = '\n' || ch = '\t' || ch = ' '

def isQuote (ch : Char) : Bool := ch = '"' || ch = '\''

/-- What ends the value of a key. -/
def isEnd (key : SecretKey) (quote : Option Char) (ch : Char) : Bool :=
  match quote with
  | some q => ch = q
  | none => if key.isLineValued then ch = '\r' || ch = '\n' else isValueDelimiter ch

/-- A key with its separator and what comes before the value, the value, and what follows. -/
structure Parts where
  head : List Char
  value : List Char
  after : List Char
  deriving DecidableEq

/-- What an occurrence of a key turns out to be. -/
inductive Occurrence where
  | notAssigned | noValue | assigned (parts : Parts)
  deriving DecidableEq

/-- The value that begins here, behind `head`. -/
def valueAt (key : SecretKey) (head : List Char) : List Char → Occurrence
  | [] => .noValue
  | ch :: rest =>
    if isQuote ch then
      .assigned ⟨head ++ [ch], rest.takeWhile (!isEnd key (some ch) ·), rest.dropWhile (!isEnd key (some ch) ·)⟩
    else
      .assigned ⟨head, (ch :: rest).takeWhile (!isEnd key none ·), (ch :: rest).dropWhile (!isEnd key none ·)⟩

/-- The separator behind a key, and the value. -/
def separatorAt (key : SecretKey) (name after : List Char) : Occurrence :=
  match after.dropWhile (· = ' ') with
  | [] => .notAssigned
  | sep :: rest =>
    if sep ≠ '=' ∧ sep ≠ ':' then .notAssigned
    else
      valueAt key (name ++ (after.takeWhile (· = ' ') ++ sep :: rest.takeWhile (· = ' '))) (rest.dropWhile (· = ' '))

/-- The text begins with the key. -/
def occurrenceAt (key : SecretKey) (previous : Option Char) (text : List Char) : Occurrence :=
  let name := text.take key.text.length
  let after := text.drop key.text.length
  if previous.all isKeyBoundary && after.head?.all isKeyBoundary then separatorAt key name after else .notAssigned

/-- What stands in place of a value. -/
def marker : List Char := ['*', '*', '*']

/-- The text before the next occurrence of the key in any case, and the text from there. -/
def find (key : SecretKey) (text : List Char) : Option (List Char × List Char) :=
  (cut key.text (toLowerAscii text)).map fun (before, _) => (text.take before.length, text.drop before.length)

theorem find_eq {key : SecretKey} {text before rest : List Char} (h : find key text = some (before, rest)) :
    text = before ++ rest ∧ toLowerAscii (rest.take key.text.length) = key.text := by
  simp only [find, Option.map_eq_some_iff, Prod.mk.injEq] at h
  obtain ⟨⟨lower, lowerRest⟩, hcut, rfl, rfl⟩ := h
  obtain ⟨htext, hkey⟩ := cut_eq hcut
  refine ⟨(List.take_append_drop _ _).symm, ?_⟩
  have hrest : toLowerAscii (text.drop lower.length) = lowerRest := by
    rw [toLowerAscii, List.map_drop, ← toLowerAscii, htext, List.drop_left]
  rw [toLowerAscii, List.map_take, ← toLowerAscii, hrest]
  exact (List.prefix_iff_eq_take.mp hkey).symm

theorem find_length {key : SecretKey} {text before rest : List Char} (h : find key text = some (before, rest)) :
    0 < rest.length ∧ rest.length ≤ text.length := by
  obtain ⟨rfl, hkey⟩ := find_eq h
  have hpos := key.text_length_pos
  rw [← hkey, toLowerAscii, List.length_map, List.length_take] at hpos
  simp only [List.length_append]
  omega

theorem valueAt_length {key : SecretKey} {head text : List Char} {parts : Parts}
    (h : valueAt key head text = .assigned parts) : parts.after.length ≤ text.length := by
  cases text with
  | nil => cases h
  | cons ch rest =>
    have hshort := (List.dropWhile_suffix (!isEnd key (some ch) ·) (l := rest)).length_le
    have hlong := (List.dropWhile_suffix (!isEnd key none ·) (l := ch :: rest)).length_le
    rw [valueAt] at h
    split at h
    · cases h
      simp only [List.length_cons]
      omega
    · cases h
      exact hlong

/-- What follows a value is shorter than the text. -/
theorem occurrenceAt_length {key : SecretKey} {previous : Option Char} {text : List Char} {parts : Parts}
    (h : occurrenceAt key previous text = .assigned parts) : parts.after.length < text.length := by
  simp only [occurrenceAt, separatorAt] at h
  split at h
  · split at h
    · cases h
    · rename_i sep rest hsep
      split at h
      · cases h
      · have hvalue := valueAt_length h
        have hrest := (List.dropWhile_suffix (· = ' ') (l := rest)).length_le
        have hafter := (List.dropWhile_suffix (· = ' ') (l := text.drop key.text.length)).length_le
        simp only [hsep, List.length_cons, List.length_drop] at hafter
        omega
  · cases h

/-- The loop for one key. -/
def redactKey (key : SecretKey) (previous : Option Char) (text : List Char) : List Char :=
  match _hfind : find key text with
  | none => text
  | some (before, rest) =>
    match _hoccurrence : occurrenceAt key (before.getLast?.or previous) rest with
    | .notAssigned =>
      let name := rest.take key.text.length
      before ++ (name ++ redactKey key name.getLast? (rest.drop key.text.length))
    | .noValue => text
    | .assigned parts => before ++ (parts.head ++ (marker ++ redactKey key marker.getLast? parts.after))
termination_by text.length
decreasing_by
  · have hlength := find_length _hfind
    have hpos := key.text_length_pos
    simp only [List.length_drop]
    omega
  · have hlength := find_length _hfind
    have hafter := occurrenceAt_length _hoccurrence
    omega

def redactSecretsInText (text : List Char) : List Char :=
  SecretKey.all.foldl (fun text key => redactKey key none text) text

end OptionX.Utils.LogRedaction
