import OptionX.BotBinary.Lemmas.Protocol
import OptionX.Lib.Strings

/-!
# Requests in URLs

Where the reader of a URL finds the request that was appended to a base URL.
-/

namespace OptionX.BotBinary

open TradingView (Text text isDigit isAlnum)

variable {command : BotBinaryTradeCommand} {config : BotBinaryAdapterConfig} {direction : Text} {baseUrl query before value : Text}

/-- The query of a base URL has a request parameter. -/
def HasRequest (baseUrl : Text) : Prop :=
  ∃ before query, baseUrl = before ++ questionMark :: query ∧ questionMark ∉ before ∧
    ∃ part ∈ query.splitOn ampersand, requestKey <+: part

/-- The base URL ends in a question mark that is not its first one. -/
def EndsInLaterQuestionMark (baseUrl : Text) : Prop :=
  1 < baseUrl.count questionMark ∧ baseUrl.getLast? = some questionMark

instance (baseUrl : Text) : Decidable (EndsInLaterQuestionMark baseUrl) := inferInstanceAs (Decidable (_ ∧ _))

/-- The parameter that carries a request value. -/
def requestPart (value : Text) : Text := requestKey ++ percentEncodeQueryValue value

theorem requestKey_plain : questionMark ∉ requestKey ∧ hashSign ∉ requestKey ∧ ampersand ∉ requestKey := by
  decide +kernel

theorem requestPart_plain (value : Text) :
    questionMark ∉ requestPart value ∧ hashSign ∉ requestPart value ∧ ampersand ∉ requestPart value := by
  obtain ⟨hmark, hhash, hamp⟩ := percentEncode_plain value
  obtain ⟨hmark', hhash', hamp'⟩ := requestKey_plain
  simp only [requestPart, List.mem_append, not_or]
  exact ⟨⟨hmark', hmark⟩, ⟨hhash', hhash⟩, ⟨hamp', hamp⟩⟩

theorem queryOf_append (h : questionMark ∉ before) : queryOf (before ++ questionMark :: query) = query := by
  have hsplit : (before ++ questionMark :: query).dropWhile (· ≠ questionMark) = questionMark :: query := by
    refine (Lib.Strings.takeWhile_split ?_ ?_).2
    · intro ch hch
      have hne : ch ≠ questionMark := fun heq => h (heq ▸ hch)
      simp [hne]
    · simp
  rw [queryOf, hsplit]

/-- Among parts of which none is a request, the appended one is found. -/
theorem extract_found {parts : List Text} (hmark : questionMark ∉ before) (hhash : hashSign ∉ query)
    (hparts : query.splitOn ampersand = parts ++ [requestPart value]) (hnone : ∀ part ∈ parts, ¬ requestKey <+: part) :
    extractRequestQueryValue (before ++ questionMark :: query) = .ok value := by
  have hquery : query.takeWhile (· ≠ hashSign) = query := by
    rw [List.takeWhile_eq_self_iff]
    intro ch hch
    have hne : ch ≠ hashSign := fun heq => hhash (heq ▸ hch)
    simp [hne]
  have hfind : (parts ++ [requestPart value]).find? requestKey.isPrefixOf = some (requestPart value) := by
    have hskip : parts.find? requestKey.isPrefixOf = none := by
      rw [List.find?_eq_none]
      exact fun part hpart => by simpa using hnone part hpart
    rw [List.find?_append, hskip]
    simp [requestPart]
  rw [extractRequestQueryValue, queryOf_append hmark]
  rw [hquery, hparts, hfind]
  simp only [requestPart, List.drop_left]
  exact percentDecode_percentEncode value

/-- Without a request among the parts, the reader falls back on the whole text. -/
theorem extract_missing (hmark : questionMark ∉ before) (hhash : hashSign ∉ query)
    (hnone : ∀ part ∈ query.splitOn ampersand, ¬ requestKey <+: part) :
    extractRequestQueryValue (before ++ questionMark :: query) = .ok (before ++ questionMark :: query) := by
  have hquery : query.takeWhile (· ≠ hashSign) = query := by
    rw [List.takeWhile_eq_self_iff]
    intro ch hch
    have hne : ch ≠ hashSign := fun heq => hhash (heq ▸ hch)
    simp [hne]
  have hfind : (query.splitOn ampersand).find? requestKey.isPrefixOf = none := by
    rw [List.find?_eq_none]
    exact fun part hpart => by simpa using hnone part hpart
  rw [extractRequestQueryValue, queryOf_append hmark]
  rw [hquery, hfind]

/-! ## The last part of a query -/

/-- A text is its parts before the last one, and the last one. -/
theorem splitOn_last {stop : UInt8} (query : Text) :
    ∃ parts last, (∀ rest, stop ∉ rest → (query ++ rest).splitOn stop = parts ++ [last ++ rest]) ∧
      ∀ ch, query.getLast? = some ch → ch ≠ stop → last.getLast? = some ch := by
  induction query with
  | nil => exact ⟨[], [], fun rest hrest => by simpa using List.splitOn_eq_singleton hrest, by simp⟩
  | cons ch query ih =>
    obtain ⟨parts, last, hsplit, hlast⟩ := ih
    by_cases hstop : ch = stop
    · subst hstop
      refine ⟨[] :: parts, last, ?_, ?_⟩
      · intro rest hrest
        have hfirst := @List.splitOn_append_cons_self _ _ _ ch [] (query ++ rest)
        simpa [hsplit rest hrest] using hfirst
      · intro other hother hne
        cases query with
        | nil =>
          obtain rfl : ch = other := by simpa using hother
          exact absurd rfl hne
        | cons next query => exact hlast other (by simpa using hother) hne
    · cases parts with
      | nil =>
        refine ⟨[], ch :: last, ?_, ?_⟩
        · intro rest hrest
          rw [List.cons_append, List.splitOn_cons_eq_if_modifyHead, hsplit rest hrest]
          simp [hstop]
        · intro other hother hne
          cases query with
          | nil =>
            have hempty := hsplit [] (by simp)
            simp only [List.append_nil, List.splitOn_nil, List.nil_append, List.cons.injEq, and_true] at hempty
            rw [← hempty]
            exact hother
          | cons next query =>
            have hrest := hlast other (by simpa using hother) hne
            rw [List.getLast?_cons, hrest]
            rfl
      | cons first parts =>
        refine ⟨(ch :: first) :: parts, last, ?_, ?_⟩
        · intro rest hrest
          rw [List.cons_append, List.splitOn_cons_eq_if_modifyHead, hsplit rest hrest]
          simp [hstop]
        · intro other hother hne
          cases query with
          | nil =>
            have hempty := hsplit [] (by simp)
            simp at hempty
          | cons next query => exact hlast other (by simpa using hother) hne

/-! ## The request of a URL -/

/-- No part that the base URL brings along is a request. -/
theorem noRequest (hrequest : ¬ HasRequest (before ++ questionMark :: query)) (hmark : questionMark ∉ before) :
    ∀ part ∈ query.splitOn ampersand, ¬ requestKey <+: part :=
  fun part hpart hkey => hrequest ⟨before, query, rfl, hmark, part, hpart, hkey⟩

/-- The request is appended as a part of its own unless the base URL ends in a later question mark. -/
theorem extract_url (hhash : hashSign ∉ baseUrl) (hrequest : ¬ HasRequest baseUrl)
    (hends : ¬ EndsInLaterQuestionMark baseUrl) (value : Text) :
    extractRequestQueryValue (baseUrl ++ querySeparator baseUrl ++ requestPart value) = .ok value := by
  obtain ⟨hmark', hhash', hamp'⟩ := requestPart_plain value
  unfold querySeparator
  split
  · next hmark =>
    have hparts : (requestPart value).splitOn ampersand = [] ++ [requestPart value] :=
      List.splitOn_eq_singleton hamp'
    rw [List.append_assoc, List.singleton_append]
    exact extract_found hmark hhash' hparts (by simp)
  · next hmem =>
    obtain ⟨before, query, rfl, hmark⟩ := List.eq_append_cons_of_mem (not_not.mp hmem)
    have hnone := noRequest hrequest hmark
    have hquery : hashSign ∉ query := fun hin => hhash (by simp [hin])
    split
    · next hlast =>
      rw [List.append_nil, List.append_assoc, List.cons_append]
      have hhash'' : hashSign ∉ query ++ requestPart value := by simp [hquery, hhash']
      cases query using List.reverseRecOn with
      | nil =>
        have hparts : ([] ++ requestPart value).splitOn ampersand = [] ++ [requestPart value] :=
          List.splitOn_eq_singleton hamp'
        exact extract_found hmark hhash'' hparts (by simp)
      | append_singleton front last =>
        have hend : (before ++ questionMark :: (front ++ [last])).getLast? = some last := by
          rw [← List.cons_append, ← List.append_assoc, List.getLast?_concat]
        rw [hend, Option.some.injEq, Option.some.injEq] at hlast
        cases hlast with
        | inl hlast =>
          subst hlast
          exact absurd ⟨by simp [List.count_append]; omega, hend⟩ hends
        | inr hlast =>
          subst hlast
          have hsplit : (front ++ [ampersand] ++ requestPart value).splitOn ampersand =
              front.splitOn ampersand ++ [requestPart value] := by
            rw [List.append_assoc, List.singleton_append, List.splitOn_append_cons_self, List.splitOn_eq_singleton hamp']
          have hfront : (front ++ [ampersand]).splitOn ampersand = front.splitOn ampersand ++ [[]] := by
            rw [List.splitOn_append_cons_self, List.splitOn_nil]
          refine extract_found hmark hhash'' hsplit ?_
          exact fun part hpart => hnone part (by rw [hfront]; simp [hpart])
    · rw [List.append_assoc, List.append_assoc, List.cons_append, List.singleton_append]
      have hsplit : (query ++ ampersand :: requestPart value).splitOn ampersand =
          query.splitOn ampersand ++ [requestPart value] := by
        rw [List.splitOn_append_cons_self, List.splitOn_eq_singleton hamp']
      have hne : hashSign ≠ ampersand := by decide
      exact extract_found hmark (by simp [hquery, hhash', hne]) hsplit hnone

/-- A later question mark at the end takes the request into the part before it. -/
theorem extract_url_missed (hhash : hashSign ∉ baseUrl) (hrequest : ¬ HasRequest baseUrl)
    (hends : EndsInLaterQuestionMark baseUrl) (value : Text) :
    extractRequestQueryValue (baseUrl ++ querySeparator baseUrl ++ requestPart value) =
      .ok (baseUrl ++ querySeparator baseUrl ++ requestPart value) := by
  obtain ⟨hcount, hlast⟩ := hends
  obtain ⟨hmark', hhash', hamp'⟩ := requestPart_plain value
  have hmem : questionMark ∈ baseUrl := List.count_pos_iff.mp (by omega)
  have hsep : querySeparator baseUrl = [] := by simp [querySeparator, hmem, hlast]
  obtain ⟨before, query, rfl, hmark⟩ := List.eq_append_cons_of_mem hmem
  have hnone := noRequest hrequest hmark
  have hquery : hashSign ∉ query := fun hin => hhash (by simp [hin])
  have hqueryLast : query.getLast? = some questionMark := by
    cases query with
    | nil => simp [List.count_eq_zero_of_not_mem hmark] at hcount
    | cons next query => simpa using hlast
  obtain ⟨parts, last, hsplit, hlastPart⟩ := @splitOn_last ampersand query
  have hpart : last.getLast? = some questionMark := hlastPart _ hqueryLast (by decide)
  have hown : query.splitOn ampersand = parts ++ [last] := by simpa using hsplit [] (by simp)
  rw [hsep, List.append_nil, List.append_assoc, List.cons_append]
  refine extract_missing hmark (by simp [hquery, hhash']) ?_
  rw [hsplit _ hamp']
  intro part hin
  cases List.mem_append.mp hin with
  | inl hin => exact hnone part (by rw [hown]; simp [hin])
  | inr hin =>
    obtain rfl := List.mem_singleton.mp hin
    intro hkey
    obtain hshort | hlong := Nat.lt_or_ge requestKey.length last.length
    · exact hnone last (by rw [hown]; simp) (List.prefix_of_prefix_length_le hkey (List.prefix_append _ _) hshort.le)
    · have hleads : last <+: requestKey := List.prefix_of_prefix_length_le (List.prefix_append _ _) hkey hlong
      exact requestKey_plain.1 (hleads.subset (List.mem_of_getLast? hpart))

/-! ## What a record may consist of -/

theorem orderType_safe {token : Text} {orderType : TradeExecution.OrderType}
    (h : botBinaryOrderTypeFromDirection token = .ok orderType) : questionMark ∉ token := by
  unfold botBinaryOrderTypeFromDirection at h
  split at h
  · next heq => subst heq; decide +kernel
  · split at h
    · next heq => subst heq; decide +kernel
    · cases h

theorem expiryKind_safe {token : Text} {kind : BotBinaryExpiryKind} (h : expiryKindFromToken token = .ok kind) :
    questionMark ∉ token := by
  unfold expiryKindFromToken at h
  split at h
  · next heq => subst heq; decide +kernel
  · split at h
    · next heq => subst heq; decide +kernel
    · cases h

theorem timeUnit_safe {token : Text} {unit : BotBinaryTimeUnit} (h : botBinaryTimeUnitFromToken token = .ok unit) :
    questionMark ∉ token := by
  unfold botBinaryTimeUnitFromToken at h
  split at h
  · next heq => subst heq; decide +kernel
  · split at h
    · next heq => subst heq; decide +kernel
    · split at h
      · next heq => subst heq; decide +kernel
      · cases h

theorem digits_safe {field : String} {token : Text} {result result' : Nat}
    (h : token.foldlM (parseDigit field) result = .ok result') : questionMark ∉ token := by
  induction token generalizing result with
  | nil => simp
  | cons ch token ih =>
    obtain ⟨next, hstep, hrest⟩ := bind_eq_ok.mp h
    obtain ⟨_, hdigit, -⟩ := bind_eq_ok.mp hstep
    have hdigit' : isDigit ch = true := by simpa using throwIf_eq_ok.mp hdigit
    rw [List.mem_cons, not_or]
    refine ⟨?_, ih hrest⟩
    rintro rfl
    cases hdigit'

/-- No text with a question mark is read as a record. -/
theorem notMem_of_parse {requireSuffix : Bool} {parsed : BotBinaryParsedCommand}
    (h : parseBotBinaryValue value requireSuffix = .ok parsed) : questionMark ∉ value := by
  unfold parseBotBinaryValue at h
  split at h
  · next symbol direction amount kind expiry unit suffix tokens htokens =>
    obtain ⟨_, hdirection, h⟩ := bind_eq_ok.mp h
    obtain ⟨_, hkind, h⟩ := bind_eq_ok.mp h
    obtain ⟨_, hexpiry, h⟩ := bind_eq_ok.mp h
    obtain ⟨_, hunit, h⟩ := bind_eq_ok.mp h
    obtain ⟨_, hsymbol, h⟩ := bind_eq_ok.mp h
    obtain ⟨_, hamount, h⟩ := bind_eq_ok.mp h
    obtain ⟨_, -, h⟩ := bind_eq_ok.mp h
    obtain ⟨_, -, h⟩ := bind_eq_ok.mp h
    obtain ⟨_, hsuffix, -⟩ := bind_eq_ok.mp h
    obtain ⟨_, -, hexpiry⟩ := bind_eq_ok.mp hexpiry
    obtain ⟨_, hdigits, -⟩ := bind_eq_ok.mp hexpiry
    have hsuffixSafe : questionMark ∉ joinSuffixTokens (suffix :: tokens) 0 := by
      unfold validateSuffix at hsuffix
      split at hsuffix
      · next hempty => simp [hempty]
      · exact (validateBotBinaryToken_eq_ok.mp hsuffix).2.notMem rfl
    have hvalue : value = (symbol ++ equalsSign :: (direction ++ equalsSign :: (amount ++ equalsSign :: (kind ++ equalsSign ::
        (expiry ++ equalsSign :: (unit ++ equalsSign :: joinSuffixTokens (suffix :: tokens) 0)))))) := by
      have hjoin := @List.intercalate_splitOn _ value _ _ equalsSign
      rw [splitBotBinaryTokens] at htokens
      rw [← hjoin, htokens]
      simp [joinSuffixTokens, List.intercalate]
    have hequals : questionMark ≠ equalsSign := by decide
    have hsymbolSafe : questionMark ∉ symbol := (validateBotBinaryToken_eq_ok.mp hsymbol).2.notMem rfl
    have hamountSafe : questionMark ∉ amount := by
      have hsafe : Safe false amount := amount_safe hamount
      exact hsafe.notMem rfl
    rw [hvalue]
    simp [hequals, hsymbolSafe, orderType_safe hdirection, hamountSafe, expiryKind_safe hkind, digits_safe hdigits,
      timeUnit_safe hunit, hsuffixSafe]
  · cases h

end OptionX.BotBinary
