import OptionX.IntradeBar.LoginRedirect

/-!
# Chains of login redirects

An absolute URL falls into scheme, authority and rest. Appending a path to a classified origin keeps the origin exactly
when the path is empty or begins with a delimiter, which the code requires of no relative location.
-/

namespace OptionX.IntradeBar

open Lib.Strings (cut cut_eq cut_append cut_append_congr)
open TradingView (text)

variable {url origin path scheme authority rest host : Text}

/-! ## Case folding -/

@[simp]
theorem isDelimiter_slash : isDelimiter slash = true := rfl

/-- Folding yields small letters and what was there before. -/
theorem eq_of_foldCase {c d : UInt8} (h : foldCase c = d) (hd : d < 97) : c = d := by
  unfold foldCase at h
  split at h
  · rename_i hupper
    simp only [UInt8.le_iff_toNat_le, UInt8.lt_iff_toNat_lt, ← UInt8.toNat_inj, UInt8.toNat_add] at *
    simp at *
    omega
  · exact h

@[simp]
theorem isDelimiter_foldCase (c : UInt8) : isDelimiter (foldCase c) = isDelimiter c := by
  unfold foldCase
  split
  · rename_i hupper
    simp only [isDelimiter, slash, Bool.or_eq_decide, decide_eq_decide, decide_eq_true_eq]
    simp only [UInt8.le_iff_toNat_le, ← UInt8.toNat_inj, UInt8.toNat_add] at *
    simp at *
    omega
  · rfl

theorem isDelimiter_of_isDigit {c : UInt8} (h : isDigit c = true) : isDelimiter c = false := by
  simp only [isDigit, Bool.and_eq_true, decide_eq_true_eq, UInt8.le_iff_toNat_le] at h
  simp only [isDelimiter, slash, Bool.or_eq_false_iff, decide_eq_false_iff_not, ← UInt8.toNat_inj]
  simp at *
  omega

/-! ## Origins -/

/-- The parts of an absolute URL. -/
structure IsSplit (url scheme authority rest : Text) : Prop where
  cut_url : cut schemeMark url = some (scheme, schemeMark ++ (authority ++ rest))
  scheme_ne : scheme ≠ []
  authority_ne : authority ≠ []
  free : ∀ c ∈ authority, isDelimiter c = false
  delimited : ∀ c ∈ rest.head?, isDelimiter c = true

theorem IsSplit.url_eq (h : IsSplit url scheme authority rest) :
    url = scheme ++ schemeMark ++ authority ++ rest := by
  rw [(cut_eq h.cut_url).1]
  simp

/-- The authority ends where a delimiter stands. -/
theorem takeWhile_authority (hfree : ∀ c ∈ authority, isDelimiter c = false) :
    (authority ++ rest).takeWhile (!isDelimiter ·) = authority ++ rest.takeWhile (!isDelimiter ·) := by
  apply List.takeWhile_append_of_pos
  intro c hc
  simp [hfree c hc]

theorem takeWhile_delimited : rest.takeWhile (!isDelimiter ·) = [] ↔ ∀ c ∈ rest.head?, isDelimiter c = true := by
  cases rest with
  | nil => simp
  | cons c rest => cases hc : isDelimiter c <;> simp [hc]

theorem parseLoginRedirectOrigin_eq_some : parseLoginRedirectOrigin url = some origin ↔
    ∃ scheme authority rest, IsSplit url scheme authority rest ∧ origin = scheme ++ schemeMark ++ authority := by
  unfold parseLoginRedirectOrigin
  constructor
  · intro h
    cases hcut : cut schemeMark url with
    | none => simp [hcut] at h
    | some parts =>
      obtain ⟨scheme, fromMark⟩ := parts
      obtain ⟨afterMark, rfl⟩ := (cut_eq hcut).2
      simp only [hcut, List.drop_left, Option.ite_none_left_eq_some, not_or, Option.some.injEq] at h
      obtain ⟨⟨hscheme, hauthority⟩, rfl⟩ := h
      refine ⟨scheme, _, afterMark.dropWhile (!isDelimiter ·), ⟨?_, hscheme, hauthority, ?_, ?_⟩, rfl⟩
      · rw [List.takeWhile_append_dropWhile]
        exact hcut
      · intro c hc
        simpa using List.mem_takeWhile_imp hc
      · intro c hc
        have := List.head?_dropWhile_not (!isDelimiter ·) afterMark
        simp_all
  · rintro ⟨scheme, authority, rest, h, rfl⟩
    have htake : (authority ++ rest).takeWhile (!isDelimiter ·) = authority := by
      rw [takeWhile_authority h.free, takeWhile_delimited.mpr h.delimited, List.append_nil]
    simp only [h.cut_url, List.drop_left, htake]
    simp [h.scheme_ne, h.authority_ne]

/-- A path takes the place of the rest, and the authority goes on up to a delimiter of it. -/
theorem parseLoginRedirectOrigin_append (h : parseLoginRedirectOrigin url = some origin) :
    parseLoginRedirectOrigin (origin ++ path) = some (origin ++ path.takeWhile (!isDelimiter ·)) := by
  obtain ⟨scheme, authority, rest, hsplit, rfl⟩ := parseLoginRedirectOrigin_eq_some.mp h
  have hcut : cut schemeMark (scheme ++ schemeMark ++ authority ++ path) =
      some (scheme, schemeMark ++ (authority ++ path)) := by
    have := @cut_append_congr _ _ _ _ _ _ (authority ++ path) hsplit.cut_url
    simpa using this
  unfold parseLoginRedirectOrigin
  simp only [hcut, List.drop_left, takeWhile_authority hsplit.free]
  simp [hsplit.scheme_ne, hsplit.authority_ne]

/-- What folds to a host under `https` is an origin as it stands. -/
theorem parseLoginRedirectOrigin_of_foldCase (h : origin.map foldCase = text "https" ++ (schemeMark ++ host))
    (hne : host ≠ []) (hfree : host.any isDelimiter = false) : parseLoginRedirectOrigin origin = some origin := by
  obtain ⟨scheme, fromMark, rfl, hscheme, hfrom⟩ := List.map_eq_append_iff.mp h
  obtain ⟨mark, authority, rfl, hmark, hauthority⟩ := List.map_eq_append_iff.mp hfrom
  have hmark : mark = schemeMark := by
    simp only [schemeMark, List.map_eq_cons_iff, List.map_eq_nil_iff] at hmark
    obtain ⟨colon, _, rfl, hcolon, s, _, rfl, hs, s', _, rfl, hs', rfl⟩ := hmark
    rw [eq_of_foldCase hcolon (by decide), eq_of_foldCase hs (by decide), eq_of_foldCase hs' (by decide)]
    rfl
  subst hmark
  have hcolon : (58 : UInt8) ∉ scheme := by
    intro hmem
    have hfolded : foldCase 58 ∈ text "https" := hscheme ▸ List.mem_map_of_mem hmem
    exact absurd hfolded (by decide)
  apply parseLoginRedirectOrigin_eq_some.mpr
  refine ⟨scheme, authority, [], ⟨?_, ?_, ?_, ?_, by simp⟩, by simp⟩
  · have := @cut_append _ _ _ [slash, slash] _ authority hcolon
    simpa [schemeMark] using this
  · rintro rfl
    simp [text] at hscheme
  · rintro rfl
    exact hne (by simpa using hauthority.symm)
  · intro c hc
    have := List.any_eq_false.mp hfree (foldCase c) (hauthority ▸ List.mem_map_of_mem hc)
    simpa using this

/-- A classified text is its own origin. -/
theorem parseLoginRedirectOrigin_of_classify (h : classifyIntradeLoginOrigin origin ≠ .unknown) :
    parseLoginRedirectOrigin origin = some origin := by
  have hcases : origin.map foldCase = text "https://intrade.bar" ∨ isNumberedIntradeOrigin origin = true ∨
      origin.map foldCase = text "https://trading.intrade.bar" := by
    by_contra hnone
    simp only [not_or, Bool.not_eq_true] at hnone
    obtain ⟨hmain, hnumbered, hmodern⟩ := hnone
    exact h (by simp [classifyIntradeLoginOrigin, isAllowedIntradeRedirectOrigin, isModernIntradeOrigin, hmain,
      hnumbered, hmodern])
  rcases hcases with hmain | hnumbered | hmodern
  · exact @parseLoginRedirectOrigin_of_foldCase _ (text "intrade.bar") hmain (by decide) (by decide)
  · simp only [isNumberedIntradeOrigin, Bool.and_eq_true, decide_eq_true_eq] at hnumbered
    obtain ⟨⟨_, hdigits⟩, hnumbered⟩ := hnumbered
    generalize (List.drop 15 (List.map foldCase origin)).dropLast.dropLast.dropLast.dropLast = index at *
    apply @parseLoginRedirectOrigin_of_foldCase _ (text "intrade" ++ index ++ text ".bar")
    · rw [hnumbered]
      rfl
    · simp [text]
    · have hindex : index.any isDelimiter = false := by
        rw [List.any_eq_false]
        intro c hc
        rw [isDelimiter_of_isDigit (List.all_eq_true.mp hdigits c hc)]
        exact Bool.false_ne_true
      simp only [List.any_append, hindex]
      rfl
  · exact @parseLoginRedirectOrigin_of_foldCase _ (text "trading.intrade.bar") hmodern (by decide) (by decide)

/-! ## Targets -/

/-- After an origin comes nothing or a path, and a text without an origin is empty or begins with a delimiter. -/
def GoodTarget (url : Text) : Prop :=
  match parseLoginRedirectOrigin url with
  | some origin => ∀ c ∈ (url.drop origin.length).head?, c = slash
  | none => ∀ c ∈ url.head?, isDelimiter c = true

namespace LoginRequest

variable (request : LoginRequest)

/-- Origin and path together have that origin. -/
def Confined : Prop := parseLoginRedirectOrigin (request.origin ++ request.path) = some request.origin

/-- An absolute target is origin and path together, up to the path of the bare origin. -/
def SplitExact : Prop := ∀ origin, parseLoginRedirectOrigin request.target = some origin →
  request.origin ++ request.path = request.target ∨ request.target = request.origin ∧ request.path = [slash]

/-- The request is what its target resolves to, at an origin that is classified. -/
structure Resolved : Prop where
  trusted : classifyIntradeLoginOrigin request.origin ≠ .unknown
  resolves : ∃ target, resolveLoginRedirectTarget request.target = some target ∧ request.path = target.path ∧
    ∀ origin ∈ target.origin, request.origin = origin

variable {request}

/-- An absolute target gives the path after the origin, without what stands before its first slash. -/
theorem Resolved.path_of_some (h : request.Resolved) (hparse : parseLoginRedirectOrigin request.target = some origin) :
    ∃ rest, request.target = request.origin ++ rest ∧ request.origin = origin ∧
      request.path = if rest.dropWhile (· ≠ slash) = [] then [slash] else rest.dropWhile (· ≠ slash) := by
  obtain ⟨target, hresolve, hpath, horigin⟩ := h.resolves
  obtain ⟨scheme, authority, rest, hsplit, rfl⟩ := parseLoginRedirectOrigin_eq_some.mp hparse
  have hdrop : (authority ++ rest).dropWhile (· ≠ slash) = rest.dropWhile (· ≠ slash) := by
    apply List.dropWhile_append_of_pos
    intro c hc
    simp only [decide_eq_true_eq]
    rintro rfl
    exact absurd (hsplit.free slash hc) (by decide)
  simp only [resolveLoginRedirectTarget, hparse, hsplit.cut_url, Option.elim_some, List.drop_left, hdrop,
    Option.some.injEq] at hresolve
  subst hresolve
  have horigin := horigin _ rfl
  refine ⟨rest, ?_, horigin, hpath⟩
  rw [horigin]
  exact hsplit.url_eq

theorem Resolved.head?_path (h : request.Resolved) (hparse : parseLoginRedirectOrigin request.target = some origin) :
    request.path.head? = some slash := by
  obtain ⟨rest, -, -, hpath⟩ := h.path_of_some hparse
  rw [hpath]
  cases hdrop : rest.dropWhile (· ≠ slash) with
  | nil => rfl
  | cons c path =>
    have hnot := List.head?_dropWhile_not (· ≠ slash) rest
    simp_all

theorem Resolved.path_of_none (h : request.Resolved) (hparse : parseLoginRedirectOrigin request.target = none) :
    request.path = request.target := by
  obtain ⟨target, hresolve, hpath, _⟩ := h.resolves
  simp only [resolveLoginRedirectTarget, hparse, Option.ite_none_left_eq_some, Option.some.injEq] at hresolve
  rw [hpath, ← hresolve.2]

/-- Origin and path go together when the path is empty or begins with a delimiter. -/
theorem Resolved.confined_iff (h : request.Resolved) :
    request.Confined ↔ ∀ c ∈ request.path.head?, isDelimiter c = true := by
  unfold Confined
  rw [parseLoginRedirectOrigin_append (parseLoginRedirectOrigin_of_classify h.trusted), ← takeWhile_delimited]
  simp

/-- What may come with a request is decided by its target. -/
theorem Resolved.iff_goodTarget (h : request.Resolved) :
    request.Confined ∧ request.SplitExact ↔ GoodTarget request.target := by
  rw [h.confined_iff]
  unfold SplitExact GoodTarget
  cases hparse : parseLoginRedirectOrigin request.target with
  | none => simp [h.path_of_none hparse]
  | some origin =>
    obtain ⟨rest, htarget, rfl, hpath⟩ := h.path_of_some hparse
    simp only [htarget, List.drop_left, Option.some.injEq, forall_eq', List.append_cancel_left_eq,
      List.append_right_eq_self]
    have hhead := h.head?_path hparse
    constructor
    · rintro ⟨-, hexact | ⟨rfl, -⟩⟩ c hc
      · rw [hexact] at hhead
        exact Option.some.inj (hc.symm.trans hhead)
      · cases hc
    · intro hslash
      refine ⟨by simp [hhead], ?_⟩
      cases rest with
      | nil => simp [hpath]
      | cons d rest =>
        have hd : d = slash := hslash d rfl
        simp [hpath, hd]

end LoginRequest

/-! ## Answers -/

/-- A redirect that is followed resolves its location, and stays at an origin that is classified. -/
theorem analyzeLoginRedirectResponse_follow {tools : LoginTools} {response : Option HttpResponse}
    {requestCookies nextOrigin location cookies : Text} {nextTarget : LoginRedirectTarget}
    (h : analyzeLoginRedirectResponse tools response origin requestCookies =
      .follow nextOrigin nextTarget location cookies)
    (htrusted : classifyIntradeLoginOrigin origin ≠ .unknown) :
    classifyIntradeLoginOrigin nextOrigin ≠ .unknown ∧ resolveLoginRedirectTarget location = some nextTarget ∧
      ∀ o ∈ nextTarget.origin, nextOrigin = o := by
  unfold analyzeLoginRedirectResponse at h
  split at h
  · cases h
  · dsimp only at h
    split_ifs at h
    unfold analyzeLocation at h
    split at h
    · cases h
    · cases h
    · split at h
      · cases h
      · rename_i target hresolve
        dsimp only at h
        split_ifs at h with hrejected
        cases h
        refine ⟨?_, hresolve, ?_⟩
        · cases horigin : nextTarget.origin with
          | none => simpa [horigin] using htrusted
          | some o => simpa [horigin] using hrejected
        · intro o ho
          simp [Option.mem_def.mp ho]

/-! ## Runs -/

namespace LoginRedirect

variable (login : LoginRedirect) {hosts : Hosts} {state : LoginState} {n : Nat}

/-- The first URL gets no request. -/
def Refused : Prop :=
  match resolveLoginRedirectTarget login.redirectUrl with
  | none => True
  | some target => ∃ origin ∈ target.origin, classifyIntradeLoginOrigin origin = .unknown

/-- The client and the API are back at the original host. -/
def Restored (hosts : Hosts) : Prop := hosts.clientHost = login.originalHost ∧ hosts.apiHost = login.originalHost

/-- What holds after `n` answers. -/
structure Inv (hosts : Hosts) (state : LoginState) (n : Nat) : Prop where
  resolved : ∀ r ∈ state.requests, r.Resolved
  bounded : state.requests.length ≤ 6
  unasked : state.requests = [] → login.Refused ∧ state.toHosts = hosts
  running : ∀ opened ∈ state.pending, state.calls = [] ∧ opened.redirectCount = n ∧ state.requests.length = n + 1 ∧
    classifyIntradeLoginOrigin opened.origin ≠ .unknown
  finished : state.pending = none → state.calls.length = 1 ∧ (state.requests ≠ [] → login.Restored state.toHosts)

variable {login}

/-- The last call goes out from the original host. -/
theorem inv_call (htrusted : classifyIntradeLoginOrigin login.originalHost ≠ .unknown) (result : LoginResult)
    (hresolved : ∀ r ∈ state.requests, r.Resolved) (hbounded : state.requests.length ≤ 6) (hasked : state.requests ≠ [])
    (hpending : state.pending = none) (hcalls : state.calls = []) :
    login.Inv hosts (call (login.restore state) result) n := by
  have hhost : login.originalHost ≠ [] := by
    intro hnil
    rw [hnil] at htrusted
    exact htrusted (by decide)
  constructor <;> simp_all [call, restore, Restored]

/-- The handler asks once more or gives up. -/
theorem inv_handler {path requestCookies location : Text}
    (htrusted : classifyIntradeLoginOrigin login.originalHost ≠ .unknown)
    (hresolved : ∀ r ∈ state.requests, r.Resolved) (hcount : state.requests.length = n) (hmost : n ≤ 6)
    (hpending : state.pending = none) (hcalls : state.calls = [])
    (hnew : (⟨origin, path, requestCookies, location⟩ : LoginRequest).Resolved) :
    login.Inv hosts (login.handler state origin path requestCookies location n) n := by
  unfold handler
  split
  · rename_i hmany
    apply inv_call htrusted _ hresolved (by omega) _ hpending hcalls
    rintro hnil
    simp [hnil] at hcount
    omega
  · rename_i hfew
    constructor
    · intro r hr
      rcases List.mem_append.mp hr with hr | hr
      · exact hresolved r hr
      · rw [List.mem_singleton.mp hr]
        exact hnew
    · simp [hcount]
      omega
    · simp
    · have := hnew.trusted
      simp_all
    · simp

theorem inv_start (htrusted : classifyIntradeLoginOrigin login.originalHost ≠ .unknown) :
    login.Inv hosts (login.start hosts) 0 := by
  unfold start
  split
  · rename_i hresolve
    constructor <;> simp [call, Refused, hresolve]
  · rename_i target hresolve
    dsimp only
    split
    · rename_i hrejected
      have hrefused : login.Refused := by
        cases horigin : target.origin with
        | none => simp [horigin] at hrejected
        | some o => simpa [Refused, hresolve, horigin] using hrejected
      constructor <;> simp [call, hrefused]
    · rename_i haccepted
      apply inv_handler (n := 0) htrusted (by simp) rfl (by omega) rfl rfl
      refine ⟨?_, target, hresolve, rfl, ?_⟩
      · cases horigin : target.origin with
        | none => simpa [originFromHost, parseLoginRedirectOrigin_of_classify htrusted] using htrusted
        | some o => simpa [horigin] using haccepted
      · intro o ho
        simp [Option.mem_def.mp ho]

theorem start_of_refused (hosts : Hosts) (h : login.Refused) :
    (login.start hosts).calls ≠ [] ∧ (login.start hosts).toHosts = hosts := by
  unfold Refused at h
  unfold start
  cases hresolve : resolveLoginRedirectTarget login.redirectUrl with
  | none => simp [call]
  | some target =>
    simp only [hresolve] at h
    obtain ⟨origin, horigin, hunknown⟩ := h
    simp [Option.mem_def.mp horigin, hunknown, call]

theorem inv_step (htrusted : classifyIntradeLoginOrigin login.originalHost ≠ .unknown)
    (respond : List LoginRequest → Option HttpResponse) (h : login.Inv hosts state n) :
    login.Inv hosts (login.step respond state) (n + 1) := by
  unfold step
  split
  · rename_i hpending
    exact ⟨h.resolved, h.bounded, h.unasked, by simp [hpending], h.finished⟩
  · rename_i opened hpending
    obtain ⟨hcalls, hcount, hlength, hopened⟩ := h.running opened hpending
    have hasked : state.requests ≠ [] := by
      rintro hnil
      simp [hnil] at hlength
    have hbounded := h.bounded
    unfold onResponse
    dsimp only
    split
    · exact inv_call htrusted _ h.resolved hbounded hasked rfl hcalls
    · exact inv_call htrusted _ h.resolved hbounded hasked rfl hcalls
    · rename_i hfollow
      obtain ⟨hnext, hresolve, horigin⟩ := analyzeLoginRedirectResponse_follow hfollow hopened
      rw [hcount]
      exact inv_handler htrusted h.resolved hlength (by omega) rfl hcalls ⟨hnext, _, hresolve, rfl, horigin⟩
    · exact inv_call htrusted _ h.resolved hbounded hasked rfl hcalls

theorem inv_run (htrusted : classifyIntradeLoginOrigin login.originalHost ≠ .unknown) (hosts : Hosts)
    (respond : List LoginRequest → Option HttpResponse) : ∀ n, login.Inv hosts (login.run hosts respond n) n
  | 0 => inv_start htrusted
  | n + 1 => by
    rw [run, Function.iterate_succ_apply']
    exact inv_step htrusted respond (inv_run htrusted hosts respond n)

end LoginRedirect

end OptionX.IntradeBar
