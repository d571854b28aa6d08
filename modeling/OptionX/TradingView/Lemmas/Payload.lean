import OptionX.TradingView.Payload

/-!
# What authorisation compares, and what a payload tells of its secrets

The comparison of secrets as a statement about texts; then that payloads which agree outside their secrets are read alike.
-/

namespace OptionX.TradingView

variable {F : Type}

/-! ## The comparison of secrets -/

theorem accumulateDiff_eq_zero (left right : Text) (count : Nat) (diff : UInt8) :
    accumulateDiff left right count diff = 0 ↔ diff = 0 ∧ ∀ index < count, left.getD index 0 = right.getD index 0 := by
  induction count with
  | zero => simp [accumulateDiff]
  | succ count ih =>
      rw [accumulateDiff, UInt8.or_eq_zero_iff, ih, UInt8.xor_eq_zero_iff, and_assoc]
      refine and_congr_right fun _ => ⟨fun ⟨hbefore, hlast⟩ index hindex => ?_, fun h => ⟨fun index hindex => ?_, ?_⟩⟩
      · rcases Nat.lt_succ_iff_lt_or_eq.mp hindex with hlt | rfl
        · exact hbefore index hlt
        · exact hlast
      · exact h index (by omega)
      · exact h count (Nat.lt_succ_self count)

/-- One text is the other with zero bytes behind it, 256 of them or a multiple. -/
def PaddedAlike (left right : Text) : Prop :=
  ∃ blocks, 0 < blocks ∧ (left = right ++ List.replicate (256 * blocks) 0 ∨
    right = left ++ List.replicate (256 * blocks) 0)

theorem eq_append_zeros {left right : Text} (hlength : right.length ≤ left.length)
    (h : ∀ index < left.length, left.getD index 0 = right.getD index 0) :
    left = right ++ List.replicate (left.length - right.length) 0 := by
  apply List.ext_getElem
  · simp
    omega
  · intro index hleft hright
    have hindex := h index hleft
    rw [List.getD_eq_getElem _ _ hleft] at hindex
    rw [hindex, List.getElem_append]
    split
    · next hin => exact List.getD_eq_getElem _ _ hin
    · next hout =>
      rw [List.getElem_replicate]
      exact List.getD_eq_default _ _ (by omega)

theorem lengthDiff_eq_zero (n m : Nat) : UInt8.ofNat (n ^^^ m) = 0 ↔ n % 256 = m % 256 := by
  rw [UInt8.ofNat_xor, UInt8.xor_eq_zero_iff, ← UInt8.toNat_inj, UInt8.toNat_ofNat', UInt8.toNat_ofNat']

theorem constantTimeEquals_spec (left right : Text) : constantTimeEquals left right = true ↔
    left.length % 256 = right.length % 256 ∧
      ∀ index < max left.length right.length, left.getD index 0 = right.getD index 0 := by
  rw [constantTimeEquals, decide_eq_true_iff, accumulateDiff_eq_zero, lengthDiff_eq_zero]

/-- A longer text that the comparison does not tell apart. -/
theorem padded_of_longer {left right : Text} (hlength : right.length < left.length)
    (hmod : left.length % 256 = right.length % 256)
    (h : ∀ index < left.length, left.getD index 0 = right.getD index 0) :
    ∃ blocks, 0 < blocks ∧ left = right ++ List.replicate (256 * blocks) 0 := by
  refine ⟨(left.length - right.length) / 256, by omega, ?_⟩
  have hblocks : 256 * ((left.length - right.length) / 256) = left.length - right.length := by omega
  rw [hblocks]
  exact eq_append_zeros hlength.le h

theorem getD_append_zeros (value : Text) (count index : Nat) :
    (value ++ List.replicate count 0).getD index 0 = value.getD index 0 := by
  rw [List.getD_eq_getElem?_getD, List.getD_eq_getElem?_getD, List.getElem?_append]
  split
  · rfl
  · next hout =>
    rw [List.getElem?_eq_none (not_lt.mp hout), List.getElem?_replicate]
    split <;> rfl

/-- The comparison holds of equal texts, and of texts that differ in zero bytes at the end. -/
theorem constantTimeEquals_iff (left right : Text) :
    constantTimeEquals left right = true ↔ left = right ∨ PaddedAlike left right := by
  rw [constantTimeEquals_spec]
  constructor
  · rintro ⟨hmod, h⟩
    rcases lt_trichotomy left.length right.length with hlt | heq | hgt
    · obtain ⟨blocks, hpos, hright⟩ := padded_of_longer hlt hmod.symm fun index hindex =>
        (h index (lt_max_of_lt_right hindex)).symm
      exact .inr ⟨blocks, hpos, .inr hright⟩
    · have hsame := eq_append_zeros heq.ge fun index hindex => h index (lt_max_of_lt_left hindex)
      rw [heq, Nat.sub_self, List.replicate_zero, List.append_nil] at hsame
      exact .inl hsame
    · obtain ⟨blocks, hpos, hleft⟩ := padded_of_longer hgt hmod fun index hindex =>
        h index (lt_max_of_lt_left hindex)
      exact .inr ⟨blocks, hpos, .inl hleft⟩
  · rintro (rfl | ⟨blocks, -, rfl | rfl⟩)
    · exact ⟨rfl, fun _ _ => rfl⟩
    · exact ⟨by simp, fun index _ => getD_append_zeros right _ index⟩
    · exact ⟨by simp, fun index _ => (getD_append_zeros left _ index).symm⟩

theorem PaddedAlike.ne {left right : Text} (h : PaddedAlike left right) : left ≠ right := by
  rintro rfl
  obtain ⟨blocks, hpos, h | h⟩ := h
  · have := congrArg List.length h
    simp at this
    omega
  · have := congrArg List.length h
    simp at this
    omega

/-- The comparison is equality exactly where the texts do not differ in zero bytes alone. -/
theorem constantTimeEquals_exact_iff (left right : Text) :
    (constantTimeEquals left right = true ↔ left = right) ↔ ¬ PaddedAlike left right := by
  rw [constantTimeEquals_iff]
  constructor
  · intro h hpadded
    exact hpadded.ne (h.mp (.inr hpadded))
  · intro h
    exact or_iff_left h

/-! ## Payloads that agree outside their secrets -/

def Json.isScalar : Json F → Bool
  | .array _ | .object _ => false
  | _ => true

mutual
inductive Agree : Json F → Json F → Prop where
  | same (value : Json F) (h : value.isScalar = true) : Agree value value
  | array {items items' : List (Json F)} (h : AgreeItems items items') : Agree (.array items) (.array items')
  | object {members members' : List (Text × Json F)} (h : AgreeMembers members members') :
      Agree (.object members) (.object members')

inductive AgreeItems : List (Json F) → List (Json F) → Prop where
  | nil : AgreeItems [] []
  | cons {item item' : Json F} {items items' : List (Json F)} (h : Agree item item')
      (hrest : AgreeItems items items') : AgreeItems (item :: items) (item' :: items')

inductive AgreeMembers : List (Text × Json F) → List (Text × Json F) → Prop where
  | nil : AgreeMembers [] []
  | member {key : Text} {value value' : Json F} {members members' : List (Text × Json F)} (h : Agree value value')
      (hrest : AgreeMembers members members') : AgreeMembers ((key, value) :: members) ((key, value') :: members')
  | secret {key : Text} (value value' : Json F) {members members' : List (Text × Json F)}
      (hkey : isSecretKey key = true) (hrest : AgreeMembers members members') :
      AgreeMembers ((key, value) :: members) ((key, value') :: members')
end

mutual
theorem Agree.redact {value value' : Json F} (h : Agree value value') :
    redactPayloadSecrets value = redactPayloadSecrets value' := by
  match h with
  | .same value _ => rfl
  | .array h => rw [redactPayloadSecrets, redactPayloadSecrets, h.redact]
  | .object h => rw [redactPayloadSecrets, redactPayloadSecrets, h.redact]

theorem AgreeItems.redact {items items' : List (Json F)} (h : AgreeItems items items') :
    redactItems items = redactItems items' := by
  match h with
  | .nil => rfl
  | .cons h hrest => rw [redactItems, redactItems, h.redact, hrest.redact]

theorem AgreeMembers.redact {members members' : List (Text × Json F)} (h : AgreeMembers members members') :
    redactMembers members = redactMembers members' := by
  match h with
  | .nil => rfl
  | .member h hrest => rw [redactMembers, redactMembers, h.redact, hrest.redact]
  | .secret _ _ hkey hrest => rw [redactMembers, redactMembers, hrest.redact, if_pos hkey, if_pos hkey]
end

/-! ## The readers of a payload -/

/-- None of the keys stands for a secret. -/
def PublicKeys (keys : List String) : Prop := ∀ key ∈ keys, isSecretKey (text key) = false

instance (keys : List String) : Decidable (PublicKeys keys) := inferInstanceAs (Decidable (∀ key ∈ keys, _))

theorem PublicKeys.tail {key : String} {keys : List String} (h : PublicKeys (key :: keys)) : PublicKeys keys :=
  fun key hkey => h key (List.mem_cons_of_mem _ hkey)

/-- Both are missing, or both are there and agree. -/
def AgreeOption (value value' : Option (Json F)) : Prop :=
  (value = none ∧ value' = none) ∨ ∃ a b, value = some a ∧ value' = some b ∧ Agree a b

theorem AgreeMembers.lookup {members members' : List (Text × Json F)} (h : AgreeMembers members members') {key : Text}
    (hkey : isSecretKey key = false) : AgreeOption (members.lookup key) (members'.lookup key) := by
  match h with
  | .nil => exact .inl ⟨rfl, rfl⟩
  | @AgreeMembers.member _ other value value' _ _ h hrest =>
      rw [List.lookup_cons, List.lookup_cons]
      cases key == other with
      | true => exact .inr ⟨value, value', rfl, rfl, h⟩
      | false => exact hrest.lookup hkey
  | @AgreeMembers.secret _ other _ _ _ _ hsecret hrest =>
      have hother : (key == other) = false := by
        rw [beq_eq_false_iff_ne]
        rintro rfl
        simp [hkey] at hsecret
      rw [List.lookup_cons, List.lookup_cons, hother]
      exact hrest.lookup hkey

theorem AgreeOption.getD {value value' : Option (Json F)} (h : AgreeOption value value') :
    Agree (value.getD .null) (value'.getD .null) := by
  rcases h with ⟨rfl, rfl⟩ | ⟨a, b, rfl, rfl, hagree⟩
  · exact .same _ rfl
  · exact hagree

variable {lib : Library F} {payload payload' : Json F}

theorem Agree.member? (h : Agree payload payload') {key : Text} (hkey : isSecretKey key = false) :
    AgreeOption (payload.member? key) (payload'.member? key) := by
  match h with
  | .same value hscalar =>
      cases value with
      | object members => cases hscalar
      | _ => exact .inl ⟨rfl, rfl⟩
  | .array _ => exact .inl ⟨rfl, rfl⟩
  | .object h => exact h.lookup hkey

theorem Agree.isObject (h : Agree payload payload') : payload.isObject = payload'.isObject := by
  match h with
  | .same _ _ => rfl
  | .array _ => rfl
  | .object _ => rfl

theorem Agree.objectMember? (h : Agree payload payload') {key : String} (hkey : isSecretKey (text key) = false) :
    AgreeOption (payload.objectMember? key) (payload'.objectMember? key) := by
  unfold Json.objectMember?
  rcases h.member? hkey with ⟨hnone, hnone'⟩ | ⟨value, value', hsome, hsome', hvalue⟩
  · rw [hnone, hnone']
    exact .inl ⟨rfl, rfl⟩
  · rw [hsome, hsome', Option.filter_some, Option.filter_some, hvalue.isObject]
    split
    · exact .inr ⟨value, value', rfl, rfl, hvalue⟩
    · exact .inl ⟨rfl, rfl⟩

theorem scalarToString_agree (h : Agree payload payload') : scalarToString lib payload = scalarToString lib payload' := by
  match h with
  | .same _ _ => rfl
  | .array _ => rfl
  | .object _ => rfl

theorem jsonString_agree (h : Agree payload payload') {key : String} (hkey : isSecretKey (text key) = false) :
    jsonString lib payload key = jsonString lib payload' key := by
  unfold jsonString
  rcases h.member? hkey with ⟨hnone, hnone'⟩ | ⟨value, value', hsome, hsome', hvalue⟩
  · rw [hnone, hnone']
  · rw [hsome, hsome']
    exact scalarToString_agree hvalue

theorem firstJsonString_agree (h : Agree payload payload') {keys : List String} (hkeys : PublicKeys keys) :
    firstJsonString lib payload keys = firstJsonString lib payload' keys := by
  induction keys with
  | nil => rfl
  | cons key keys ih =>
      rw [firstJsonString, firstJsonString, jsonString_agree h (hkeys key List.mem_cons_self),
        ih hkeys.tail]

theorem jsonNumber_agree (h : Agree payload payload') {keys : List String} (hkeys : PublicKeys keys) :
    jsonNumber lib payload keys = jsonNumber lib payload' keys := by
  induction keys with
  | nil => rfl
  | cons key keys ih =>
      rw [jsonNumber, jsonNumber, ih hkeys.tail]
      rcases h.member? (hkeys key List.mem_cons_self) with ⟨hnone, hnone'⟩ | ⟨value, value', hsome, hsome', hvalue⟩
      · rw [hnone, hnone']
      · rw [hsome, hsome']
        match hvalue with
        | .same _ _ => rfl
        | .array _ => rfl
        | .object _ => rfl

theorem jsonNumberInto_agree (h : Agree payload payload') {keys : List String} (hkeys : PublicKeys keys) (output : F) :
    jsonNumberInto lib payload output keys = jsonNumberInto lib payload' output keys := by
  induction keys generalizing output with
  | nil => rfl
  | cons key keys ih =>
      rw [jsonNumberInto, jsonNumberInto]
      simp only [ih hkeys.tail]
      rcases h.member? (hkeys key List.mem_cons_self) with ⟨hnone, hnone'⟩ | ⟨value, value', hsome, hsome', hvalue⟩
      · rw [hnone, hnone']
      · rw [hsome, hsome']
        match hvalue with
        | .same _ _ => rfl
        | .array _ => rfl
        | .object _ => rfl

theorem integerOf_agree (h : Agree payload payload') : integerOf lib payload = integerOf lib payload' := by
  match h with
  | .same _ _ => rfl
  | .array _ => rfl
  | .object _ => rfl

theorem jsonInteger_agree (h : Agree payload payload') {keys : List String} (hkeys : PublicKeys keys) (fallback : Int) :
    jsonInteger lib payload fallback keys = jsonInteger lib payload' fallback keys := by
  induction keys with
  | nil => rfl
  | cons key keys ih =>
      rw [jsonInteger, jsonInteger, ih hkeys.tail]
      rcases h.member? (hkeys key List.mem_cons_self) with ⟨hnone, hnone'⟩ | ⟨value, value', hsome, hsome', hvalue⟩
      · rw [hnone, hnone']
      · rw [hsome, hsome']
        dsimp only
        rw [integerOf_agree hvalue]

theorem readTrigger_agree (h : Agree payload payload') (conditionType message : Text) :
    readTrigger lib payload conditionType message = readTrigger lib payload' conditionType message := by
  unfold readTrigger
  rw [firstJsonString_agree h (by decide), jsonNumberInto_agree h (by decide)]

theorem readPrice_agree (h : Agree payload payload') {keys : List String} (hkeys : PublicKeys keys)
    (conditionType unit message : Text) :
    readPrice lib payload keys conditionType unit message = readPrice lib payload' keys conditionType unit message := by
  unfold readPrice
  rw [jsonNumber_agree h hkeys, jsonNumber_agree h (by decide)]

theorem orInteger_agree {source source' : Option (Json F)} (h : AgreeOption source source') {keys : List String}
    (hkeys : PublicKeys keys) (value : Int) : orInteger lib value source keys = orInteger lib value source' keys := by
  rcases h with ⟨rfl, rfl⟩ | ⟨a, b, rfl, rfl, hagree⟩
  · rfl
  · unfold orInteger
    dsimp only
    rw [jsonInteger_agree hagree hkeys]

theorem orNumber_agree {source source' : Option (Json F)} (h : AgreeOption source source') {keys : List String}
    (hkeys : PublicKeys keys) (value : F) : orNumber lib value source keys = orNumber lib value source' keys := by
  rcases h with ⟨rfl, rfl⟩ | ⟨a, b, rfl, rfl, hagree⟩
  · rfl
  · unfold orNumber
    dsimp only
    rw [jsonNumber_agree hagree hkeys]

theorem orString_agree {source source' : Option (Json F)} (h : AgreeOption source source') {keys : List String}
    (hkeys : PublicKeys keys) (value : Text) : orString lib value source keys = orString lib value source' keys := by
  rcases h with ⟨rfl, rfl⟩ | ⟨a, b, rfl, rfl, hagree⟩
  · rfl
  · unfold orString
    dsimp only
    rw [firstJsonString_agree hagree hkeys]

/-! ## The parser of a payload -/

theorem map_bind {α β γ : Type} (x : Lib.Machine.Exact α) (f : α → Lib.Machine.Exact β) (g : β → γ) :
    (x >>= f).map g = x >>= fun a => (f a).map g := by
  cases x <;> rfl

/-- The event of another payload that reads the same. -/
def NormalizedEvent.of (payload : Json F) (event : NormalizedEvent F) : NormalizedEvent F :=
  { event with raw := payload }

theorem parseNormalizedExtensionPayload_agree (h : Agree payload payload') :
    parseNormalizedExtensionPayload lib payload =
      (parseNormalizedExtensionPayload lib payload').map (NormalizedEvent.of payload) := by
  have hstring : ∀ key, isSecretKey (text key) = false → jsonString lib payload key = jsonString lib payload' key :=
    fun key hkey => jsonString_agree h hkey
  have hfirst : ∀ keys, PublicKeys keys → firstJsonString lib payload keys = firstJsonString lib payload' keys :=
    fun keys hkeys => firstJsonString_agree h hkeys
  have hinteger : ∀ fallback keys, PublicKeys keys →
      jsonInteger lib payload fallback keys = jsonInteger lib payload' fallback keys :=
    fun fallback keys hkeys => jsonInteger_agree h hkeys fallback
  have hprice : ∀ keys conditionType unit message, PublicKeys keys →
      readPrice lib payload keys conditionType unit message = readPrice lib payload' keys conditionType unit message :=
    fun keys conditionType unit message hkeys => readPrice_agree h hkeys conditionType unit message
  have hmember : ∀ key, isSecretKey (text key) = false →
      AgreeOption (payload.objectMember? key) (payload'.objectMember? key) :=
    fun key hkey => h.objectMember? hkey
  unfold parseNormalizedExtensionPayload
  simp (disch := decide) only [hstring, hfirst, hinteger, hprice, readTrigger_agree h,
    orInteger_agree (hmember "barInfo" (by decide)), orNumber_agree (hmember "barInfo" (by decide)),
    orInteger_agree (hmember "extension" (by decide)), orString_agree (hmember "extension" (by decide)), map_bind]
  rfl

theorem parsePricealertsPrivateFeed_agree (h : Agree payload payload') :
    parsePricealertsPrivateFeed lib payload =
      (parsePricealertsPrivateFeed lib payload').map (Except.map (NormalizedEvent.of payload)) := by
  have hstring : ∀ key, isSecretKey (text key) = false → jsonString lib payload key = jsonString lib payload' key :=
    fun key hkey => jsonString_agree h hkey
  have hfirst : ∀ keys, PublicKeys keys → firstJsonString lib payload keys = firstJsonString lib payload' keys :=
    fun keys hkeys => firstJsonString_agree h hkeys
  have hfeed : Agree ((payload.member? (text "text")).getD .null) ((payload'.member? (text "text")).getD .null) :=
    (h.member? (by decide)).getD
  have hcontent := (hfeed.member? (by decide : isSecretKey (text "content") = false)).getD
  unfold parsePricealertsPrivateFeed
  simp (disch := decide) only [hstring, hfirst, jsonString_agree hfeed, jsonString_agree hcontent]
  split
  · rfl
  · split
    · rfl
    · rcases hcontent.objectMember? (by decide : isSecretKey (text "p") = false) with
        ⟨hnone, hnone'⟩ | ⟨data, data', hsome, hsome', hdata⟩
      · rw [hnone, hnone']
        rfl
      · have hdataString : ∀ key, isSecretKey (text key) = false → jsonString lib data key = jsonString lib data' key :=
          fun key hkey => jsonString_agree hdata hkey
        have hdataFirst : ∀ keys, PublicKeys keys → firstJsonString lib data keys = firstJsonString lib data' keys :=
          fun keys hkeys => firstJsonString_agree hdata hkeys
        have hdataInteger : ∀ fallback keys, PublicKeys keys →
            jsonInteger lib data fallback keys = jsonInteger lib data' fallback keys :=
          fun fallback keys hkeys => jsonInteger_agree hdata hkeys fallback
        have hdataPrice : ∀ keys conditionType unit message, PublicKeys keys →
            readPrice lib data keys conditionType unit message = readPrice lib data' keys conditionType unit message :=
          fun keys conditionType unit message hkeys => readPrice_agree hdata hkeys conditionType unit message
        rw [hsome, hsome']
        simp (disch := decide) only [hdataString, hdataFirst, hdataInteger, hdataPrice, readTrigger_agree hdata, map_bind]
        rfl

/-- What the payload holds is the payload that is read. -/
theorem effectivePayload_agree (h : Agree payload payload') : Agree (effectivePayload payload) (effectivePayload payload') := by
  unfold effectivePayload
  rcases h.objectMember? (by decide : isSecretKey (text "payload") = false) with
    ⟨hnone, hnone'⟩ | ⟨inner, inner', hsome, hsome', hinner⟩
  · rw [hnone, hnone']
    exact h
  · rw [hsome, hsome']
    exact hinner

theorem parseEvent_agree (h : Agree payload payload') :
    parseEvent lib payload =
      (parseEvent lib payload').map (Except.map (NormalizedEvent.of (effectivePayload payload))) := by
  have heffective := effectivePayload_agree h
  have hnormalized : Except.ok <$> parseNormalizedExtensionPayload lib (effectivePayload payload) =
      (Except.ok <$> parseNormalizedExtensionPayload lib (effectivePayload payload') :
        Lib.Machine.Exact (Except ParseError (NormalizedEvent F))).map
          (Except.map (NormalizedEvent.of (effectivePayload payload))) := by
    rw [parseNormalizedExtensionPayload_agree heffective]
    cases parseNormalizedExtensionPayload lib (effectivePayload payload') <;> rfl
  unfold parseEvent
  dsimp only
  rcases heffective.objectMember? (by decide : isSecretKey (text "text") = false) with
    ⟨hnone, hnone'⟩ | ⟨feed, feed', hsome, hsome', hfeed⟩
  · rw [hnone, hnone']
    exact hnormalized
  · have hcontains : feed.contains (text "content") = feed'.contains (text "content") := by
      unfold Json.contains
      rcases hfeed.member? (by decide : isSecretKey (text "content") = false) with
        ⟨hnone, hnone'⟩ | ⟨_, _, hsome, hsome', -⟩
      · rw [hnone, hnone']
      · rw [hsome, hsome']
        rfl
    rw [hsome, hsome']
    dsimp only
    rw [hcontains]
    split
    · exact parsePricealertsPrivateFeed_agree heffective
    · exact hnormalized

/-! ## The result -/

/-- What comes after the parser does not read the payload again. -/
theorem finishPayload_of (config : TradingViewExtensionBridgeConfig F) (clock : ClockReadings)
    (result : TradingViewParseResult F) (event : NormalizedEvent F) :
    finishPayload lib config clock result (event.of payload) = finishPayload lib config clock result event := rfl

/-- What comes after authorisation leaves the decision. -/
theorem finishPayload_authorized {config : TradingViewExtensionBridgeConfig F} {clock : ClockReadings}
    {result result' : TradingViewParseResult F} {event : NormalizedEvent F}
    (h : finishPayload lib config clock result event = .ok result') : result'.authorized = result.authorized := by
  unfold finishPayload at h
  simp only [bind, Except.bind, pure, Except.pure] at h
  repeat' split at h
  all_goals cases h
  all_goals rfl

/-- The request is turned down by its secret. -/
def Refused (lib : Library F) (config : TradingViewExtensionBridgeConfig F) (clock : ClockReadings)
    (requestSecret : Text) (payload : Json F) : Prop :=
  ∃ result, parseExtensionPayload lib config clock requestSecret payload = .ok result ∧ result.authorized = false

theorem refused_iff (config : TradingViewExtensionBridgeConfig F) (clock : ClockReadings) (requestSecret : Text) :
    Refused lib config clock requestSecret payload ↔ isAuthorized lib config requestSecret payload = false := by
  unfold Refused parseExtensionPayload
  cases isAuthorized lib config requestSecret payload with
  | false => exact iff_of_true ⟨_, rfl, rfl⟩ rfl
  | true =>
    refine iff_of_false ?_ Bool.noConfusion
    rintro ⟨result, hresult, hrefused⟩
    cases hparse : parseEvent lib payload with
    | error fault => simp [hparse, bind, Except.bind] at hresult
    | ok parsed =>
      cases parsed with
      | error failure =>
          cases failure <;>
          · simp [hparse, bind, Except.bind, pure, Except.pure] at hresult
            rw [← hresult] at hrefused
            exact Bool.noConfusion hrefused
      | ok event =>
          simp [hparse, bind, Except.bind] at hresult
          rw [finishPayload_authorized hresult] at hrefused
          exact Bool.noConfusion hrefused

theorem parseExtensionPayload_agree (h : Agree payload payload') (config : TradingViewExtensionBridgeConfig F)
    (clock : ClockReadings) {requestSecret requestSecret' : Text}
    (hdecision : isAuthorized lib config requestSecret payload = isAuthorized lib config requestSecret' payload') :
    parseExtensionPayload lib config clock requestSecret payload =
      parseExtensionPayload lib config clock requestSecret' payload' := by
  unfold parseExtensionPayload
  rw [hdecision, h.redact, parseEvent_agree h]
  cases isAuthorized lib config requestSecret' payload' with
  | false => rfl
  | true =>
    cases parseEvent lib payload' with
    | error fault => rfl
    | ok parsed =>
      cases parsed with
      | error failure => cases failure <;> rfl
      | ok event => rfl

end OptionX.TradingView
