import OptionX.BotBinary.Protocol
import OptionX.Lib.Decimal

/-!
# Command texts and their readers

What the fields of a prepared command consist of, and that each reader takes a command apart again.
-/

namespace OptionX.BotBinary

open Lib.Decimal (Digits value)
open TradingView (Text text isDigit isAlnum)

/-! ## Exceptions -/

theorem bind_eq_ok {α β : Type} {x : Except String α} {f : α → Except String β} {b : β} :
    x >>= f = .ok b ↔ ∃ a, x = .ok a ∧ f a = .ok b := by
  cases x <;> simp [bind, Except.bind]

@[simp] theorem ok_bind {α β : Type} (a : α) (f : α → Except String β) : (Except.ok a >>= f) = f a := rfl

@[simp] theorem throwIf_eq_ok {bad : Prop} [Decidable bad] {message : String} {u : Unit} :
    throwIf bad message = .ok u ↔ ¬ bad := by
  unfold throwIf
  split <;> simp [*]

theorem throwIf_of_not {bad : Prop} [Decidable bad] {message : String} (h : ¬ bad) : throwIf bad message = .ok () :=
  if_neg h

/-! ## Fields -/

/-- No character of the text is forbidden in a field. -/
def Safe (allowEquals : Bool) (value : Text) : Prop := ∀ ch ∈ value, isForbidden allowEquals ch = false

variable {allowEquals : Bool} {text₁ text₂ : Text} {ch : UInt8}

theorem Safe.append (h : Safe allowEquals text₁) (h' : Safe allowEquals text₂) : Safe allowEquals (text₁ ++ text₂) := by
  intro ch hch
  cases List.mem_append.mp hch with
  | inl hch => exact h ch hch
  | inr hch => exact h' ch hch

theorem Safe.notMem (h : Safe allowEquals text₁) (hch : isForbidden allowEquals ch = true) : ch ∉ text₁ := by
  intro hmem
  rw [h ch hmem] at hch
  cases hch

theorem validateBotBinaryToken_eq_ok {field : String} {u : Unit} :
    validateBotBinaryToken text₁ field allowEquals = .ok u ↔ text₁ ≠ [] ∧ Safe allowEquals text₁ := by
  simp [validateBotBinaryToken, bind_eq_ok, hasForbiddenBotBinaryChar, Safe]

theorem isDigit_iff : isDigit ch = true ↔ 48 ≤ ch.toNat ∧ ch.toNat ≤ 57 := by
  simp [isDigit, UInt8.le_iff_toNat_le]

/-- Digits and the decimal point are allowed everywhere. -/
theorem isForbidden_of_amount (h : isDigit ch = true ∨ ch = 46) : isForbidden allowEquals ch = false := by
  cases h with
  | inl hdigit =>
    have hrange := isDigit_iff.mp hdigit
    have hne : ∀ other : UInt8, ¬ (48 ≤ other.toNat ∧ other.toNat ≤ 57) → ch ≠ other := by
      rintro other hother rfl
      exact hother hrange
    simp [isForbidden, isControl, reservedChars, equalsSign, questionMark, ampersand, hashSign, UInt8.lt_iff_toNat_lt, hne]
    omega
  | inr hdot =>
    subst hdot
    cases allowEquals <;> rfl

theorem step_eq_ok {scan next : AmountScan} (h : scan.step ch = .ok next) : isDigit ch = true ∨ ch = 46 := by
  unfold AmountScan.step at h
  split at h
  · next hdigit => exact Or.inl hdigit
  · split at h
    · next hdot => exact Or.inr hdot.1
    · cases h

theorem amount_chars {scan scan' : AmountScan} (h : text₁.foldlM AmountScan.step scan = .ok scan') :
    ∀ ch ∈ text₁, isDigit ch = true ∨ ch = 46 := by
  induction text₁ generalizing scan with
  | nil => simp
  | cons ch rest ih =>
    obtain ⟨next, hstep, hrest⟩ := bind_eq_ok.mp h
    exact List.forall_mem_cons.mpr ⟨step_eq_ok hstep, ih hrest⟩

theorem amount_safe (h : validatePositiveDecimalAmount text₁ = .ok ()) : Safe allowEquals text₁ := by
  obtain ⟨_, _, h⟩ := bind_eq_ok.mp h
  obtain ⟨scan, hscan, -⟩ := bind_eq_ok.mp h
  exact fun ch hch => isForbidden_of_amount (amount_chars hscan ch hch)

/-! ## Numbers -/

/-- The byte of a digit. -/
def digitByte (c : Char) : UInt8 := UInt8.ofNat c.toNat

theorem digitByte_toNat {c : Char} (h : c.isDigit = true) : (digitByte c).toNat = c.toNat := by
  have hrange := Lib.Decimal.isDigit_iff.mp h
  simp [digitByte]
  omega

theorem isDigit_digitByte {c : Char} (h : c.isDigit = true) : isDigit (digitByte c) = true := by
  rw [isDigit_iff, digitByte_toNat h]
  exact Lib.Decimal.isDigit_iff.mp h

theorem text_digits {ds : List Char} (h : Digits ds) : ds.flatMap String.utf8EncodeChar = ds.map digitByte := by
  induction ds with
  | nil => rfl
  | cons c ds ih =>
    obtain ⟨hc, hds⟩ := Lib.Decimal.digits_cons.mp h
    have hrange := Lib.Decimal.isDigit_iff.mp hc
    have hsmall : c.val.toNat ≤ 127 := by
      have hval : c.val.toNat = c.toNat := rfl
      omega
    rw [List.flatMap_cons, ih hds, String.utf8EncodeChar, if_pos hsmall]
    rfl

theorem text_toString (n : Nat) : text (toString n) = (Nat.toDigits 10 n).map digitByte := by
  have htext : (toString n).toList = Nat.toDigits 10 n := by simp [toString, Nat.repr]
  rw [text, htext, text_digits (Lib.Decimal.digits_toDigits n)]

theorem parseDigits {field : String} {ds : List Char} (h : Digits ds) (result : Nat)
    (hfits : result * 10 ^ ds.length + value ds ≤ Lib.Machine.uint64Max) :
    (ds.map digitByte).foldlM (parseDigit field) result = .ok (result * 10 ^ ds.length + value ds) := by
  induction ds generalizing result with
  | nil => simp [pure, Except.pure]
  | cons c ds ih =>
    obtain ⟨hc, hds⟩ := Lib.Decimal.digits_cons.mp h
    have hrange := Lib.Decimal.isDigit_iff.mp hc
    have hdigit : (digitByte c).toNat - 48 = Lib.Decimal.digitValue c := by
      rw [digitByte_toNat hc, Lib.Decimal.digitValue]
    have hvalue : result * 10 ^ (c :: ds).length + value (c :: ds) =
        (result * 10 + Lib.Decimal.digitValue c) * 10 ^ ds.length + value ds := by
      rw [Lib.Decimal.value_cons, List.length_cons, pow_succ]
      ring
    rw [hvalue] at hfits ⊢
    have hlow : result * 10 + Lib.Decimal.digitValue c ≤ Lib.Machine.uint64Max := by
      have hone : 1 ≤ 10 ^ ds.length := Nat.one_le_pow _ _ (by omega)
      nlinarith
    have hstep : parseDigit field result (digitByte c) = .ok (result * 10 + Lib.Decimal.digitValue c) := by
      unfold parseDigit
      rw [throwIf_of_not (by simp [isDigit_digitByte hc]), ok_bind]
      dsimp only
      rw [hdigit, throwIf_of_not (by omega)]
      rfl
    rw [List.map_cons, List.foldlM_cons, hstep, ok_bind, ih hds _ hfits]

theorem parsePositiveUint64_text {n : UInt64} (hn : n ≠ 0) (field : String) :
    parsePositiveUint64 (text (toString n.toNat)) field = .ok n := by
  have hdigits := Lib.Decimal.digits_toDigits n.toNat
  have hfits : 0 * 10 ^ (Nat.toDigits 10 n.toNat).length + value (Nat.toDigits 10 n.toNat) ≤ Lib.Machine.uint64Max := by
    have hlt := n.toNat_lt
    simp [Lib.Machine.uint64Max]
    omega
  have hpos : n.toNat ≠ 0 := fun h => hn (UInt64.toNat_inj.mp (by simpa using h))
  rw [parsePositiveUint64, text_toString, throwIf_of_not (by simp), ok_bind, parseDigits hdigits 0 hfits, ok_bind]
  simp [throwIf_of_not, hpos, pure, Except.pure]

theorem text_toString_safe (n : Nat) : Safe allowEquals (text (toString n)) := by
  rw [text_toString]
  intro ch hch
  obtain ⟨c, hc, rfl⟩ := List.mem_map.mp hch
  exact isForbidden_of_amount (Or.inl (isDigit_digitByte (Lib.Decimal.digits_toDigits n c hc)))

/-! ## Records -/

/-- What a reader gives for a command. -/
def BotBinaryTradeCommand.parsed (command : BotBinaryTradeCommand) (transportSuffix : Text) : BotBinaryParsedCommand where
  symbol := command.symbol
  orderType := command.orderType
  amountValue := command.amountValue
  expiryKind := command.expiryKind
  expiryValue := command.expiryValue
  expiryUnit := command.expiryUnit
  transportSuffix := transportSuffix

/-- What the writer checks before it prepares a command. -/
structure Accepted (command : BotBinaryTradeCommand) (direction : Text) : Prop where
  symbol_ne : command.symbol ≠ []
  symbol_safe : Safe false command.symbol
  amount : validatePositiveDecimalAmount command.amountValue = .ok ()
  expiry_ne : command.expiryValue ≠ 0
  endTime : ¬ (command.expiryKind = .endTime ∧ command.expiryUnit ≠ .seconds)
  suffix_ne : effectiveSuffix command ≠ []
  suffix_safe : Safe true (effectiveSuffix command)
  direction : botBinaryDirectionToken command.orderType = .ok direction

variable {command : BotBinaryTradeCommand} {config : BotBinaryAdapterConfig} {prepared : BotBinaryPreparedCommand}
  {direction : Text}

/-- The value of the request: the fields, and the suffix where it is wanted. -/
def requestValue (command : BotBinaryTradeCommand) (config : BotBinaryAdapterConfig) (direction : Text) : Text :=
  if config.includeSuffixInHttpRequest then commandBase command direction ++ effectiveSuffix command
  else commandBase command direction

theorem prepare_eq_ok (h : prepareBotBinaryCommand command config = .ok prepared) :
    ∃ direction, Accepted command direction ∧ config.httpBaseUrl ≠ [] ∧ prepared =
      { idempotencyKey := command.idempotencyKey
        requestQueryValue := requestValue command config direction
        httpUrl := config.httpBaseUrl ++ querySeparator config.httpBaseUrl ++ requestKey ++
          percentEncodeQueryValue (requestValue command config direction)
        fileName := commandBase command direction ++ effectiveSuffix command ++ text ".txt"
        transportSuffix := effectiveSuffix command } := by
  obtain ⟨_, hsymbol, h⟩ := bind_eq_ok.mp h
  obtain ⟨_, hamount, h⟩ := bind_eq_ok.mp h
  obtain ⟨_, -, h⟩ := bind_eq_ok.mp h
  obtain ⟨_, hexpiry, h⟩ := bind_eq_ok.mp h
  obtain ⟨_, hend, h⟩ := bind_eq_ok.mp h
  obtain ⟨_, hsuffix, h⟩ := bind_eq_ok.mp h
  obtain ⟨direction, hdirection, h⟩ := bind_eq_ok.mp h
  obtain ⟨url, hurl, h⟩ := bind_eq_ok.mp h
  obtain ⟨_, hbase, hurl⟩ := bind_eq_ok.mp hurl
  obtain ⟨hsymbol, hsymbolSafe⟩ := validateBotBinaryToken_eq_ok.mp hsymbol
  obtain ⟨hsuffix, hsuffixSafe⟩ := validateBotBinaryToken_eq_ok.mp hsuffix
  refine ⟨direction, ?_, throwIf_eq_ok.mp hbase, ?_⟩
  · exact ⟨hsymbol, hsymbolSafe, hamount, throwIf_eq_ok.mp hexpiry, throwIf_eq_ok.mp hend, hsuffix, hsuffixSafe, hdirection⟩
  · cases hurl
    cases h
    rfl

/-- A record without its last field: six fields that are followed by the equals sign. -/
theorem splitBotBinaryTokens_record {fields : List Text} (h : ∀ field ∈ fields, equalsSign ∉ field) (suffix : Text) :
    splitBotBinaryTokens (fields.flatMap (· ++ [equalsSign]) ++ suffix) = fields ++ splitBotBinaryTokens suffix := by
  induction fields with
  | nil => rfl
  | cons field fields ih =>
    have hrest := ih fun other hother => h other (by simp [hother])
    rw [splitBotBinaryTokens] at hrest ⊢
    simp only [List.flatMap_cons, List.append_assoc, List.cons_append]
    rw [List.splitOn_append_cons_self_of_not_mem (h field (by simp))]
    simpa using hrest

/-- The fields before the suffix. -/
def commandFields (command : BotBinaryTradeCommand) (direction : Text) : List Text :=
  [command.symbol, direction, command.amountValue, expiryFieldToken command.expiryKind,
    text (toString command.expiryValue.toNat), botBinaryTimeUnitToken command.expiryUnit]

theorem commandBase_eq : commandBase command direction = (commandFields command direction).flatMap (· ++ [equalsSign]) := by
  have htext : text "=" = [equalsSign] := rfl
  simp [commandBase, commandFields, htext]

theorem direction_safe (h : botBinaryDirectionToken command.orderType = .ok direction) : Safe allowEquals direction := by
  unfold botBinaryDirectionToken at h
  split at h
  · cases h
    cases allowEquals <;> unfold Safe <;> decide +kernel
  · cases h
    cases allowEquals <;> unfold Safe <;> decide +kernel
  · cases h

theorem expiryFieldToken_safe (kind : BotBinaryExpiryKind) : Safe allowEquals (expiryFieldToken kind) := by
  cases kind <;> cases allowEquals <;> unfold Safe <;> decide +kernel

theorem botBinaryTimeUnitToken_safe (unit : BotBinaryTimeUnit) : Safe allowEquals (botBinaryTimeUnitToken unit) := by
  cases unit <;> cases allowEquals <;> unfold Safe <;> decide +kernel

theorem commandFields_safe (h : Accepted command direction) : ∀ field ∈ commandFields command direction, Safe false field := by
  simp only [commandFields, List.forall_mem_cons, List.not_mem_nil, IsEmpty.forall_iff, implies_true, and_true]
  exact ⟨h.symbol_safe, direction_safe h.direction, amount_safe h.amount, expiryFieldToken_safe _, text_toString_safe _,
    botBinaryTimeUnitToken_safe _⟩

/-! ## Reading a record -/

@[simp] theorem botBinaryOrderTypeFromDirection_token (h : botBinaryDirectionToken command.orderType = .ok direction) :
    botBinaryOrderTypeFromDirection direction = .ok command.orderType := by
  cases horder : command.orderType <;> rw [horder] at h <;> cases h <;> rfl

@[simp] theorem expiryKindFromToken_token (kind : BotBinaryExpiryKind) :
    expiryKindFromToken (expiryFieldToken kind) = .ok kind := by
  cases kind <;> rfl

@[simp] theorem botBinaryTimeUnitFromToken_token (unit : BotBinaryTimeUnit) :
    botBinaryTimeUnitFromToken (botBinaryTimeUnitToken unit) = .ok unit := by
  cases unit <;> rfl

/-- A record is read with any suffix that may be there. -/
theorem parseBotBinaryValue_record (h : Accepted command direction) {suffix : Text} {requireSuffix : Bool}
    (hsafe : Safe true suffix) (hneeded : requireSuffix = true → suffix ≠ []) :
    parseBotBinaryValue (commandBase command direction ++ suffix) requireSuffix = .ok (command.parsed suffix) := by
  have hequals : ∀ field ∈ commandFields command direction, equalsSign ∉ field :=
    fun field hfield => (commandFields_safe h field hfield).notMem rfl
  obtain ⟨token, tokens, htokens⟩ := List.exists_cons_of_ne_nil (List.splitOn_ne_nil equalsSign suffix)
  have hjoin : joinSuffixTokens (token :: tokens) 0 = suffix := by
    rw [joinSuffixTokens, List.drop_zero, ← htokens]
    exact List.intercalate_splitOn equalsSign
  have hvalid : validateSuffix suffix = .ok () := by
    unfold validateSuffix
    split
    · rfl
    · next hne => exact validateBotBinaryToken_eq_ok.mpr ⟨hne, hsafe⟩
  have hsymbol : validateBotBinaryToken command.symbol "symbol" false = .ok () :=
    validateBotBinaryToken_eq_ok.mpr ⟨h.symbol_ne, h.symbol_safe⟩
  have hmissing : ¬ ((requireSuffix : Prop) ∧ suffix = []) := fun hboth => hneeded hboth.1 hboth.2
  rw [parseBotBinaryValue, commandBase_eq, splitBotBinaryTokens_record hequals, splitBotBinaryTokens, htokens]
  simp only [commandFields, List.cons_append, List.nil_append, botBinaryOrderTypeFromDirection_token h.direction,
    expiryKindFromToken_token, parsePositiveUint64_text h.expiry_ne, botBinaryTimeUnitFromToken_token, hjoin, hsymbol,
    h.amount, throwIf_of_not h.endTime, throwIf_of_not hmissing, hvalid, ok_bind]
  rfl

/-! ## Files -/

theorem commandBase_safe (h : Accepted command direction) : Safe true (commandBase command direction) := by
  rw [commandBase_eq]
  intro ch hch
  obtain ⟨field, hfield, hch⟩ := List.mem_flatMap.mp hch
  cases List.mem_append.mp hch with
  | inl hch =>
    have hsafe := commandFields_safe h field hfield ch hch
    simp only [isForbidden, Bool.not_false, Bool.and_true, Bool.or_eq_false_iff] at hsafe
    simpa [isForbidden, hsafe.1.1] using hsafe.2
  | inr hch =>
    obtain rfl := List.mem_singleton.mp hch
    rfl

theorem fileLeafName_eq_self {name : Text} (h : Safe true name) : fileLeafName name = name := by
  rw [fileLeafName, List.rtakeWhile_eq_self_iff]
  intro ch hch
  have hslash : ch ≠ 47 := by
    rintro rfl
    exact h.notMem rfl hch
  have hbackslash : ch ≠ 92 := by
    rintro rfl
    exact h.notMem rfl hch
  simp [hslash, hbackslash]

theorem stripTxtExtension_append (name : Text) : stripTxtExtension (name ++ text ".txt") = .ok name := by
  have hsuffix : (text ".txt").isSuffixOf (name ++ text ".txt") = true := by simp
  rw [stripTxtExtension, if_pos hsuffix]
  simp

theorem txt_safe : Safe true (text ".txt") := by
  unfold Safe
  decide +kernel

theorem parse_fileName (h : Accepted command direction) :
    parseBotBinaryFileSignalName (commandBase command direction ++ effectiveSuffix command ++ text ".txt") =
      .ok (command.parsed (effectiveSuffix command)) := by
  have hsafe := ((commandBase_safe h).append h.suffix_safe).append txt_safe
  rw [parseBotBinaryFileSignalName, fileLeafName_eq_self hsafe, stripTxtExtension_append, ok_bind]
  exact parseBotBinaryValue_record h h.suffix_safe fun _ => h.suffix_ne

/-! ## Percent escapes -/

/-- The two digits of an escape are read as the halves of the byte. -/
theorem hexValue_hexDigit : ∀ ch : UInt8, hexValue (hexDigit (ch >>> 4 &&& 0x0f)) = some (ch >>> 4 &&& 0x0f) ∧
    hexValue (hexDigit (ch &&& 0x0f)) = some (ch &&& 0x0f) ∧ (ch >>> 4 &&& 0x0f) <<< 4 ||| (ch &&& 0x0f) = ch := by
  decide +kernel

theorem isUnreserved_percentSign : isUnreservedQueryChar percentSign = false := rfl

theorem percentDecode_plain {ch : UInt8} (h : ch ≠ percentSign) (rest : Text) :
    percentDecodeQueryValue (ch :: rest) = (ch :: ·) <$> percentDecodeQueryValue rest := by
  rw [percentDecodeQueryValue.eq_def]
  simp [h]

theorem percentDecode_encodeChar (ch : UInt8) (rest : Text) :
    percentDecodeQueryValue (encodeChar ch ++ rest) = (ch :: ·) <$> percentDecodeQueryValue rest := by
  unfold encodeChar
  split
  · next hunreserved =>
    have hne : ch ≠ percentSign := by
      rintro rfl
      rw [isUnreserved_percentSign] at hunreserved
      cases hunreserved
    rw [List.singleton_append, percentDecode_plain hne]
  · obtain ⟨hhigh, hlow, hjoined⟩ := hexValue_hexDigit ch
    simp only [List.cons_append, List.nil_append]
    rw [percentDecodeQueryValue, if_neg (by simp)]
    simp only [hhigh, hlow, hjoined]

/-- Decoding undoes encoding. -/
theorem percentDecode_percentEncode (value : Text) : percentDecodeQueryValue (percentEncodeQueryValue value) = .ok value := by
  induction value with
  | nil => rfl
  | cons ch value ih =>
    rw [percentEncodeQueryValue, List.flatMap_cons, percentDecode_encodeChar]
    rw [percentEncodeQueryValue] at ih
    rw [ih]
    rfl

theorem encodeChar_plain : ∀ ch : UInt8, questionMark ∉ encodeChar ch ∧ hashSign ∉ encodeChar ch ∧ ampersand ∉ encodeChar ch := by
  decide +kernel

/-- What ends a query or a part of it does not occur in an encoded value. -/
theorem percentEncode_plain (value : Text) : questionMark ∉ percentEncodeQueryValue value ∧
    hashSign ∉ percentEncodeQueryValue value ∧ ampersand ∉ percentEncodeQueryValue value := by
  have hplain := encodeChar_plain
  simp only [percentEncodeQueryValue, List.mem_flatMap, not_exists, not_and]
  exact ⟨fun ch _ => (hplain ch).1, fun ch _ => (hplain ch).2.1, fun ch _ => (hplain ch).2.2⟩

/-! ## Signals from commands -/

/-- A duration is its value in the largest exact unit, times the unit. -/
theorem largestUnit_mul (d : UInt64) : (largestUnit d).1 * unitSeconds (largestUnit d).2 = d ∧
    (largestUnit d).1.toNat * (unitSeconds (largestUnit d).2).toNat = d.toNat := by
  have hexact : ∀ n : UInt64, n ≠ 0 → d % n = 0 → d / n * n = d ∧ (d / n).toNat * n.toNat = d.toNat := by
    intro n hn hmod
    have hmod' : d.toNat % n.toNat = 0 := by
      rw [← UInt64.toNat_mod, hmod]
      rfl
    have hnat : d.toNat / n.toNat * n.toNat = d.toNat := Nat.div_mul_cancel (Nat.dvd_of_mod_eq_zero hmod')
    refine ⟨?_, by rw [UInt64.toNat_div, hnat]⟩
    apply UInt64.toNat_inj.mp
    rw [UInt64.toNat_mul, UInt64.toNat_div, hnat, Nat.mod_eq_of_lt d.toNat_lt]
  unfold largestUnit
  split
  · next hhours => exact hexact 3600 (by decide) hhours
  · split
    · next hminutes => exact hexact 60 (by decide) hminutes
    · simp [unitSeconds]

section Signals

variable {F : Type} {stod : Text → Option F} {command : BotBinaryTradeCommand} {suffix signalName : Text} {amount : F}

theorem toTradeSignal_endTime {expiryTime : Int64} (hamount : stod command.amountValue = some amount)
    (hpositive : 0 < expiryTime) (hkind : command.expiryKind = .endTime)
    (hvalue : command.expiryValue = expiryTime.toUInt64) :
    botBinaryToTradeSignal stod (command.parsed suffix) signalName = .ok
      { symbol := command.symbol, signalName, orderType := command.orderType, amount, optionType := .classic
        expiryTime := expiryTime.toInt } := by
  have hle : (0 : Int64) ≤ expiryTime := Int64.le_of_lt hpositive
  have hnat : (expiryTime.toUInt64.toNat : Int) = expiryTime.toInt := by
    rw [Int64.toNat_toUInt64_of_le hle, Int64.cast_toNatClampNeg _ hle]
  have hfits : ¬ Lib.Machine.int64Max < expiryTime.toInt := by
    have hlt := expiryTime.toInt_lt
    simp only [Lib.Machine.int64Max]
    omega
  simp only [botBinaryToTradeSignal, BotBinaryTradeCommand.parsed, hamount, hkind, hvalue, hnat, throwIf_of_not hfits, ok_bind]
  rfl

theorem toTradeSignal_duration {duration : UInt32} (hamount : stod command.amountValue = some amount)
    (hkind : command.expiryKind = .duration)
    (hvalue : (command.expiryValue, command.expiryUnit) = largestUnit duration.toUInt64) :
    botBinaryToTradeSignal stod (command.parsed suffix) signalName = .ok
      { symbol := command.symbol, signalName, orderType := command.orderType, amount, optionType := .sprint
        duration := duration } := by
  obtain ⟨hproduct, hnat⟩ := largestUnit_mul duration.toUInt64
  rw [← hvalue] at hproduct hnat
  have hunit : 0 < (unitSeconds command.expiryUnit).toNat := by cases command.expiryUnit <;> decide
  have hsmall : duration.toUInt64.toNat < 2 ^ 32 := by
    rw [UInt32.toNat_toUInt64]
    exact duration.toNat_lt
  have hfits : ¬ UInt64.ofNat Lib.Machine.uint64Max / unitSeconds command.expiryUnit < command.expiryValue := by
    rw [UInt64.lt_iff_toNat_lt, UInt64.toNat_div, not_lt, Nat.le_div_iff_mul_le hunit, hnat]
    exact hsmall.le.trans (by decide)
  have hseconds : botBinaryDurationSeconds (command.parsed suffix) = .ok duration.toUInt64 := by
    simp only [botBinaryDurationSeconds, BotBinaryTradeCommand.parsed, hkind, throwIf_of_not hfits, hproduct, ok_bind]
    rfl
  have hrange : ¬ 0xffffffff < duration.toUInt64 := by
    rw [UInt64.lt_iff_toNat_lt, not_lt]
    exact Nat.le_of_lt_succ hsmall
  have hkind' : (command.parsed suffix).expiryKind = .duration := hkind
  have hamount' : stod (command.parsed suffix).amountValue = some amount := hamount
  simp only [botBinaryToTradeSignal, hamount', hkind', hseconds, ok_bind, throwIf_of_not hrange, UInt32.toUInt32_toUInt64]
  rfl


end Signals

end OptionX.BotBinary
