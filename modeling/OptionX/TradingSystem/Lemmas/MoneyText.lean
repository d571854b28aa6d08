import OptionX.TradingSystem.Lemmas.Sizing

/-!
# Reading and writing decimal money

What each part of `MoneyAmount.fromDecimal` reads, and which numerals it accepts.
-/

namespace OptionX.TradingSystem

open Lib.Decimal Lib.Machine

namespace MoneyAmount

/-! ## The parts of a text -/

theorem isDigit_ne_dot {c : Char} (h : c.isDigit = true) : (c != '.') = true := by
  simp only [bne_iff_ne]
  rintro rfl
  cases h

theorem takeWhile_dot {ds : List Char} (rest : List Char) (h : Digits ds)
    (hrest : rest = [] ∨ rest.head? = some '.') :
    (ds ++ rest).takeWhile (· != '.') = ds ∧ (ds ++ rest).dropWhile (· != '.') = rest := by
  have hds : ∀ c ∈ ds, (c != '.') = true := fun c hc => isDigit_ne_dot (h c hc)
  rw [List.takeWhile_append_of_pos hds, List.dropWhile_append_of_pos hds]
  cases rest with
  | nil => simp
  | cons c rest =>
      have : c = '.' := by simpa using hrest
      subst this
      simp

theorem dot_not_mem {ds : List Char} (h : Digits ds) : '.' ∉ ds := by
  intro hc
  cases h _ hc

/-- What follows the sign. -/
def unsignedText (n : Numeral) : List Char :=
  n.whole ++ match n.fraction with
    | none => []
    | some fraction => '.' :: fraction

theorem unsignedText_ne_nil (n : Numeral) : unsignedText n ≠ [] := by
  have h := n.nonempty
  unfold unsignedText
  cases hf : n.fraction with
  | none => simpa [hf] using h
  | some fraction => simp

/-- The text after the sign begins with a digit or the point. -/
theorem unsignedText_head (n : Numeral) {c : Char} (h : (unsignedText n).head? = some c) : c ≠ '-' ∧ c ≠ '+' := by
  have hwhole := n.whole_digits
  have hne := n.nonempty
  unfold unsignedText at h
  cases hw : n.whole with
  | nil =>
      cases hf : n.fraction with
      | none => simp [hw, hf] at hne
      | some fraction =>
          have : c = '.' := by simpa [hw, hf] using h.symm
          subst this
          decide
  | cons d ds =>
      have hcd : c = d := by simpa [hw] using h.symm
      have hd : c.isDigit = true := hwhole c (by simp [hw, hcd])
      constructor <;> (rintro rfl; cases hd)

theorem unsignedText_parts (n : Numeral) :
    (unsignedText n).takeWhile (· != '.') = n.whole ∧ ((unsignedText n).dropWhile (· != '.')).tail = n.decimals := by
  have h := takeWhile_dot (match n.fraction with
    | none => []
    | some fraction => '.' :: fraction) n.whole_digits (by cases n.fraction <;> simp)
  unfold unsignedText
  rw [h.1, h.2]
  constructor
  · rfl
  · unfold Numeral.decimals
    cases n.fraction <;> rfl

theorem decimalParts_text (n : Numeral) : decimalParts n.text = some (n.sign == .minus, n.whole, n.decimals) := by
  have hbody : n.text = n.sign.text ++ unsignedText n := rfl
  have hne := unsignedText_ne_nil n
  have hempty : (n.whole.isEmpty && n.decimals.isEmpty) = false := by
    have h := n.nonempty
    unfold Numeral.decimals
    cases hw : n.whole <;> simp_all
  obtain ⟨htake, hdrop⟩ := unsignedText_parts n
  have hdot := dot_not_mem n.decimals_digits
  have hhead := fun c => unsignedText_head n (c := c)
  rw [hbody, decimalParts]
  generalize unsignedText n = body at *
  cases body with
  | nil => exact absurd rfl hne
  | cons c rest =>
      obtain ⟨hminus, hplus⟩ := hhead c rfl
      have hm : (c == '-') = false := by simpa using hminus
      have hp : (c == '+') = false := by simpa using hplus
      cases hsign : n.sign with
      | absent => simp [Sign.text, hm, hp, htake, hdrop, hdot, hempty]
      | plus => simp [Sign.text, htake, hdrop, hdot, hempty]
      | minus => simp [Sign.text, htake, hdrop, hdot, hempty]

/-- A text without a sign, taken apart at its first point. -/
theorem exists_fraction (body : List Char) : ∃ fraction : Option (List Char),
    body = body.takeWhile (· != '.') ++ (match fraction with
      | none => []
      | some fraction => '.' :: fraction) ∧
    (body.dropWhile (· != '.')).tail = fraction.getD [] := by
  have hsplit := List.takeWhile_append_dropWhile (p := (· != '.')) (l := body)
  have hhead := List.head?_dropWhile_not (· != '.') body
  cases hdrop : body.dropWhile (· != '.') with
  | nil =>
      rw [hdrop] at hsplit
      exact ⟨none, hsplit.symm, rfl⟩
  | cons c rest =>
      have hc : c = '.' := by simpa [hdrop] using hhead
      rw [hdrop, hc] at hsplit
      exact ⟨some rest, hsplit.symm, rfl⟩

/-- A text is its sign and what follows it. -/
theorem exists_sign (text : List Char) : ∃ sign : Sign, text = sign.text ++
    (if text.head? == some '-' || text.head? == some '+' then text.tail else text) ∧
    (sign == .minus) = (text.head? == some '-') := by
  cases text with
  | nil => exact ⟨.absent, rfl, rfl⟩
  | cons c rest =>
      by_cases hm : c = '-'
      · exact ⟨.minus, by simp [hm, Sign.text], by simp [hm]⟩
      · by_cases hp : c = '+'
        · exact ⟨.plus, by simp [hp, Sign.text], by simp [hp]⟩
        · exact ⟨.absent, by simp [hm, hp, Sign.text], by simp [hm]⟩

theorem decimalParts_some {text whole decimals : List Char} {negative : Bool}
    (h : decimalParts text = some (negative, whole, decimals)) (hw : Digits whole) (hd : Digits decimals) :
    ∃ n : Numeral, n.text = text ∧ (n.sign == .minus) = negative ∧ n.whole = whole ∧ n.decimals = decimals := by
  obtain ⟨sign, hsign, hminus⟩ := exists_sign text
  unfold decimalParts at h
  dsimp only at h
  generalize (if text.head? == some '-' || text.head? == some '+' then text.tail else text) = body at h hsign
  obtain ⟨fraction, hbody, hfraction⟩ := exists_fraction body
  generalize List.takeWhile (· != '.') body = front at h hbody
  rw [hfraction] at h
  by_cases hguard : (body.isEmpty || (fraction.getD []).contains '.' ||
      (front.isEmpty && (fraction.getD []).isEmpty)) = true
  · rw [if_pos hguard] at h
    cases h
  · rw [if_neg hguard] at h
    cases h
    have hne : whole ++ fraction.getD [] ≠ [] := by
      intro hnil
      simp only [List.append_eq_nil_iff] at hnil
      simp [hnil.1, hnil.2] at hguard
    exact ⟨⟨sign, whole, fraction, digits_append.mpr ⟨hw, hd⟩, hne⟩,
      hsign.trans (congrArg (sign.text ++ ·) hbody) |>.symm, hminus, rfl, rfl⟩

/-! ## The digits -/

theorem readWhole_eq (ds : List Char) (whole : Nat) (hwhole : whole ≤ uint64Max) :
    readWhole whole ds =
      .ok (if ds.all (·.isDigit) ∧ whole * 10 ^ ds.length + value ds ≤ uint64Max then
        some (whole * 10 ^ ds.length + value ds) else none) := by
  induction ds generalizing whole with
  | nil => simp [readWhole, hwhole]
  | cons c ds ih =>
      rw [readWhole]
      by_cases hc : c.isDigit
      · have hdigit := digitValue_lt hc
        have hvalue : whole * 10 ^ (c :: ds).length + value (c :: ds) =
            (whole * 10 + digitValue c) * 10 ^ ds.length + value ds := by
          rw [value_cons, List.length_cons, pow_succ]
          ring
        have hmono : whole * 10 + digitValue c ≤ (whole * 10 + digitValue c) * 10 ^ ds.length :=
          Nat.le_mul_of_pos_right _ (by positivity)
        rw [hvalue]
        by_cases hover : (uint64Max - digitValue c) / 10 < whole
        · have : ¬ (whole * 10 + digitValue c) * 10 ^ ds.length + value ds ≤ uint64Max := by omega
          simp [hc, hover, this]
        · have hten : whole * 10 + digitValue c ≤ uint64Max := by
            unfold uint64Max at *
            omega
          simp [hc, hover, u64_ok (by omega : whole * 10 ≤ uint64Max), u64_ok hten, ih _ hten]
      · simp [hc]

theorem readFraction_eq (ds : List Char) (stored fraction k : Nat) (hfraction : fraction < 10 ^ k)
    (hk : k + stored ≤ 18) :
    readFraction stored fraction ds =
      .ok (if ds.all (·.isDigit) ∧ (ds.drop stored).all (· == '0') then
        some (fraction * 10 ^ (min ds.length stored) + value (ds.take stored)) else none) := by
  induction ds generalizing stored fraction k with
  | nil => simp [readFraction]
  | cons c ds ih =>
      rw [readFraction]
      by_cases hc : c.isDigit
      · have hdigit := digitValue_lt hc
        cases stored with
        | zero =>
            by_cases hzero : c = '0'
            · simp [hzero, ih 0 fraction k hfraction (by omega)]
            · simp [hc, hzero]
        | succ stored =>
            have hpow : (10 : Nat) ^ (k + 1) ≤ 10 ^ 18 := Nat.pow_le_pow_right (by decide) (by omega)
            have hnext : fraction * 10 + digitValue c < 10 ^ (k + 1) := by
              rw [pow_succ]
              omega
            have hvalue : fraction * 10 ^ (min (c :: ds).length (stored + 1)) + value ((c :: ds).take (stored + 1)) =
                (fraction * 10 + digitValue c) * 10 ^ (min ds.length stored) + value (ds.take stored) := by
              have hmin : min (c :: ds).length (stored + 1) = min ds.length stored + 1 := by
                simp [Nat.add_min_add_right]
              rw [List.take_succ_cons, value_cons, List.length_take, hmin, pow_succ, Nat.min_comm stored]
              ring
            have hten : fraction * 10 ≤ uint64Max := by unfold uint64Max; omega
            have hsum : fraction * 10 + digitValue c ≤ uint64Max := by unfold uint64Max; omega
            rw [hvalue]
            simp [hc, u64_ok hten, u64_ok hsum, ih stored _ (k + 1) hnext (by omega)]
      · simp [hc]

theorem padFraction_eq (missing fraction k : Nat) (hfraction : fraction < 10 ^ k) (hk : k + missing ≤ 18) :
    padFraction missing fraction = .ok (fraction * 10 ^ missing) := by
  induction missing generalizing fraction k with
  | zero => simp [padFraction]
  | succ missing ih =>
      have hpow : (10 : Nat) ^ (k + 1) ≤ 10 ^ 18 := Nat.pow_le_pow_right (by decide) (by omega)
      have hnext : fraction * 10 < 10 ^ (k + 1) := by rw [pow_succ]; omega
      have hten : fraction * 10 ≤ uint64Max := by unfold uint64Max; omega
      rw [padFraction, u64_ok hten, ok_bind, ih _ (k + 1) hnext (by omega), pow_succ]
      congr 1
      ring

def signed (negative : Bool) (magnitude : Nat) : ℤ := if negative then -magnitude else magnitude

theorem signed_eq (sign : Sign) (magnitude : Nat) :
    sign.factor * sign.factor = 1 ∧ signed (sign == .minus) magnitude = sign.factor * magnitude := by
  cases sign <;> simp [Sign.factor, signed]

theorem signedUnits_eq {negative : Bool} {magnitude : Nat}
    (h : magnitude ≤ if negative then 2 ^ 63 else 2 ^ 63 - 1) :
    signedUnits negative magnitude = .ok (Int64.ofInt (signed negative magnitude)) := by
  unfold signedUnits signed
  cases negative with
  | false =>
      have h : magnitude ≤ 2 ^ 63 - 1 := by simpa using h
      simp [i64_ok (z := (magnitude : ℤ)) (by unfold int64Min; omega) (by unfold int64Max; omega)]
  | true =>
      have h : magnitude ≤ 2 ^ 63 := by simpa using h
      by_cases hmin : magnitude = 2 ^ 63
      · subst hmin
        rfl
      · have hpos := i64_ok (z := (magnitude : ℤ)) (by unfold int64Min; omega) (by unfold int64Max; omega)
        have hneg := i64_ok (z := -(magnitude : ℤ)) (by unfold int64Min; omega) (by unfold int64Max; omega)
        have hguard : ¬ (!true) = true := by decide
        rw [if_neg hguard, if_neg hmin, hpos, ok_bind, hneg]
        rfl

/-! ## The units of a text -/

/-- The magnitude of the stored digits in units of the precision. -/
def storedMagnitude (whole decimals : List Char) (precision : Nat) : Nat :=
  value whole * 10 ^ precision +
    value (decimals.take precision) * 10 ^ (precision - min decimals.length precision)

/-- What a text with these parts is worth, if it can be stored. -/
def storedUnits (negative : Bool) (whole decimals : List Char) (precision : Nat) : Option Int64 :=
  if whole.all (·.isDigit) ∧ decimals.all (·.isDigit) ∧ (decimals.drop precision).all (· == '0') ∧
      storedMagnitude whole decimals precision ≤ (if negative then 2 ^ 63 else 2 ^ 63 - 1) then
    some (Int64.ofInt (signed negative (storedMagnitude whole decimals precision)))
  else none

theorem storedUnits_digits {negative : Bool} {whole decimals : List Char} {precision : Nat} {units : Int64}
    (h : storedUnits negative whole decimals precision = some units) : Digits whole ∧ Digits decimals := by
  simp only [storedUnits, Option.ite_none_right_eq_some] at h
  exact ⟨List.all_eq_true.mp h.1.1, List.all_eq_true.mp h.1.2.1⟩

theorem drop_min_length (ds : List Char) (n : Nat) :
    ds.drop (min ds.length n) = ds.drop n ∧ ds.take (min ds.length n) = ds.take n := by
  rcases Nat.le_total ds.length n with h | h
  · rw [Nat.min_eq_left h]
    simp [List.drop_eq_nil_of_le h, List.take_of_length_le h]
  · rw [Nat.min_eq_right h]
    exact ⟨rfl, rfl⟩

theorem value_take_lt {decimals : List Char} (h : decimals.all (·.isDigit)) (precision : Nat) :
    value (decimals.take precision) < 10 ^ min decimals.length precision := by
  have hdigits : Digits (decimals.take precision) := by
    intro c hc
    exact List.all_eq_true.mp h c (List.mem_of_mem_take hc)
  have hlt := value_lt hdigits
  rwa [List.length_take, Nat.min_comm] at hlt

/-- The stored fraction fills the precision. -/
theorem storedFraction_lt {decimals : List Char} (h : decimals.all (·.isDigit)) (precision : Nat) :
    value (decimals.take precision) * 10 ^ (precision - min decimals.length precision) < 10 ^ precision := by
  have hlt := value_take_lt h precision
  have hpow : 10 ^ precision =
      10 ^ min decimals.length precision * 10 ^ (precision - min decimals.length precision) := by
    rw [← pow_add]
    congr 1
    omega
  rw [hpow]
  exact Nat.mul_lt_mul_of_pos_right hlt (by positivity)

theorem fromDecimal_eq {text whole decimals : List Char} {negative : Bool} {currency : CurrencyType}
    {precision : UInt8} (hparts : decimalParts text = some (negative, whole, decimals))
    (hcurrency : currency ≠ .unknown) (hprecision : precision ≤ maxMoneyPrecision) :
    fromDecimal text currency precision =
      .ok ((storedUnits negative whole decimals precision.toNat).map ({ units := ·, precision, currency })) := by
  have hprecision' : precision.toNat ≤ 18 := UInt8.le_iff_toNat_le.mp hprecision
  have htext : text ≠ [] := by
    rintro rfl
    cases hparts
  have hguard : ¬ (text.isEmpty || decide (maxMoneyPrecision < precision) || currency == .unknown) = true := by
    simp [htext, hcurrency, hprecision]
  rw [fromDecimal, if_neg hguard, hparts]
  dsimp only
  rw [readWhole_eq whole 0 (Nat.zero_le _), ok_bind]
  obtain ⟨hdrop, htake⟩ := drop_min_length decimals precision.toNat
  rw [readFraction_eq decimals (min decimals.length precision.toNat) 0 0 (by decide) (by omega), hdrop, htake]
  simp only [Nat.zero_mul, Nat.zero_add]
  by_cases hwhole : whole.all (·.isDigit) = true
  · by_cases hmax : value whole ≤ uint64Max
    · by_cases hfraction : decimals.all (·.isDigit) = true ∧ (decimals.drop precision.toNat).all (· == '0') = true
      · have hlt := storedFraction_lt hfraction.1 precision.toNat
        have hpow : 10 ^ precision.toNat ≤ 10 ^ 18 := Nat.pow_le_pow_right (by decide) hprecision'
        have hpos : 0 < 10 ^ precision.toNat := by positivity
        have htaken := value_take_lt hfraction.1 precision.toNat
        have hlimit : (if negative then 2 ^ 63 else 2 ^ 63 - 1) ≤ 2 ^ 63 ∧
            2 ^ 63 - 1 ≤ (if negative then 2 ^ 63 else 2 ^ 63 - 1) := by split <;> omega
        rw [if_pos ⟨hwhole, hmax⟩, if_pos hfraction]
        dsimp only [ok_bind]
        rw [padFraction_eq _ _ _ htaken (by omega), ok_bind, powerOfTen_ok (by omega), ok_bind]
        unfold storedUnits
        have hstored : storedMagnitude whole decimals precision.toNat = value whole * 10 ^ precision.toNat +
            value (decimals.take precision.toNat) * 10 ^ (precision.toNat - min decimals.length precision.toNat) := rfl
        generalize value (decimals.take precision.toNat) *
          10 ^ (precision.toNat - min decimals.length precision.toNat) = fraction at *
        generalize 10 ^ precision.toNat = factor at *
        rw [u64Sub_ok (by omega), ok_bind]
        by_cases hover : ((if negative then 2 ^ 63 else 2 ^ 63 - 1) - fraction) / factor < value whole
        · have hbig := (Nat.div_lt_iff_lt_mul hpos).mp hover
          rw [if_pos hover, if_neg fun h => by omega]
          rfl
        · have hfits : value whole * factor + fraction ≤ if negative then 2 ^ 63 else 2 ^ 63 - 1 := by
            rw [Nat.div_lt_iff_lt_mul hpos] at hover
            omega
          have hscaled : value whole * factor ≤ uint64Max := by unfold uint64Max; omega
          have hsum : value whole * factor + fraction ≤ uint64Max := by unfold uint64Max; omega
          rw [if_neg hover, u64_ok hscaled, ok_bind, u64_ok hsum, ok_bind, signedUnits_eq hfits, ok_bind,
            if_pos ⟨hwhole, hfraction.1, hfraction.2, hstored ▸ hfits⟩, hstored]
          rfl
      · have hnone : storedUnits negative whole decimals precision.toNat = none := by
          unfold storedUnits
          rw [if_neg fun h => hfraction ⟨h.2.1, h.2.2.1⟩]
        rw [if_pos ⟨hwhole, hmax⟩, if_neg hfraction, hnone]
        rfl
    · have hnone : storedUnits negative whole decimals precision.toNat = none := by
        have hle : value whole ≤ storedMagnitude whole decimals precision.toNat :=
          (Nat.le_mul_of_pos_right _ (by positivity)).trans (Nat.le_add_right _ _)
        have hlimit : (if negative then 2 ^ 63 else 2 ^ 63 - 1) ≤ 2 ^ 63 := by split <;> omega
        unfold uint64Max at hmax
        unfold storedUnits
        rw [if_neg fun h => by omega]
      rw [if_neg fun h => hmax h.2, hnone]
      rfl
  · have hnone : storedUnits negative whole decimals precision.toNat = none := by
      unfold storedUnits
      rw [if_neg fun h => hwhole h.1]
    rw [if_neg fun h => hwhole h.1, hnone]
    rfl

/-! ## The value of a numeral -/

theorem value_parts (whole decimals : List Char) (precision : Nat) :
    value (whole ++ decimals) * 10 ^ precision =
      storedMagnitude whole decimals precision * 10 ^ decimals.length +
        value (decimals.drop precision) * 10 ^ precision := by
  have hdecimals : value decimals = value (decimals.take precision) * 10 ^ (decimals.length - precision) +
      value (decimals.drop precision) := by
    conv_lhs => rw [← List.take_append_drop precision decimals]
    rw [value_append, List.length_drop]
  have hpow : (10 : Nat) ^ (decimals.length - precision) * 10 ^ precision =
      10 ^ (precision - min decimals.length precision) * 10 ^ decimals.length := by
    rw [← pow_add, ← pow_add]
    congr 1
    omega
  rw [value_append, hdecimals, storedMagnitude]
  calc (value whole * 10 ^ decimals.length +
        (value (decimals.take precision) * 10 ^ (decimals.length - precision) +
          value (decimals.drop precision))) * 10 ^ precision
      = value whole * 10 ^ precision * 10 ^ decimals.length +
          value (decimals.take precision) * (10 ^ (decimals.length - precision) * 10 ^ precision) +
          value (decimals.drop precision) * 10 ^ precision := by ring
    _ = _ := by rw [hpow]; ring

theorem value_drop_lt {decimals : List Char} (h : Digits decimals) (precision : Nat) :
    value (decimals.drop precision) * 10 ^ precision < 10 ^ decimals.length := by
  rcases Nat.le_total decimals.length precision with hle | hle
  · rw [List.drop_eq_nil_of_le hle, value_nil, Nat.zero_mul]
    positivity
  · have hdrop : Digits (decimals.drop precision) := fun c hc => h c (List.mem_of_mem_drop hc)
    have hlt := value_lt hdrop
    rw [List.length_drop] at hlt
    have hpow : (10 : Nat) ^ decimals.length = 10 ^ (decimals.length - precision) * 10 ^ precision := by
      rw [← pow_add]
      congr 1
      omega
    rw [hpow]
    exact Nat.mul_lt_mul_of_pos_right hlt (by positivity)

theorem zeros_iff {ds : List Char} (h : Digits ds) : ds.all (· == '0') = true ↔ value ds = 0 := by
  rw [value_eq_zero h]
  simp

/-- A numeral is a whole number of units exactly when what is not stored is zero. -/
theorem toRat_eq_units (n : Numeral) (precision : Nat) (units : ℤ) :
    n.toRat * 10 ^ precision = units ↔ (n.decimals.drop precision).all (· == '0') = true ∧
      units = signed (n.sign == .minus) (storedMagnitude n.whole n.decimals precision) := by
  have hparts := value_parts n.whole n.decimals precision
  have hrest := value_drop_lt n.decimals_digits precision
  have hzeros := @zeros_iff (n.decimals.drop precision)
    fun c hc => n.decimals_digits c (List.mem_of_mem_drop hc)
  have hpos : (0 : ℚ) < 10 ^ n.decimals.length := by positivity
  rw [hzeros]
  have hvalue : n.toRat * 10 ^ precision =
      (n.sign.factor * (value (n.whole ++ n.decimals) * 10 ^ precision : Nat) : ℤ) / 10 ^ n.decimals.length := by
    unfold Numeral.toRat
    push_cast
    ring
  rw [hvalue, div_eq_iff hpos.ne', hparts]
  generalize storedMagnitude n.whole n.decimals precision = magnitude
  have hpow : (0 : ℤ) < 10 ^ precision := by positivity
  have hpow' : (0 : ℤ) < 10 ^ n.decimals.length := by positivity
  have hiff : value (n.decimals.drop precision) * 10 ^ precision = 0 ↔ value (n.decimals.drop precision) = 0 := by
    simp
  rw [← hiff]
  generalize value (n.decimals.drop precision) * 10 ^ precision = rest at *
  have hcast : ((n.sign.factor * (magnitude * 10 ^ n.decimals.length + rest : Nat) : ℤ) : ℚ) =
      units * 10 ^ n.decimals.length ↔
      n.sign.factor * (magnitude * 10 ^ n.decimals.length + rest : ℤ) = units * 10 ^ n.decimals.length := by
    exact_mod_cast Iff.rfl
  rw [hcast]
  have hrest' : (rest : ℤ) < 10 ^ n.decimals.length := by exact_mod_cast hrest
  generalize (10 : ℤ) ^ n.decimals.length = scale at *
  have hscale : ∀ z : ℤ, z * scale = rest → z = 0 := by
    intro z hz
    by_contra hne
    rcases lt_or_gt_of_ne hne with hlt | hgt
    · nlinarith
    · nlinarith
  obtain ⟨hunit, hsigned⟩ := signed_eq n.sign magnitude
  rw [hsigned]
  generalize n.sign.factor = factor at *
  constructor
  · intro h
    have hrestEq : (factor * units - magnitude) * scale = rest := by
      calc (factor * units - magnitude) * scale = factor * (units * scale) - magnitude * scale := by ring
        _ = factor * factor * (magnitude * scale + rest) - magnitude * scale := by rw [← h]; ring
        _ = rest := by rw [hunit]; ring
    have hzero := hscale _ hrestEq
    rw [hzero, zero_mul] at hrestEq
    constructor
    · exact_mod_cast hrestEq.symm
    · calc units = factor * factor * units := by rw [hunit, one_mul]
        _ = factor * (factor * units - magnitude) + factor * magnitude := by ring
        _ = factor * magnitude := by rw [hzero, mul_zero, zero_add]
  · rintro ⟨hr, rfl⟩
    rw [hr]
    push_cast
    ring

theorem storedUnits_eq_some {n : Numeral} {precision : Nat} {units : Int64} :
    storedUnits (n.sign == .minus) n.whole n.decimals precision = some units ↔
      ∃ z : ℤ, n.toRat * 10 ^ precision = z ∧ int64Min ≤ z ∧ z ≤ int64Max ∧ units = Int64.ofInt z := by
  have hwhole : n.whole.all (·.isDigit) = true := List.all_eq_true.mpr n.whole_digits
  have hdecimals : n.decimals.all (·.isDigit) = true := List.all_eq_true.mpr n.decimals_digits
  have hlimit : storedMagnitude n.whole n.decimals precision ≤
      (if (n.sign == .minus) = true then 2 ^ 63 else 2 ^ 63 - 1) ↔
      int64Min ≤ signed (n.sign == .minus) (storedMagnitude n.whole n.decimals precision) ∧
        signed (n.sign == .minus) (storedMagnitude n.whole n.decimals precision) ≤ int64Max := by
    unfold signed int64Min int64Max
    split <;> omega
  simp only [toRat_eq_units, storedUnits, hwhole, hdecimals, true_and, hlimit]
  constructor
  · intro h
    split at h
    · rename_i hstored
      cases h
      exact ⟨_, ⟨hstored.1, rfl⟩, hstored.2.1, hstored.2.2, rfl⟩
    · cases h
  · rintro ⟨z, ⟨hzeros, rfl⟩, hl, hu, rfl⟩
    rw [if_pos ⟨hzeros, hl, hu⟩]

/-! ## Writing -/

theorem unitsMagnitude_eq (units : Int64) : unitsMagnitude units = .ok units.toInt.natAbs := by
  have hl := units.le_toInt
  have hu := units.toInt_lt
  unfold unitsMagnitude
  by_cases h : units < 0
  · have hneg : units.toInt < 0 := Int64.lt_iff_toInt_lt.mp h
    have hnext := i64_ok (z := units.toInt + 1) (by unfold int64Min; omega) (by unfold int64Max; omega)
    have hback := i64_ok (z := -(units.toInt + 1)) (by unfold int64Min; omega) (by unfold int64Max; omega)
    have hmagnitude : (-(units.toInt + 1)).toNat + 1 = units.toInt.natAbs := by omega
    rw [if_pos h, hnext, ok_bind, hback, ok_bind, hmagnitude, u64_ok (by unfold uint64Max; omega)]
  · have hneg : 0 ≤ units.toInt := by
      rw [Int64.lt_iff_toInt_lt] at h
      exact not_lt.mp h
    rw [if_neg h]
    congr 1
    omega

/-- The numeral that is written for these units. -/
def writtenNumeral (units : Int64) (precision : Nat) : Numeral where
  sign := if units < 0 then .minus else .absent
  whole := Nat.toDigits 10 (units.toInt.natAbs / 10 ^ precision)
  fraction :=
    if precision = 0 then none
    else some (List.replicate (precision - (Nat.toDigits 10 (units.toInt.natAbs % 10 ^ precision)).length) '0' ++
      Nat.toDigits 10 (units.toInt.natAbs % 10 ^ precision))
  digits := by
    rw [digits_append]
    refine ⟨digits_toDigits _, ?_⟩
    split
    · simp
    · simp [digits_toDigits]
  nonempty h := Nat.toDigits_ne_nil (List.append_eq_nil_iff.mp h).1

theorem toDecimal_eq {m : MoneyAmount} (h : m.validMetadata = true) :
    m.toDecimal = .ok (writtenNumeral m.units m.precision.toNat).text := by
  have hprecision : m.precision.toNat ≤ 18 := by
    simp only [validMetadata, Bool.and_eq_true, decide_eq_true_eq] at h
    exact UInt8.le_iff_toNat_le.mp h.1
  have hguard : ¬ (!m.validMetadata) = true := by simp [h]
  rw [toDecimal, if_neg hguard, unitsMagnitude_eq, ok_bind, powerOfTen_ok (by omega), ok_bind]
  dsimp only
  by_cases hzero : m.precision = 0
  · have hzero' : m.precision.toNat = 0 := by rw [hzero]; rfl
    rw [if_pos hzero]
    unfold Numeral.text writtenNumeral
    by_cases hneg : m.units < 0 <;> simp [hneg, hzero', Sign.text]
  · have hpos : m.precision.toNat ≠ 0 := fun h0 => hzero (UInt8.toNat_inj.mp h0)
    have hlength := length_toDigits_le (Nat.pos_of_ne_zero hpos)
      (Nat.mod_lt m.units.toInt.natAbs (by positivity : 0 < 10 ^ m.precision.toNat))
    rw [if_neg hzero, u64Sub_ok hlength, ok_bind]
    unfold Numeral.text writtenNumeral
    by_cases hneg : m.units < 0 <;> simp [hneg, hpos, Sign.text]

theorem writtenNumeral_decimals (units : Int64) (precision : Nat) :
    (writtenNumeral units precision).decimals.length = precision ∧
      value (writtenNumeral units precision).decimals = units.toInt.natAbs % 10 ^ precision := by
  by_cases hzero : precision = 0
  · subst hzero
    simp [writtenNumeral, Numeral.decimals, Nat.mod_one]
  · have hlength := length_toDigits_le (Nat.pos_of_ne_zero hzero)
      (Nat.mod_lt units.toInt.natAbs (by positivity : 0 < 10 ^ precision))
    simp [writtenNumeral, Numeral.decimals, hzero, value_append]
    omega

theorem writtenNumeral_toRat (units : Int64) (precision : Nat) :
    (writtenNumeral units precision).toRat * 10 ^ precision = units.toInt := by
  obtain ⟨hlength, hvalue⟩ := writtenNumeral_decimals units precision
  have hwhole : value (writtenNumeral units precision).whole = units.toInt.natAbs / 10 ^ precision := value_toDigits _
  have hsign : (writtenNumeral units precision).sign.factor * units.toInt.natAbs = units.toInt := by
    unfold writtenNumeral
    by_cases hneg : units < 0
    · have : units.toInt < 0 := Int64.lt_iff_toInt_lt.mp hneg
      simp only [hneg, if_true, Sign.factor]
      omega
    · have : 0 ≤ units.toInt := by
        rw [Int64.lt_iff_toInt_lt] at hneg
        exact not_lt.mp hneg
      simp only [hneg, if_false, Sign.factor]
      omega
  rw [toRat_eq_units, (signed_eq _ _).2, storedMagnitude, hlength, Nat.min_self, Nat.sub_self, pow_zero, mul_one,
    List.take_of_length_le hlength.le, List.drop_eq_nil_of_le hlength.le, hvalue, hwhole, Nat.div_add_mod', hsign]
  exact ⟨rfl, rfl⟩

end MoneyAmount

end OptionX.TradingSystem
