import OptionX.Bridges.Canonicalization

/-!
# Decimal literals

The grammar of the texts that are canonicalized, the numbers they denote, and that the scan recognizes exactly them.
-/

namespace OptionX.Bridges

open Lib.Decimal

inductive Sign where
  | none | plus | minus
  deriving DecidableEq

def Sign.text : Sign → List Char
  | .none => []
  | .plus => ['+']
  | .minus => ['-']

def Sign.negative : Sign → Bool
  | .minus => true
  | _ => false

structure Exponent where
  mark : Char
  sign : Sign
  digits : List Char
  isMark : mark = 'e' ∨ mark = 'E'
  isDigits : Digits digits
  ne_nil : digits ≠ []
  /-- The magnitude that the scan goes up to. -/
  le_max : value digits ≤ 99999

structure DecimalLiteral where
  sign : Sign
  whole : List Char
  dot : Bool
  fraction : List Char
  exponent : Option Exponent
  isDigits : Digits (whole ++ fraction)
  ne_nil : whole ++ fraction ≠ []
  dot_of_fraction : fraction ≠ [] → dot = true

def exponentText : Option Exponent → List Char
  | none => []
  | some e => e.mark :: (e.sign.text ++ e.digits)

def exponentValue : Option Exponent → Int
  | none => 0
  | some e => if e.sign.negative then -(value e.digits : Int) else value e.digits

namespace DecimalLiteral

def text (l : DecimalLiteral) : List Char :=
  l.sign.text ++ (l.whole ++ ((if l.dot then '.' :: l.fraction else []) ++ exponentText l.exponent))

/-- The rational number that the literal denotes. -/
def toRat (l : DecimalLiteral) : ℚ :=
  (if l.sign.negative then -1 else 1) * value (l.whole ++ l.fraction) *
    10 ^ (exponentValue l.exponent - l.fraction.length)

end DecimalLiteral

/-! ## The scan -/

section Scan

variable {ds rest text : List Char}

/-- A text that does not begin with a digit. -/
def NoDigit (text : List Char) : Prop := ∀ c ∈ text.head?, c.isDigit = false

theorem splitSign_eq_some {negative : Bool} (h : splitSign text = (negative, rest)) :
    ∃ sign : Sign, text = sign.text ++ rest ∧ sign.negative = negative := by
  unfold splitSign at h
  split at h
  · obtain ⟨rfl, rfl⟩ := Prod.mk.inj h
    exact ⟨.plus, rfl, rfl⟩
  · obtain ⟨rfl, rfl⟩ := Prod.mk.inj h
    exact ⟨.minus, rfl, rfl⟩
  · obtain ⟨rfl, rfl⟩ := Prod.mk.inj h
    exact ⟨.none, rfl, rfl⟩

theorem splitSign_append (sign : Sign) (h : ∀ c ∈ text.head?, c ≠ '+' ∧ c ≠ '-') :
    splitSign (sign.text ++ text) = (sign.negative, text) := by
  cases sign with
  | none =>
      cases text with
      | nil => rfl
      | cons c text =>
          obtain ⟨hplus, hminus⟩ := h c (by simp)
          simp only [Sign.text, List.nil_append]
          unfold splitSign
          split
          · next heq => exact absurd (List.cons.inj heq).1 hplus
          · next heq => exact absurd (List.cons.inj heq).1 hminus
          · rfl
  | plus => rfl
  | minus => rfl

theorem scanExponent_eq_some {e : Int} (h0 : 0 ≤ e) (hmax : e ≤ 99999) {n : Int} :
    scanExponent e text = some n ↔ Digits text ∧ n = e * 10 ^ text.length + value text ∧ n ≤ 99999 := by
  induction text generalizing e with
  | nil =>
      simp only [scanExponent, Option.some.injEq, List.length_nil, pow_zero, mul_one, value_nil, Nat.cast_zero, add_zero,
        Digits.nil, true_and]
      constructor
      · rintro rfl
        exact ⟨rfl, hmax⟩
      · rintro ⟨rfl, -⟩
        rfl
  | cons c text ih =>
      rw [scanExponent]
      split
      · next hc =>
        have hno : ¬ Digits (c :: text) := fun hd => by simp [(digits_cons.mp hd).1] at hc
        simp [hno]
      · next hc =>
        have hc' : c.isDigit = true := by simpa using hc
        have hlt := digitValue_lt hc'
        have hvalue : (value (c :: text) : Int) = digitValue c * 10 ^ text.length + value text := by
          rw [value_cons]
          push_cast
          rfl
        split
        · next hsmall =>
          rw [ih (by omega) (by omega), digits_cons, hvalue, List.length_cons, pow_succ]
          have hsplit : (e * 10 + digitValue c) * 10 ^ text.length + (value text : Int) =
              e * (10 ^ text.length * 10) + (digitValue c * 10 ^ text.length + value text) := by ring
          rw [hsplit]
          simp [hc']
        · next hlarge =>
          -- Any further digit makes the exponent too large.
          have hle : (100000 : Int) ≤ e * 10 ^ (c :: text).length := by
            have hp : (1 : Int) ≤ 10 ^ text.length := one_le_pow₀ (by norm_num)
            rw [List.length_cons, pow_succ]
            nlinarith
          constructor
          · rintro ⟨⟩
          · rintro ⟨-, rfl, hn⟩
            omega

theorem scanScale_exponentText (e : Option Exponent) : scanScale (exponentText e) = some (-exponentValue e) := by
  cases e with
  | none => rfl
  | some e =>
      have hsplit : splitSign (e.sign.text ++ e.digits) = (e.sign.negative, e.digits) := by
        refine splitSign_append _ fun c hc => ?_
        have hdigit := e.isDigits c (List.mem_of_mem_head? hc)
        constructor <;> rintro rfl <;> cases hdigit
      have hscan : scanExponent 0 e.digits = some (value e.digits : Int) := by
        rw [scanExponent_eq_some le_rfl (by norm_num)]
        exact ⟨e.isDigits, by simp, by exact_mod_cast e.le_max⟩
      rw [exponentText, scanScale, if_pos e.isMark, hsplit]
      simp only [e.ne_nil, if_false, hscan, Option.map_some, exponentValue]
      cases e.sign.negative <;> simp

theorem scanScale_eq_some {scale : Int} (h : scanScale text = some scale) :
    ∃ e : Option Exponent, text = exponentText e ∧ scale = -exponentValue e := by
  cases text with
  | nil => exact ⟨none, rfl, by simpa [scanScale, exponentValue] using h.symm⟩
  | cons c text =>
      rw [scanScale] at h
      split at h
      · next hmark =>
        obtain ⟨⟨negative, rest⟩, hsplit⟩ : ∃ r, splitSign text = r := ⟨_, rfl⟩
        obtain ⟨sign, htext, hneg⟩ := splitSign_eq_some hsplit
        rw [hsplit] at h
        dsimp only at h
        split at h
        · cases h
        · next hne =>
          obtain ⟨n, hscan, hn⟩ := Option.map_eq_some_iff.mp h
          obtain ⟨hdigits, hvalue, hmax⟩ := (scanExponent_eq_some le_rfl (by norm_num)).mp hscan
          obtain rfl : n = value rest := by simpa using hvalue
          refine ⟨some ⟨c, sign, rest, hmark, hdigits, hne, by exact_mod_cast hmax⟩, ?_, ?_⟩
          · rw [exponentText, htext]
          · rw [← hn, exponentValue, hneg]
            cases negative <;> simp
      · cases h

/-- After the dot the scan takes the digits up to the first character that is none. -/
theorem scanMantissa_dot {m : Mantissa} (hm : m.sawDot = true) (text : List Char) :
    scanMantissa m text = ({ m with
      digits := m.digits ++ text.takeWhile Char.isDigit
      scale := m.scale + (text.takeWhile Char.isDigit).length
      sawDigit := m.sawDigit || !(text.takeWhile Char.isDigit).isEmpty }, text.dropWhile Char.isDigit) := by
  induction text generalizing m with
  | nil => simp [scanMantissa]
  | cons c text ih =>
      rw [scanMantissa]
      split
      · next hc =>
        rw [ih (by exact hm)]
        simp [hc, hm]
        omega
      · next hc =>
        rw [if_neg (by simp [hm])]
        simp [hc]

/-- Before the dot it takes the digits, and goes on after a dot. -/
theorem scanMantissa_whole {m : Mantissa} (hm : m.sawDot = false) (text : List Char) :
    scanMantissa m text =
      let m' : Mantissa := { m with
        digits := m.digits ++ text.takeWhile Char.isDigit
        sawDigit := m.sawDigit || !(text.takeWhile Char.isDigit).isEmpty }
      match text.dropWhile Char.isDigit with
      | '.' :: rest => scanMantissa { m' with sawDot := true } rest
      | rest => (m', rest) := by
  induction text generalizing m with
  | nil => simp [scanMantissa]
  | cons c text ih =>
      rw [scanMantissa]
      split
      · next hc =>
        rw [ih (by exact hm)]
        simp [hc, hm]
      · next hc =>
        by_cases hdot : c = '.'
        · subst hdot
          simp [hm]
        · rw [if_neg fun h => hdot h.1]
          simp [hc, hdot]

theorem takeWhile_digits (hds : Digits ds) (hrest : NoDigit rest) :
    (ds ++ rest).takeWhile Char.isDigit = ds ∧ (ds ++ rest).dropWhile Char.isDigit = rest := by
  rw [List.takeWhile_append_of_pos hds, List.dropWhile_append_of_pos hds]
  cases rest with
  | nil => simp
  | cons c rest =>
      have hc := hrest c (by simp)
      simp [hc]

theorem noDigit_exponentText (e : Option Exponent) : NoDigit (exponentText e) := by
  intro c hc
  cases e with
  | none => cases hc
  | some e =>
      obtain rfl : e.mark = c := by simpa [exponentText] using hc
      rcases e.isMark with h | h <;> rw [h] <;> rfl

/-- The scan of the digits of a literal stops at its exponent. -/
theorem scanMantissa_literal (l : DecimalLiteral) :
    scanMantissa {} (l.whole ++ ((if l.dot then '.' :: l.fraction else []) ++ exponentText l.exponent)) =
      (⟨l.whole ++ l.fraction, l.fraction.length, true, l.dot⟩, exponentText l.exponent) := by
  have hwhole := (digits_append.mp l.isDigits).1
  have hfraction := (digits_append.mp l.isDigits).2
  have hne := l.ne_nil
  rw [scanMantissa_whole rfl]
  cases hdot : l.dot with
  | true =>
      have hnoDigit : NoDigit ('.' :: (l.fraction ++ exponentText l.exponent)) := by
        intro c hc
        obtain rfl : '.' = c := by simpa using hc
        rfl
      obtain ⟨htake, hdrop⟩ := takeWhile_digits hwhole hnoDigit
      obtain ⟨htake', hdrop'⟩ := takeWhile_digits hfraction (noDigit_exponentText l.exponent)
      simp only [if_true, List.cons_append, htake, hdrop]
      rw [scanMantissa_dot rfl, htake', hdrop']
      simp only [List.nil_append, Bool.false_or, zero_add, Prod.mk.injEq, Mantissa.mk.injEq, and_true, true_and]
      cases hw : l.whole with
      | nil => simpa [hw] using hne
      | cons c ds => simp
  | false =>
      have hnone : l.fraction = [] := by
        by_contra h
        rw [l.dot_of_fraction h] at hdot
        cases hdot
      obtain ⟨htake, hdrop⟩ := takeWhile_digits hwhole (noDigit_exponentText l.exponent)
      have hwne : l.whole ≠ [] := by simpa [hnone] using hne
      have hstop : ∀ rest, exponentText l.exponent ≠ '.' :: rest := by
        intro rest h
        cases he : l.exponent with
        | none =>
            rw [he] at h
            cases h
        | some e =>
            rw [he] at h
            rcases e.isMark with hmark | hmark <;> rw [exponentText, hmark] at h <;> cases h
      simp only [Bool.false_eq_true, if_false, List.nil_append, htake, hdrop, hnone, List.append_nil]
      simp [hwne]

/-- The scan recognizes exactly the decimal literals. -/
theorem scanDecimal_eq_some {negative : Bool} {scale : Int} : scanDecimal text = some (negative, ds, scale) ↔
    ∃ l : DecimalLiteral, l.text = text ∧ l.sign.negative = negative ∧ l.whole ++ l.fraction = ds ∧
      l.fraction.length - exponentValue l.exponent = scale := by
  constructor
  · intro h
    unfold scanDecimal at h
    obtain ⟨⟨negative', rest⟩, hsplit⟩ : ∃ r, splitSign text = r := ⟨_, rfl⟩
    obtain ⟨sign, htext, hneg⟩ := splitSign_eq_some hsplit
    obtain ⟨⟨m, tail⟩, hscan⟩ : ∃ r, scanMantissa {} rest = r := ⟨_, rfl⟩
    rw [hsplit] at h
    dsimp only at h
    rw [hscan] at h
    dsimp only at h
    split at h
    · cases h
    · next hsaw =>
      obtain ⟨change, hchange, heq⟩ := Option.map_eq_some_iff.mp h
      obtain ⟨e, htail, rfl⟩ := scanScale_eq_some hchange
      have hsaw' : m.sawDigit = true := by simpa using hsaw
      obtain ⟨rfl, rfl, rfl⟩ : negative' = negative ∧ m.digits = ds ∧ m.scale + -exponentValue e = scale := by
        simpa using heq
      have hsplitRest := List.takeWhile_append_dropWhile (p := Char.isDigit) (l := rest)
      have hwhole : Digits (rest.takeWhile Char.isDigit) := fun c hc => List.mem_takeWhile_imp hc
      rw [scanMantissa_whole rfl] at hscan
      dsimp only at hscan
      split at hscan
      · next rest' hdrop =>
        have hsplitRest' := List.takeWhile_append_dropWhile (p := Char.isDigit) (l := rest')
        have hfraction : Digits (rest'.takeWhile Char.isDigit) := fun c hc => List.mem_takeWhile_imp hc
        rw [scanMantissa_dot rfl] at hscan
        obtain ⟨rfl, hrest'⟩ := Prod.mk.inj hscan
        refine ⟨⟨sign, rest.takeWhile Char.isDigit, true, rest'.takeWhile Char.isDigit, e,
          digits_append.mpr ⟨hwhole, hfraction⟩, ?_, fun _ => rfl⟩, ?_, hneg, by simp, ?_⟩
        · intro hnil
          obtain ⟨h1, h2⟩ := List.append_eq_nil_iff.mp hnil
          simp [h1, h2] at hsaw'
        · rw [DecimalLiteral.text, ← htail, ← hrest', htext]
          simp only [if_true, List.cons_append, hsplitRest']
          rw [← hdrop, hsplitRest]
        · simp
          omega
      · obtain ⟨rfl, hrest⟩ := Prod.mk.inj hscan
        refine ⟨⟨sign, rest.takeWhile Char.isDigit, false, [], e, by simpa using hwhole, ?_, fun h => absurd rfl h⟩,
          ?_, hneg, by simp, by simp⟩
        · intro hnil
          rw [List.append_nil] at hnil
          simp [hnil] at hsaw'
        · rw [DecimalLiteral.text, ← htail, ← hrest, htext]
          simp [hsplitRest]
  · rintro ⟨l, rfl, rfl, rfl, rfl⟩
    have hsplit : splitSign l.text = (l.sign.negative,
        l.whole ++ ((if l.dot then '.' :: l.fraction else []) ++ exponentText l.exponent)) := by
      refine splitSign_append _ fun c hc => ?_
      have hdot : c.isDigit = true ∨ c = '.' := by
        cases hw : l.whole with
        | cons d ds =>
            obtain rfl : d = c := by simpa [hw] using hc
            exact .inl (l.isDigits d (by simp [hw]))
        | nil =>
            have hfraction : l.fraction ≠ [] := by simpa [hw] using l.ne_nil
            have htrue := l.dot_of_fraction hfraction
            obtain rfl : '.' = c := by simpa [hw, htrue] using hc
            exact .inr rfl
      constructor <;> rintro rfl <;> rcases hdot with h | h <;> cases h
    unfold scanDecimal
    rw [hsplit]
    dsimp only
    rw [scanMantissa_literal]
    simp only [scanScale_exponentText]
    simp
    omega

end Scan

/-! ## The text of the number -/

section Normalize

variable {ds : List Char} {scale : Int}

/-- The zeros that are taken from the end, one unit of the scale for each; where the scale is left, no zero is. -/
theorem stripZeros_spec (ds : List Char) (scale : Int) : ∃ k : Nat,
    ds = List.replicate k '0' ++ (stripZeros ds scale).1 ∧ (stripZeros ds scale).2 = scale - k ∧
      (0 < (stripZeros ds scale).2 → (stripZeros ds scale).1.head? ≠ some '0') := by
  induction ds generalizing scale with
  | nil => exact ⟨0, by simp [stripZeros]⟩
  | cons c ds ih =>
      rw [stripZeros]
      split
      · next h =>
        obtain ⟨k, hds, hscale, hhead⟩ := ih (scale - 1)
        refine ⟨k + 1, ?_, by rw [hscale]; omega, hhead⟩
        rw [List.replicate_succ, List.cons_append, ← hds, h.2]
      · next h => exact ⟨0, by simp, by simp, fun hpos hzero => h ⟨hpos, by simpa using hzero⟩⟩

theorem value_dropWhile (ds : List Char) : value (ds.dropWhile (· = '0')) = value ds := by
  induction ds with
  | nil => rfl
  | cons c ds ih =>
      by_cases hc : c = '0'
      · rw [List.dropWhile_cons_of_pos (by simpa using hc), ih, value_cons, hc]
        simp [digitValue]
      · rw [List.dropWhile_cons_of_neg (by simpa using hc)]

/-- Digits without a redundant zero at either end, with a scale: the plain notation of the number. -/
theorem normalize_stripped {c : Char} {rest : List Char} (negative : Bool) (hds : Digits (c :: rest)) (hc : c ≠ '0')
    (htrailing : 0 < scale → (c :: rest).getLast? ≠ some '0') : ∃ p : Plain,
      p.text = (if negative then ['-'] else []) ++
        (if scale ≤ 0 then c :: rest ++ List.replicate (-scale).toNat '0'
        else if (c :: rest).length ≤ scale.toNat then
          ['0', '.'] ++ List.replicate (scale.toNat - (c :: rest).length) '0' ++ (c :: rest)
        else
          (c :: rest).take ((c :: rest).length - scale.toNat) ++ ['.'] ++
            (c :: rest).drop ((c :: rest).length - scale.toNat)) ∧
      p.toRat = (if negative then -1 else 1) * value (c :: rest) * 10 ^ (-scale) := by
  have hpos : value (c :: rest) ≠ 0 := fun h0 => hc ((value_eq_zero hds).mp h0 c (by simp))
  by_cases hle : scale ≤ 0
  · simp only [if_pos hle]
    refine ⟨⟨negative, c :: rest ++ List.replicate (-scale).toNat '0', [], by simpa using hds, by simp, ?_, by simp, ?_⟩,
      by simp [Plain.text], ?_⟩
    · intro hhead
      exact absurd (by simpa using hhead) hc
    · rw [List.append_nil, value_append]
      simpa using fun _ => hpos
    · obtain ⟨n, hn⟩ := Int.eq_ofNat_of_zero_le (by omega : 0 ≤ -scale)
      simp only [Plain.toRat, List.append_nil, value_append, value_replicate, List.length_replicate, hn,
        Int.toNat_natCast, List.length_nil, pow_zero, div_one, zpow_natCast]
      push_cast
      ring
  · simp only [if_neg hle]
    obtain ⟨n, hn⟩ := Int.eq_ofNat_of_zero_le (by omega : 0 ≤ scale)
    have hn0 : n ≠ 0 := by omega
    subst hn
    simp only [Int.toNat_natCast]
    have hweight : (10 : ℚ) ^ (-(n : Int)) = 1 / 10 ^ n := by rw [zpow_neg, zpow_natCast, one_div]
    by_cases hlen : (c :: rest).length ≤ n
    · simp only [if_pos hlen]
      have hsum : n - (c :: rest).length + (c :: rest).length = n := Nat.sub_add_cancel hlen
      refine ⟨⟨negative, ['0'], List.replicate (n - (c :: rest).length) '0' ++ (c :: rest), ?_, by simp, by simp, ?_, ?_⟩,
        by simp [Plain.text], ?_⟩
      · simp [digits_append, digits_cons.mp hds]
      · rw [List.getLast?_append_of_ne_nil _ (by simp)]
        exact htrailing (by omega)
      · rw [value_append, value_append]
        simpa [digitValue] using fun _ => hpos
      · simp only [Plain.toRat, value_append, value_replicate, value_singleton, List.length_append, List.length_replicate,
          hweight, hsum]
        simp [digitValue]
        ring_nf
    · simp only [if_neg hlen]
      have hdrop : ((c :: rest).drop ((c :: rest).length - n)).length = n := by
        rw [List.length_drop]
        omega
      have hne : (c :: rest).drop ((c :: rest).length - n) ≠ [] := by
        intro hnil
        rw [hnil] at hdrop
        exact hn0 hdrop.symm
      obtain ⟨k, hk⟩ : ∃ k, (c :: rest).length - n = k + 1 := ⟨(c :: rest).length - n - 1, by omega⟩
      refine ⟨⟨negative, (c :: rest).take ((c :: rest).length - n), (c :: rest).drop ((c :: rest).length - n), ?_, ?_, ?_,
        ?_, ?_⟩, ?_, ?_⟩
      · rwa [List.take_append_drop]
      · rw [hk, List.take_succ_cons]
        simp
      · intro hhead
        rw [hk, List.take_succ_cons] at hhead
        exact absurd (by simpa using hhead) hc
      · rw [List.getLast?_drop, if_neg (by omega)]
        exact htrailing (by omega)
      · rw [List.take_append_drop]
        exact fun _ => hpos
      · simp [Plain.text]
        omega
      · simp only [Plain.toRat, List.take_append_drop, hdrop, hweight]
        ring

/-- The text that is written denotes the number, in plain notation. -/
theorem normalize_spec (negative : Bool) (hds : Digits ds) (scale : Int) : ∃ p : Plain,
    p.text = normalize negative ds scale ∧ p.toRat = (if negative then -1 else 1) * value ds * 10 ^ (-scale) := by
  have hdigits : Digits (ds.dropWhile (· = '0')) := fun c hc => hds c (List.dropWhile_sublist _ |>.subset hc)
  rw [← value_dropWhile ds]
  unfold normalize
  cases hd : ds.dropWhile (· = '0') with
  | nil =>
      refine ⟨⟨false, ['0'], [], by simp [Digits, Char.isDigit], by simp, by simp, by simp, by simp⟩, by simp [Plain.text], ?_⟩
      simp [Plain.toRat, digitValue]
  | cons c rest =>
      have hc : c ≠ '0' := by
        have := List.head_dropWhile_not (p := (· = '0')) (l := ds) (by simp [hd])
        simpa [hd] using this
      rw [hd] at hdigits
      obtain ⟨k, hsplit, hscale, hhead⟩ := stripZeros_spec (c :: rest).reverse scale
      obtain ⟨⟨rev, scale'⟩, hstrip⟩ : ∃ r, stripZeros (c :: rest).reverse scale = r := ⟨_, rfl⟩
      rw [hstrip] at hsplit hscale hhead
      dsimp only at hsplit hscale hhead
      have hall : c :: rest = rev.reverse ++ List.replicate k '0' := by
        have := congrArg List.reverse hsplit
        simpa using this
      cases hrev : rev.reverse with
      | nil =>
          rw [hrev, List.nil_append] at hall
          exact absurd (List.eq_of_mem_replicate (hall ▸ List.mem_cons_self)) hc
      | cons c' rest' =>
          rw [hrev] at hall
          obtain rfl : c = c' := by simpa using congrArg List.head? hall
          have hdigits' : Digits (c :: rest') := by
            rw [hall] at hdigits
            exact (digits_append.mp hdigits).1
          have htrailing : 0 < scale' → (c :: rest').getLast? ≠ some '0' := by
            rw [← hrev, List.getLast?_reverse]
            exact hhead
          obtain ⟨p, htext, hrat⟩ := normalize_stripped negative hdigits' hc htrailing
          refine ⟨p, ?_, ?_⟩
          · rw [htext]
            dsimp only
            rw [if_neg (List.cons_ne_nil c rest), hstrip]
            dsimp only
            rw [hrev, if_neg (List.cons_ne_nil c rest')]
            split_ifs <;> simp
          · rw [hrat, hall, value_append, value_replicate, List.length_replicate, hscale]
            have hsum : -scale = -(scale - k) + -(k : Int) := by ring
            rw [hsum, zpow_add₀ (by norm_num), zpow_neg _ (k : Int), zpow_natCast]
            push_cast
            field_simp
            ring

end Normalize

/-! ## Trimming -/

theorem trimAsciiCopy_eq_self {text : List Char} (h : ∀ c ∈ text, isSpace c = false) : trimAsciiCopy text = text := by
  have hdrop : text.dropWhile isSpace = text :=
    List.dropWhile_eq_self_iff.mpr fun hl => by simp [h _ (List.getElem_mem hl)]
  rw [trimAsciiCopy, hdrop]
  exact List.rdropWhile_eq_self_iff.mpr fun hl => by simp [h _ (List.getLast_mem hl)]

@[simp] theorem trimAsciiCopy_trimAsciiCopy (text : List Char) :
    trimAsciiCopy (trimAsciiCopy text) = trimAsciiCopy text := by
  have hdrop : (trimAsciiCopy text).dropWhile isSpace = trimAsciiCopy text := by
    refine List.dropWhile_eq_self_iff.mpr fun hl => ?_
    obtain ⟨tail, htail⟩ := List.rdropWhile_prefix isSpace (l := text.dropWhile isSpace)
    obtain ⟨c, rest, htrim⟩ := List.exists_cons_of_length_pos hl
    have hcons : text.dropWhile isSpace = c :: (rest ++ tail) := by
      rw [← htail]
      exact congrArg (· ++ tail) htrim
    have hhead := List.head_dropWhile_not isSpace (l := text) (by simp [hcons])
    simpa [htrim, hcons] using hhead
  rw [trimAsciiCopy, hdrop]
  exact List.rdropWhile_idempotent _ _

/-! ## The canonical text -/

/-- The text is a decimal literal, between white space, of the number. -/
def Denotes (text : List Char) (q : ℚ) : Prop := ∃ l : DecimalLiteral, l.text = trimAsciiCopy text ∧ l.toRat = q

theorem DecimalLiteral.text_ne_nil (l : DecimalLiteral) : l.text ≠ [] := by
  intro h
  obtain ⟨hwhole, hfraction⟩ : l.whole = [] ∧ (l.dot = true → False) := by
    simp only [DecimalLiteral.text, List.append_eq_nil_iff] at h
    refine ⟨h.2.1, fun hdot => ?_⟩
    simp [hdot] at h
  have hne := l.ne_nil
  rw [hwhole] at hne
  exact hfraction (l.dot_of_fraction hne)

theorem canonicalDecimalText_of_literal {text : List Char} {l : DecimalLiteral} (h : l.text = trimAsciiCopy text) :
    ∃ p : Plain, p.text = canonicalDecimalText text ∧ p.toRat = l.toRat := by
  have hscan := scanDecimal_eq_some.mpr ⟨l, rfl, rfl, rfl, rfl⟩
  obtain ⟨p, htext, hrat⟩ := normalize_spec l.sign.negative l.isDigits (l.fraction.length - exponentValue l.exponent)
  refine ⟨p, ?_, ?_⟩
  · unfold canonicalDecimalText
    rw [← h]
    dsimp only
    rw [if_neg l.text_ne_nil, hscan]
    exact htext
  · rw [hrat, DecimalLiteral.toRat, neg_sub]

theorem canonicalDecimalText_of_not_literal {text : List Char} (h : ∀ l : DecimalLiteral, l.text ≠ trimAsciiCopy text) :
    canonicalDecimalText text = trimAsciiCopy text := by
  unfold canonicalDecimalText
  dsimp only
  split
  · rfl
  · split
    · rfl
    · next negative digits scale hscan =>
      obtain ⟨l, hl, -⟩ := scanDecimal_eq_some.mp hscan
      exact absurd hl (h l)

/-- Plain notation is a literal of its number. -/
theorem exists_literal_of_plain (p : Plain) : ∃ l : DecimalLiteral, l.text = p.text ∧ l.toRat = p.toRat := by
  refine ⟨⟨if p.negative then .minus else .none, p.whole, p.fraction ≠ [], p.fraction, none, p.digits, ?_, ?_⟩, ?_, ?_⟩
  · simp [p.whole_ne_nil]
  · simp
  · by_cases hf : p.fraction = [] <;> cases hn : p.negative <;>
      simp [DecimalLiteral.text, Plain.text, Sign.text, exponentText, hn, hf]
  · have hweight : (10 : ℚ) ^ (exponentValue none - p.fraction.length) = 1 / 10 ^ p.fraction.length := by
      simp [exponentValue]
    simp only [DecimalLiteral.toRat, Plain.toRat, hweight]
    cases p.negative <;> simp [Sign.negative, div_eq_mul_inv]

theorem trimAsciiCopy_plain (p : Plain) : trimAsciiCopy p.text = p.text := by
  have hdigit : ∀ c : Char, c.isDigit = true → isSpace c = false := by
    intro c hc
    have := isDigit_iff.mp hc
    simp [isSpace]
    omega
  refine trimAsciiCopy_eq_self fun c hc => ?_
  simp only [Plain.text, List.mem_append] at hc
  rcases hc with (hc | hc) | hc
  · split at hc
    · rw [List.mem_singleton.mp hc]
      rfl
    · cases hc
  · exact hdigit c (p.whole_digits c hc)
  · split at hc
    · cases hc
    · rcases List.mem_cons.mp hc with rfl | hc
      · rfl
      · exact hdigit c (p.fraction_digits c hc)

theorem denotes_plain (p : Plain) : Denotes p.text p.toRat := by
  obtain ⟨l, htext, hrat⟩ := exists_literal_of_plain p
  exact ⟨l, htext.trans (trimAsciiCopy_plain p).symm, hrat⟩

theorem canonicalDecimalText_idem (text : List Char) :
    canonicalDecimalText (canonicalDecimalText text) = canonicalDecimalText text := by
  by_cases h : ∃ l : DecimalLiteral, l.text = trimAsciiCopy text
  · obtain ⟨l, hl⟩ := h
    obtain ⟨p, htext, -⟩ := canonicalDecimalText_of_literal hl
    obtain ⟨l', hl', hrat'⟩ := denotes_plain p
    obtain ⟨p', htext', hrat⟩ := canonicalDecimalText_of_literal hl'
    rw [← htext, ← htext']
    exact Plain.text_inj_of_toRat (hrat.trans hrat')
  · have hnone : ∀ l : DecimalLiteral, l.text ≠ trimAsciiCopy text := fun l hl => h ⟨l, hl⟩
    rw [canonicalDecimalText_of_not_literal hnone]
    rw [canonicalDecimalText_of_not_literal (by simpa using hnone), trimAsciiCopy_trimAsciiCopy]

end OptionX.Bridges
