import Mathlib

/-!
# Decimal notation

The value of a string of decimal digits, and plain notation: a sign, a whole part without redundant zeros, and a
fraction that does not end in a zero. A number has one plain notation at most.
-/

namespace Lib.Decimal

def digitValue (c : Char) : Nat := c.toNat - 48

/-- The number that a string of digits stands for. -/
def value (ds : List Char) : Nat := ds.foldl (fun n c => 10 * n + digitValue c) 0

/-- A string of decimal digits. -/
def Digits (ds : List Char) : Prop := ∀ c ∈ ds, c.isDigit = true

/-! ## Digits -/

theorem isDigit_iff {c : Char} : c.isDigit = true ↔ 48 ≤ c.toNat ∧ c.toNat ≤ 57 := by
  simp only [Char.isDigit, Bool.and_eq_true, decide_eq_true_eq, ge_iff_le, UInt32.le_iff_toNat_le]
  rfl

theorem digitValue_lt {c : Char} (h : c.isDigit = true) : digitValue c < 10 := by
  have := isDigit_iff.mp h
  unfold digitValue
  omega

theorem digitValue_inj {c d : Char} (hc : c.isDigit = true) (hd : d.isDigit = true)
    (h : digitValue c = digitValue d) : c = d := by
  have := isDigit_iff.mp hc
  have := isDigit_iff.mp hd
  unfold digitValue at h
  exact Char.toNat_inj.mp (by omega)

theorem digitValue_eq_zero {c : Char} (h : c.isDigit = true) : digitValue c = 0 ↔ c = '0' :=
  ⟨fun h0 => digitValue_inj h (by decide) h0, fun h0 => h0 ▸ rfl⟩

@[simp] theorem Digits.nil : Digits [] := fun _ h => by cases h

@[simp] theorem digits_cons {c : Char} {ds : List Char} : Digits (c :: ds) ↔ c.isDigit = true ∧ Digits ds := by
  simp [Digits]

@[simp] theorem digits_append {as bs : List Char} : Digits (as ++ bs) ↔ Digits as ∧ Digits bs := by
  simp only [Digits, List.mem_append]
  exact ⟨fun h => ⟨fun c hc => h c (.inl hc), fun c hc => h c (.inr hc)⟩, fun h c hc => hc.elim (h.1 c) (h.2 c)⟩

@[simp] theorem digits_replicate (n : Nat) : Digits (List.replicate n '0') := by
  intro c hc
  rw [List.eq_of_mem_replicate hc]
  rfl

/-! ## Values -/

@[simp] theorem value_nil : value [] = 0 := rfl

theorem foldl_value (ds : List Char) (m : Nat) :
    ds.foldl (fun n c => 10 * n + digitValue c) m = m * 10 ^ ds.length + value ds := by
  induction ds generalizing m with
  | nil => simp [value]
  | cons c ds ih =>
      rw [value, List.foldl_cons, List.foldl_cons, ih, ih (10 * 0 + _), List.length_cons, pow_succ]
      ring

theorem value_append (as bs : List Char) : value (as ++ bs) = value as * 10 ^ bs.length + value bs := by
  rw [value, List.foldl_append, foldl_value bs]
  rfl

theorem value_cons (c : Char) (ds : List Char) : value (c :: ds) = digitValue c * 10 ^ ds.length + value ds := by
  rw [value, List.foldl_cons, foldl_value]
  simp

@[simp] theorem value_singleton (c : Char) : value [c] = digitValue c := by simp [value_cons]

@[simp] theorem value_replicate (n : Nat) : value (List.replicate n '0') = 0 := by
  induction n with
  | zero => rfl
  | succ n ih => rw [List.replicate_succ, value_cons, ih]; simp [digitValue]

theorem value_lt {ds : List Char} (h : Digits ds) : value ds < 10 ^ ds.length := by
  induction ds with
  | nil => simp
  | cons c ds ih =>
      have hc := digitValue_lt (digits_cons.mp h).1
      have hds := ih (digits_cons.mp h).2
      rw [value_cons, List.length_cons, pow_succ]
      nlinarith

theorem value_inj {as bs : List Char} (ha : Digits as) (hb : Digits bs) (hlen : as.length = bs.length)
    (h : value as = value bs) : as = bs := by
  induction as generalizing bs with
  | nil => exact (List.length_eq_zero_iff.mp hlen.symm).symm
  | cons a as ih =>
      cases bs with
      | nil => cases hlen
      | cons b bs =>
          have hlen' : as.length = bs.length := by simpa using hlen
          obtain ⟨ha0, ha⟩ := digits_cons.mp ha
          obtain ⟨hb0, hb⟩ := digits_cons.mp hb
          have hltA := value_lt ha
          have hltB := value_lt hb
          rw [value_cons, value_cons, hlen'] at h
          rw [hlen'] at hltA
          -- The rest is the remainder by the weight of the first digit.
          have hrest : value as = value bs := by
            have := congrArg (· % 10 ^ bs.length) h
            simpa [Nat.add_mod, Nat.mul_mod_left, Nat.mod_eq_of_lt hltA, Nat.mod_eq_of_lt hltB] using this
          have hhead : digitValue a = digitValue b := by
            rw [hrest] at h
            have hpos : 0 < 10 ^ bs.length := by positivity
            exact Nat.eq_of_mul_eq_mul_right hpos (by omega)
          rw [digitValue_inj ha0 hb0 hhead, ih ha hb hlen' hrest]

theorem value_eq_zero {ds : List Char} (h : Digits ds) : value ds = 0 ↔ ∀ c ∈ ds, c = '0' := by
  induction ds with
  | nil => simp
  | cons c ds ih =>
      obtain ⟨hc, hds⟩ := digits_cons.mp h
      rw [value_cons, List.forall_mem_cons, ← ih hds, ← digitValue_eq_zero hc]
      simp

/-- The length of a number without leading zeros is determined by its value. -/
theorem le_value {c : Char} {ds : List Char} (hc : c.isDigit = true) (h0 : c ≠ '0') :
    10 ^ ds.length ≤ value (c :: ds) := by
  have : 0 < digitValue c := Nat.pos_of_ne_zero fun h => h0 ((digitValue_eq_zero hc).mp h)
  rw [value_cons]
  nlinarith [Nat.one_le_pow ds.length 10 (by decide)]

/-- The digits of a number that a conversion to text writes. -/
theorem digits_toDigits (n : Nat) : Digits (Nat.toDigits 10 n) :=
  fun _ hc => Nat.isDigit_of_mem_toDigits (by decide) (by decide) hc

theorem ofDigitChars_eq (ds : List Char) (m : Nat) :
    Nat.ofDigitChars 10 ds m = m * 10 ^ ds.length + value ds := by
  rw [← foldl_value]
  rfl

@[simp] theorem value_toDigits (n : Nat) : value (Nat.toDigits 10 n) = n := by
  have h := @Nat.ofDigitChars_ten_toDigits n
  rwa [ofDigitChars_eq, Nat.zero_mul, Nat.zero_add] at h

theorem length_toDigits_le {n k : Nat} (hk : 0 < k) (h : n < 10 ^ k) : (Nat.toDigits 10 n).length ≤ k :=
  (Nat.length_toDigits_le_iff (by decide) hk).mpr h

/-! ## Plain notation -/

structure Plain where
  negative : Bool
  whole : List Char
  fraction : List Char
  digits : Digits (whole ++ fraction)
  whole_ne_nil : whole ≠ []
  /-- No redundant zero in front. -/
  leading : whole.head? = some '0' → whole = ['0']
  /-- No redundant zero at the end. -/
  trailing : fraction.getLast? ≠ some '0'
  /-- No negative zero. -/
  nonzero : negative = true → value (whole ++ fraction) ≠ 0

namespace Plain

def text (p : Plain) : List Char :=
  (if p.negative then ['-'] else []) ++ p.whole ++ (if p.fraction = [] then [] else '.' :: p.fraction)

def toRat (p : Plain) : ℚ :=
  (if p.negative then -1 else 1) * (value (p.whole ++ p.fraction) / 10 ^ p.fraction.length)

variable {p q : Plain}

theorem magnitude_eq (h : p.toRat = q.toRat) : p.negative = q.negative ∧
    value (p.whole ++ p.fraction) * 10 ^ q.fraction.length = value (q.whole ++ q.fraction) * 10 ^ p.fraction.length := by
  have hp := p.nonzero
  have hq := q.nonzero
  have hcross : p.negative = q.negative ∧ (value (p.whole ++ p.fraction) : ℚ) / 10 ^ p.fraction.length =
      value (q.whole ++ q.fraction) / 10 ^ q.fraction.length := by
    have hpos : ∀ (n k : Nat), 0 ≤ (n : ℚ) / 10 ^ k := fun n k => by positivity
    have hpos' : ∀ (n k : Nat), n ≠ 0 → 0 < (n : ℚ) / 10 ^ k := fun n k hn => by
      have : 0 < (n : ℚ) := by exact_mod_cast Nat.pos_of_ne_zero hn
      positivity
    unfold toRat at h
    cases hpn : p.negative <;> cases hqn : q.negative <;> simp only [hpn, hqn] at h hp hq
    · exact ⟨rfl, by simpa using h⟩
    · have := hpos' _ q.fraction.length (hq trivial)
      have := hpos (value (p.whole ++ p.fraction)) p.fraction.length
      simp at h
      linarith
    · have := hpos' _ p.fraction.length (hp trivial)
      have := hpos (value (q.whole ++ q.fraction)) q.fraction.length
      simp at h
      linarith
    · exact ⟨rfl, by simpa using h⟩
  refine ⟨hcross.1, ?_⟩
  have := hcross.2
  rw [div_eq_div_iff (by positivity) (by positivity)] at this
  exact_mod_cast this

/-- A shorter fraction cannot have the same value: the longer one would end in a zero. -/
theorem fraction_le (hval : value (p.whole ++ p.fraction) * 10 ^ q.fraction.length =
    value (q.whole ++ q.fraction) * 10 ^ p.fraction.length) : q.fraction.length ≤ p.fraction.length := by
  by_contra hlt
  push Not at hlt
  obtain ⟨k, hk⟩ := Nat.exists_eq_add_of_lt hlt
  have hq : value (q.whole ++ q.fraction) = value (p.whole ++ p.fraction) * 10 ^ (k + 1) := by
    have hpos : 0 < 10 ^ p.fraction.length := by positivity
    refine (Nat.eq_of_mul_eq_mul_right hpos ?_).symm
    rw [← hval, hk, mul_assoc, ← pow_add]
    congr 2
    omega
  -- The last digit of the longer fraction is a zero then.
  obtain ⟨init, last, hlast⟩ : ∃ init last, q.fraction = init ++ [last] := by
    refine ⟨q.fraction.dropLast, q.fraction.getLast (by rintro h; simp [h] at hlt), ?_⟩
    exact (List.dropLast_append_getLast _).symm
  have hdigit : last.isDigit = true := q.digits last (by simp [hlast])
  have hzero : digitValue last = 0 := by
    rw [hlast, ← List.append_assoc, value_append] at hq
    have := digitValue_lt hdigit
    have h10 : value (p.whole ++ p.fraction) * 10 ^ (k + 1) = value (p.whole ++ p.fraction) * 10 ^ k * 10 := by ring
    simp at hq
    omega
  exact q.trailing (by simp [hlast, (digitValue_eq_zero hdigit).mp hzero])

theorem whole_digits (p : Plain) : Digits p.whole := (digits_append.mp p.digits).1

theorem fraction_digits (p : Plain) : Digits p.fraction := (digits_append.mp p.digits).2

/-- A whole part with no redundant zero is as long as its value needs. -/
theorem whole_length_le (h : value p.whole = value q.whole) : p.whole.length ≤ q.whole.length := by
  have hlt := value_lt q.whole_digits
  have hqlen := List.length_pos_iff.mpr q.whole_ne_nil
  cases hp : p.whole with
  | nil => simp
  | cons c ds =>
      by_cases h0 : c = '0'
      · have := p.leading (by simp [hp, h0])
        rw [hp] at this
        simp [this]
        omega
      · have hle : 10 ^ ds.length ≤ value (c :: ds) := le_value (p.whole_digits c (by simp [hp])) h0
        rw [← hp, h] at hle
        have := (Nat.pow_lt_pow_iff_right (by decide : 1 < 10)).mp (hle.trans_lt hlt)
        simpa using this

/-- A number has one plain notation. -/
theorem text_inj_of_toRat (h : p.toRat = q.toRat) : p.text = q.text := by
  obtain ⟨hneg, hval⟩ := magnitude_eq h
  have hlen : p.fraction.length = q.fraction.length := le_antisymm (fraction_le hval.symm) (fraction_le hval)
  have hpos : 0 < 10 ^ q.fraction.length := by positivity
  rw [hlen] at hval
  have hval' := Nat.eq_of_mul_eq_mul_right hpos hval
  rw [value_append, value_append, hlen] at hval'
  have hltP := value_lt p.fraction_digits
  have hltQ := value_lt q.fraction_digits
  rw [hlen] at hltP
  have hfraction : value p.fraction = value q.fraction := by
    have := congrArg (· % 10 ^ q.fraction.length) hval'
    simpa [Nat.add_mod, Nat.mul_mod_left, Nat.mod_eq_of_lt hltP, Nat.mod_eq_of_lt hltQ] using this
  have hwhole : value p.whole = value q.whole := by
    rw [hfraction] at hval'
    exact Nat.eq_of_mul_eq_mul_right hpos (by omega)
  have hfraction' := value_inj p.fraction_digits q.fraction_digits hlen hfraction
  have hwhole' := value_inj p.whole_digits q.whole_digits
    (le_antisymm (whole_length_le hwhole) (whole_length_le hwhole.symm)) hwhole
  rw [text, text, hneg, hfraction', hwhole']

end Plain

/-! ## Signed numerals -/

inductive Sign where
  | absent | plus | minus
  deriving DecidableEq, Repr

def Sign.text : Sign → List Char
  | .absent => []
  | .plus => ['+']
  | .minus => ['-']

def Sign.factor : Sign → ℤ
  | .minus => -1
  | _ => 1

/-- A sign or none, then digits with at most one point among them, and at least one digit. -/
structure Numeral where
  sign : Sign
  whole : List Char
  /-- The digits after the point, where there is one. -/
  fraction : Option (List Char)
  digits : Digits (whole ++ fraction.getD [])
  nonempty : whole ++ fraction.getD [] ≠ []

namespace Numeral

def decimals (n : Numeral) : List Char := n.fraction.getD []

def text (n : Numeral) : List Char :=
  n.sign.text ++ (n.whole ++ match n.fraction with
    | none => []
    | some fraction => '.' :: fraction)

def toRat (n : Numeral) : ℚ := n.sign.factor * (value (n.whole ++ n.decimals) / 10 ^ n.decimals.length)

theorem whole_digits (n : Numeral) : Digits n.whole := (digits_append.mp n.digits).1

theorem decimals_digits (n : Numeral) : Digits n.decimals := (digits_append.mp n.digits).2

end Numeral

end Lib.Decimal
