import Mathlib

/-!
# Checked machine arithmetic

Operations on machine words, read as operations on integers that fail where the word's range is left. A computation
that ends without a fault is the mathematical one, and no operation of it has wrapped or overflowed.
-/

namespace Lib.Machine

inductive Fault where
  | unsigned | signed | conversion
  deriving DecidableEq, Repr

/-- A computation on machine words. -/
abbrev Exact (α : Type) := Except Fault α

def uint64Max : Nat := 2 ^ 64 - 1

def int32Max : Int := 2 ^ 31 - 1

def int64Min : Int := -2 ^ 63

def int64Max : Int := 2 ^ 63 - 1

/-- The result of an unsigned sum or product. -/
def u64 (value : Nat) : Exact Nat := if value ≤ uint64Max then .ok value else .error .unsigned

def u64Sub (a b : Nat) : Exact Nat := if b ≤ a then .ok (a - b) else .error .unsigned

/-- The result of a signed operation. -/
def i64 (value : Int) : Exact Int := if int64Min ≤ value ∧ value ≤ int64Max then .ok value else .error .signed

/-! ## What runs without a fault -/

@[simp] theorem ok_bind {α β : Type} (a : α) (f : α → Exact β) : (Except.ok a >>= f : Exact β) = f a := rfl

@[simp] theorem error_bind {α β : Type} (e : Fault) (f : α → Exact β) :
    (Except.error e >>= f : Exact β) = .error e := rfl

@[simp] theorem pure_eq_ok {α : Type} (a : α) : (pure a : Exact α) = .ok a := rfl

theorem u64_ok {n : Nat} (h : n ≤ uint64Max) : u64 n = .ok n := by simp [u64, h]

theorem u64Sub_ok {a b : Nat} (h : b ≤ a) : u64Sub a b = .ok (a - b) := by simp [u64Sub, h]

theorem i64_ok {z : Int} (hl : int64Min ≤ z) (hu : z ≤ int64Max) : i64 z = .ok z := by simp [i64, hl, hu]

theorem i64_eq_ok {z w : Int} : i64 z = .ok w ↔ (int64Min ≤ z ∧ z ≤ int64Max) ∧ z = w := by
  unfold i64
  split <;> simp_all

end Lib.Machine
