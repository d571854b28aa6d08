import Mathlib

/-!
# Binary codecs

Little-endian numbers, a reader that moves a cursor through a block of bytes, and what it means that a reader and a
writer belong together: the reader gives back what was written, accepts nothing else, and reads no byte outside the
block. Sequences of fields are put together with `Exact.bind`.
-/

namespace Lib.Codec

abbrev Bytes := List UInt8

/-! ## Little-endian numbers -/

/-- The `k` lowest bytes of a number, the lowest one first. -/
def toLE : Nat → Nat → Bytes
  | 0, _ => []
  | k + 1, n => UInt8.ofNat n :: toLE k (n / 256)

def ofLE : Bytes → Nat
  | [] => 0
  | b :: bs => b.toNat + 256 * ofLE bs

@[simp] theorem length_toLE (k n : Nat) : (toLE k n).length = k := by
  induction k generalizing n with
  | zero => rfl
  | succ k ih => simp [toLE, ih]

theorem ofLE_toLE {k n : Nat} (h : n < 256 ^ k) : ofLE (toLE k n) = n := by
  induction k generalizing n with
  | zero =>
      simp only [pow_zero] at h
      simp only [toLE, ofLE]
      omega
  | succ k ih =>
      have hdiv : n / 256 < 256 ^ k := Nat.div_lt_of_lt_mul (by rw [pow_succ] at h; omega)
      rw [toLE, ofLE, ih hdiv, UInt8.toNat_ofNat']
      omega

theorem ofLE_lt (bs : Bytes) : ofLE bs < 256 ^ bs.length := by
  induction bs with
  | nil => simp [ofLE]
  | cons b bs ih =>
      have := b.toNat_lt
      rw [ofLE, List.length_cons, pow_succ]
      omega

theorem toLE_ofLE (bs : Bytes) : toLE bs.length (ofLE bs) = bs := by
  induction bs with
  | nil => rfl
  | cons b bs ih =>
      have := b.toNat_lt
      have hhead : UInt8.ofNat (b.toNat + 256 * ofLE bs) = b := UInt8.toNat_inj.mp (by simp)
      have hrest : (b.toNat + 256 * ofLE bs) / 256 = ofLE bs := by omega
      rw [List.length_cons, toLE, ofLE, hhead, hrest, ih]

/-- A trivially copyable value: the numbers of its object representation. -/
class Scalar (α : Type) where
  size : Nat
  toNat : α → Nat
  ofNat : Nat → α
  toNat_lt : ∀ a, toNat a < 256 ^ size
  ofNat_toNat : ∀ a, ofNat (toNat a) = a
  toNat_ofNat : ∀ n, n < 256 ^ size → toNat (ofNat n) = n

instance : Scalar UInt8 := ⟨1, UInt8.toNat, UInt8.ofNat, fun a => a.toNat_lt, fun a => UInt8.ofNat_toNat, fun n h => by
  rw [UInt8.toNat_ofNat']; exact Nat.mod_eq_of_lt h⟩

instance : Scalar UInt16 := ⟨2, UInt16.toNat, UInt16.ofNat, fun a => a.toNat_lt, fun a => UInt16.ofNat_toNat, fun n h => by
  rw [UInt16.toNat_ofNat']; omega⟩

instance : Scalar UInt32 := ⟨4, UInt32.toNat, UInt32.ofNat, fun a => a.toNat_lt, fun a => UInt32.ofNat_toNat, fun n h => by
  rw [UInt32.toNat_ofNat']; omega⟩

instance : Scalar UInt64 := ⟨8, UInt64.toNat, UInt64.ofNat, fun a => a.toNat_lt, fun a => UInt64.ofNat_toNat, fun n h => by
  rw [UInt64.toNat_ofNat']; omega⟩

instance : Scalar Int32 := ⟨4, fun a => a.toUInt32.toNat, fun n => (UInt32.ofNat n).toInt32, fun a => a.toUInt32.toNat_lt,
  fun a => by simp, fun n h => by simp; omega⟩

instance : Scalar Int64 := ⟨8, fun a => a.toUInt64.toNat, fun n => (UInt64.ofNat n).toInt64, fun a => a.toUInt64.toNat_lt,
  fun a => by simp, fun n h => by simp; omega⟩

def encodeScalar {α : Type} [Scalar α] (a : α) : Bytes := toLE (Scalar.size α) (Scalar.toNat a)

/-! ## Writers -/

/-- Appends to the bytes written so far, or throws. -/
abbrev Writer := StateT Bytes (Except String)

def appendBytes (bytes : Bytes) : Writer Unit := modify (· ++ bytes)

/-- All that is written, from the beginning. -/
def writeAll (write : Writer Unit) : Except String Bytes := (write.run []).map Prod.snd

/-- Appends these bytes wherever it starts. -/
def Writes (write : Writer Unit) (bytes : Bytes) : Prop := ∀ pre, write.run pre = .ok ((), pre ++ bytes)

theorem writes_appendBytes (bytes : Bytes) : Writes (appendBytes bytes) bytes := fun _ => rfl

theorem Writes.bind {write write' : Writer Unit} {bytes bytes' : Bytes} (h : Writes write bytes)
    (h' : Writes write' bytes') : Writes (write >>= fun _ => write') (bytes ++ bytes') := by
  intro pre
  rw [StateT.run_bind, h pre, ← List.append_assoc]
  exact h' (pre ++ bytes)

theorem Writes.writeAll {write : Writer Unit} {bytes : Bytes} (h : Writes write bytes) : writeAll write = .ok bytes := by
  rw [Codec.writeAll, h []]
  rfl

/-! ## Readers -/

structure Cursor where
  data : Bytes
  offset : Nat := 0

inductive ReadError where
  | thrown (message : String)
  /-- A byte outside the block would have been read. -/
  | outOfBounds
  deriving DecidableEq

abbrev Reader := StateT Cursor (Except ReadError)

def fail {α : Type} (message : String) : Reader α := throw (.thrown message)

/-- The bytes that are left. The offset never exceeds the size. -/
def remaining : Reader Nat := do
  let c ← get
  return c.data.length - c.offset

/-- Copies bytes from the block, without a check that they are there. -/
def copyBytes (n : Nat) : Reader Bytes := do
  let c ← get
  if c.data.length < c.offset + n then throw .outOfBounds
  else
    set { c with offset := c.offset + n }
    return (c.data.drop c.offset).take n

def require (message : String) (n : Nat) : Reader Unit := do
  let left ← remaining
  if left < n then fail message else return ()

def readBytes (message : String) (n : Nat) : Reader Bytes := do
  require message n
  copyBytes n

def readScalar (message : String) (α : Type) [Scalar α] : Reader α := do
  let bytes ← readBytes message (Scalar.size α)
  return Scalar.ofNat (ofLE bytes)

def readMany (message : String) (α : Type) [Scalar α] : Nat → Reader (List α)
  | 0 => return []
  | n + 1 => do
      let a ← readScalar message α
      let as ← readMany message α n
      return a :: as

def ensureFinished (message : String) : Reader Unit := do
  let c ← get
  if c.offset ≠ c.data.length then fail message else return ()

/-! ## Readers and writers that belong together -/

variable {α β ρ : Type} {P Q : ρ → Prop} {enc : ρ → Bytes} {dec : Reader ρ} {message : String}

/-- On the values of `P` the reader undoes the writer, wherever the cursor stands and whatever follows, and from any
bytes it reads a value of `P` that is written there, or throws. -/
structure Exact (P : ρ → Prop) (enc : ρ → Bytes) (dec : Reader ρ) : Prop where
  reads : ∀ pre rest r, P r → dec.run ⟨pre ++ (enc r ++ rest), pre.length⟩ =
    .ok (r, ⟨pre ++ (enc r ++ rest), pre.length + (enc r).length⟩)
  sound : ∀ pre rest r c, dec.run ⟨pre ++ rest, pre.length⟩ = .ok (r, c) →
    P r ∧ ∃ rest', rest = enc r ++ rest' ∧ c = ⟨pre ++ rest, pre.length + (enc r).length⟩
  inBounds : ∀ pre rest, dec.run ⟨pre ++ rest, pre.length⟩ ≠ .error .outOfBounds

theorem run_bind_ok {f : ρ → Reader β} {c c' : Cursor} {r : ρ} (h : dec.run c = .ok (r, c')) :
    (dec >>= f).run c = (f r).run c' := by
  rw [StateT.run_bind, h]
  rfl

theorem run_bind_error {f : ρ → Reader β} {c : Cursor} {e : ReadError} (h : dec.run c = .error e) :
    (dec >>= f).run c = .error e := by
  rw [StateT.run_bind, h]
  rfl

theorem run_bind_eq_ok {f : ρ → Reader β} {c c' : Cursor} {b : β} (h : (dec >>= f).run c = .ok (b, c')) :
    ∃ r c'', dec.run c = .ok (r, c'') ∧ (f r).run c'' = .ok (b, c') := by
  cases hd : dec.run c with
  | error e =>
      rw [run_bind_error hd] at h
      cases h
  | ok p => exact ⟨p.1, p.2, rfl, (run_bind_ok hd).symm.trans h⟩

/-- The bytes of the values of `P` are all that matters. -/
theorem Exact.congr {enc' : ρ → Bytes} (h : Exact P enc dec) (hP : ∀ r, P r ↔ Q r) (henc : ∀ r, P r → enc r = enc' r) :
    Exact Q enc' dec where
  reads pre rest r hr := by
    rw [← henc r ((hP r).mpr hr)]
    exact h.reads pre rest r ((hP r).mpr hr)
  sound pre rest r c hrun := by
    obtain ⟨hr, hbytes⟩ := h.sound pre rest r c hrun
    rw [← henc r hr]
    exact ⟨(hP r).mp hr, hbytes⟩
  inBounds := h.inBounds

/-- Nothing is written for a value that is known. -/
theorem Exact.pure {r₀ : ρ} (h : ∀ r, P r ↔ r = r₀) : Exact P (fun _ => []) (Pure.pure r₀) where
  reads pre rest r hr := by
    rw [(h r).mp hr]
    rfl
  sound pre rest r c hrun := by
    cases hrun
    exact ⟨(h _).mpr rfl, rest, rfl, rfl⟩
  inBounds pre rest hrun := by cases hrun

theorem Exact.fail (h : ∀ r, ¬ P r) : Exact P enc (fail message) where
  reads pre rest r hr := absurd hr (h r)
  sound pre rest r c hrun := by cases hrun
  inBounds pre rest hrun := by cases hrun

/-- A field is written in front of the rest of a value, and is known when the rest is read. -/
theorem Exact.bind {A : α → Prop} {encA : α → Bytes} {decA : Reader α} {g : ρ → α} {encB : ρ → Bytes}
    {decB : α → Reader ρ} (hA : Exact A encA decA) (hg : ∀ r, P r → A (g r))
    (hB : ∀ a, A a → Exact (fun r => P r ∧ g r = a) encB (decB a)) :
    Exact P (fun r => encA (g r) ++ encB r) (decA >>= decB) where
  reads pre rest r hr := by
    have hfirst := hA.reads pre (encB r ++ rest) (g r) (hg r hr)
    have hrest := (hB (g r) (hg r hr)).reads (pre ++ encA (g r)) rest r ⟨hr, rfl⟩
    rw [List.append_assoc, run_bind_ok hfirst]
    simpa [Nat.add_assoc] using hrest
  sound pre rest r c hrun := by
    obtain ⟨a, c', hfirst, hsecond⟩ := run_bind_eq_ok hrun
    obtain ⟨ha, rest', rfl, rfl⟩ := hA.sound pre rest a c' hfirst
    rw [← List.append_assoc, ← List.length_append] at hsecond
    obtain ⟨⟨hr, rfl⟩, rest'', rfl, rfl⟩ := (hB a ha).sound _ rest' r c hsecond
    exact ⟨hr, rest'', by simp, by simp [Nat.add_assoc]⟩
  inBounds pre rest hrun := by
    cases hfirst : decA.run ⟨pre ++ rest, pre.length⟩ with
    | error e =>
        rw [run_bind_error hfirst] at hrun
        cases hrun
        exact hA.inBounds pre rest hfirst
    | ok p =>
        obtain ⟨a, c⟩ := p
        obtain ⟨ha, rest', rfl, rfl⟩ := hA.sound pre rest a c hfirst
        rw [run_bind_ok hfirst, ← List.append_assoc, ← List.length_append] at hrun
        exact (hB a ha).inBounds _ rest' hrun

/-- A value that is read as another one. -/
theorem Exact.map {A : α → Prop} {encA : α → Bytes} {decA : Reader α} (hA : Exact A encA decA) {f : α → ρ} {g : ρ → α}
    (hg : ∀ r, P r → A (g r)) (hf : ∀ a, A a → ∀ r, P r ∧ g r = a ↔ r = f a) :
    Exact P (fun r => encA (g r)) (decA >>= fun a => Pure.pure (f a)) := by
  have hbind : Exact P (fun r => encA (g r) ++ []) (decA >>= fun a => Pure.pure (f a)) :=
    Exact.bind hA hg fun a ha => Exact.pure (hf a ha)
  exact hbind.congr (fun _ => Iff.rfl) fun r _ => List.append_nil _

/-- A reader that first looks at how much is left. -/
theorem Exact.guard {refused : Nat → Prop} [DecidablePred refused] (h : Exact P enc dec)
    (hleft : ∀ r k, P r → ¬ refused ((enc r).length + k)) :
    Exact P enc (remaining >>= fun left => if refused left then Codec.fail message else dec) where
  reads pre rest r hr := by
    have hrun := h.reads pre rest r hr
    have hkeep : ¬ refused ((enc r).length + rest.length) := hleft r rest.length hr
    simpa [remaining, hkeep] using hrun
  sound pre rest r c hrun := by
    by_cases hrefused : refused rest.length
    · simp [remaining, hrefused] at hrun
      cases hrun
    · exact h.sound pre rest r c (by simpa [remaining, hrefused] using hrun)
  inBounds pre rest hrun := by
    by_cases hrefused : refused rest.length
    · simp [remaining, hrefused] at hrun
      cases hrun
    · exact h.inBounds pre rest (by simpa [remaining, hrefused] using hrun)

theorem exact_readBytes (message : String) (n : Nat) :
    Exact (fun bs : Bytes => bs.length = n) id (readBytes message n) where
  reads pre rest bs hbs := by
    simp [readBytes, require, remaining, copyBytes, hbs]
    rfl
  sound pre rest bs c hrun := by
    by_cases hn : rest.length < n
    · simp [readBytes, require, remaining, fail, hn] at hrun
      cases hrun
    · have hn' : ¬ pre.length + rest.length < pre.length + n := by omega
      simp [readBytes, require, remaining, copyBytes, hn, hn'] at hrun
      cases hrun
      refine ⟨by simp; omega, rest.drop n, by simp, by simp; omega⟩
  inBounds pre rest hrun := by
    by_cases hn : rest.length < n
    · simp [readBytes, require, remaining, fail, hn] at hrun
      cases hrun
    · have hn' : ¬ pre.length + rest.length < pre.length + n := by omega
      simp [readBytes, require, remaining, copyBytes, hn, hn'] at hrun
      cases hrun

theorem exact_readScalar (message : String) (α : Type) [Scalar α] :
    Exact (fun _ : α => True) encodeScalar (readScalar message α) := by
  refine Exact.map (g := encodeScalar) (exact_readBytes message (Scalar.size α)) (fun a _ => length_toLE _ _) fun bs hbs a => ?_
  constructor
  · rintro ⟨-, rfl⟩
    rw [encodeScalar, ofLE_toLE (Scalar.toNat_lt a), Scalar.ofNat_toNat]
  · rintro rfl
    have hlt := ofLE_lt bs
    rw [hbs] at hlt
    refine ⟨trivial, ?_⟩
    rw [encodeScalar, Scalar.toNat_ofNat _ hlt, ← hbs, toLE_ofLE]

theorem exact_readMany (message : String) (α : Type) [Scalar α] (n : Nat) :
    Exact (fun as : List α => as.length = n) (fun as => as.flatMap encodeScalar) (readMany message α n) := by
  induction n with
  | zero =>
      have hnil : Exact (fun as : List α => as.length = 0) (fun _ => []) (readMany message α 0) :=
        Exact.pure fun as => List.length_eq_zero_iff
      exact hnil.congr (fun _ => Iff.rfl) fun as has => by rw [List.length_eq_zero_iff.mp has, List.flatMap_nil]
  | succ n ih =>
      have hcons : Exact (fun as : List α => as.length = n + 1)
          (fun as => encodeScalar (as.headD (Scalar.ofNat 0)) ++ as.tail.flatMap encodeScalar)
          (readMany message α (n + 1)) := by
        refine Exact.bind (exact_readScalar message α) (fun _ _ => trivial) fun a _ => ?_
        refine Exact.map ih (fun as has => by simp [has.1]) fun rest hrest as => ?_
        cases as with
        | nil => simp
        | cons b as => constructor <;> grind
      refine hcons.congr (fun _ => Iff.rfl) fun as has => ?_
      cases as with
      | nil => cases has
      | cons a as => rfl

/-! ## A whole block -/

/-- Reads a value that fills the block. -/
def readAll (message : String) (dec : Reader ρ) (data : Bytes) : Except ReadError ρ :=
  ((do
    let r ← dec
    ensureFinished message
    return r : Reader ρ).run ⟨data, 0⟩).map Prod.fst

theorem readAll_of_ok {data : Bytes} {r : ρ} {c : Cursor} (h : dec.run ⟨data, 0⟩ = .ok (r, c)) :
    readAll message dec data = if c.offset ≠ c.data.length then .error (.thrown message) else .ok r := by
  rw [readAll, run_bind_ok h]
  by_cases hc : c.offset = c.data.length
  · simp [ensureFinished, hc]
    rfl
  · simp [ensureFinished, fail, hc]
    rfl

theorem readAll_of_error {data : Bytes} {e : ReadError} (h : dec.run ⟨data, 0⟩ = .error e) :
    readAll message dec data = .error e := by
  rw [readAll, run_bind_error h]
  rfl

namespace Exact

variable (h : Exact P enc dec)

include h

theorem readAll_encode {r : ρ} (hr : P r) : readAll message dec (enc r) = .ok r := by
  have hrun := h.reads [] [] r hr
  simp only [List.nil_append, List.append_nil, List.length_nil, Nat.zero_add] at hrun
  rw [readAll_of_ok hrun]
  simp

theorem readAll_sound {data : Bytes} {r : ρ} (hrun : readAll message dec data = .ok r) : P r ∧ data = enc r := by
  cases hd : dec.run ⟨data, 0⟩ with
  | error e =>
      rw [readAll_of_error hd] at hrun
      cases hrun
  | ok p =>
      obtain ⟨r', c⟩ := p
      obtain ⟨hr, rest, hdata, hc⟩ := h.sound [] data r' c hd
      rw [readAll_of_ok hd] at hrun
      split at hrun
      · cases hrun
      · next hfinished =>
        obtain rfl := Except.ok.inj hrun
        rw [not_not, hc] at hfinished
        simp only [List.length_nil, Nat.zero_add, List.nil_append] at hfinished
        have hrest : rest = [] := by
          rw [hdata, List.length_append] at hfinished
          exact List.length_eq_zero_iff.mp (by omega)
        exact ⟨hr, by simpa [hrest] using hdata⟩

theorem readAll_inBounds (data : Bytes) : readAll message dec data ≠ .error .outOfBounds := by
  intro hrun
  cases hd : dec.run ⟨data, 0⟩ with
  | error e =>
      rw [readAll_of_error hd] at hrun
      cases hrun
      exact h.inBounds [] data hd
  | ok p =>
      rw [readAll_of_ok hd] at hrun
      split at hrun <;> cases hrun

/-- A writer and a reader that belong together are injective: no text begins with another one. -/
theorem prefix_free {r r' : ρ} {tail : Bytes} (hr : P r) (hr' : P r') (heq : enc r = enc r' ++ tail) :
    tail = [] ∧ r = r' := by
  have hrun := h.reads [] tail r' hr'
  have hrun' := h.reads [] [] r hr
  rw [List.append_nil, heq] at hrun'
  have hcursor := hrun'.symm.trans hrun
  simp only [Except.ok.injEq, Prod.mk.injEq, Cursor.mk.injEq, List.length_append] at hcursor
  exact ⟨List.length_eq_zero_iff.mp (by omega), hcursor.1⟩

/-- Of a text that was cut off nothing is read. -/
theorem readAll_prefix {r : ρ} {data tail : Bytes} (hr : P r) (heq : enc r = data ++ tail) (htail : tail ≠ []) :
    ∃ text, readAll message dec data = .error (.thrown text) := by
  cases hrun : readAll message dec data with
  | error e =>
      cases e with
      | thrown text => exact ⟨text, rfl⟩
      | outOfBounds => exact absurd hrun (h.readAll_inBounds data)
  | ok r' =>
      obtain ⟨hr', rfl⟩ := h.readAll_sound hrun
      exact absurd (h.prefix_free hr hr' heq).1 htail

/-- A text that goes on is refused. -/
theorem readAll_trailing {r : ρ} {tail : Bytes} (hr : P r) (htail : tail ≠ []) :
    ∃ text, readAll message dec (enc r ++ tail) = .error (.thrown text) := by
  cases hrun : readAll message dec (enc r ++ tail) with
  | error e =>
      cases e with
      | thrown text => exact ⟨text, rfl⟩
      | outOfBounds => exact absurd hrun (h.readAll_inBounds _)
  | ok r' =>
      obtain ⟨hr', heq⟩ := h.readAll_sound hrun
      exact absurd (h.prefix_free hr' hr heq.symm).1 htail

end Exact

/-! ## Writers and readers of records -/

/-- What the writer appends for a value is what the reader takes in for it. `K` is what is known of the value already. -/
def Agrees (P K : ρ → Prop) (write : ρ → Writer Unit) (dec : Reader ρ) : Prop :=
  ∃ enc, (∀ r, P r → Writes (write r) (enc r)) ∧ Exact (fun r => P r ∧ K r) enc dec

namespace Agrees

variable {K : ρ → Prop} {A : α → Prop} {writeA : α → Writer Unit} {decA : Reader α} {g : ρ → α}
  {write : ρ → Writer Unit} {decB : α → Reader ρ}

theorem bind (hA : Agrees A (fun _ => True) writeA decA) (hg : ∀ r, P r → A (g r))
    (hB : ∀ a, A a → Agrees P (fun r => K r ∧ g r = a) write (decB a)) :
    Agrees P K (fun r => writeA (g r) >>= fun _ => write r) (decA >>= decB) := by
  obtain ⟨encA, hwriteA, hexactA⟩ := hA
  choose! encB hwriteB hexactB using hB
  refine ⟨fun r => encA (g r) ++ encB (g r) r, fun r hr => ?_, ?_⟩
  · exact (hwriteA (g r) (hg r hr)).bind (hwriteB (g r) (hg r hr) r hr)
  · refine Exact.bind hexactA (fun r hr => ⟨hg r hr.1, trivial⟩) fun a ha => ?_
    refine (hexactB a ha.1).congr (fun r => and_assoc.symm) fun r hr => ?_
    rw [hr.2.2]

theorem last {f : α → ρ} (hA : Agrees A (fun _ => True) writeA decA) (hg : ∀ r, P r → A (g r))
    (hf : ∀ a, A a → ∀ r, P r ∧ K r ∧ g r = a ↔ r = f a) :
    Agrees P K (fun r => writeA (g r)) (decA >>= fun a => Pure.pure (f a)) := by
  obtain ⟨encA, hwriteA, hexactA⟩ := hA
  refine ⟨fun r => encA (g r), fun r hr => hwriteA (g r) (hg r hr), ?_⟩
  exact Exact.map hexactA (fun r hr => ⟨hg r hr.1, trivial⟩) fun a ha r => and_assoc.trans (hf a ha.1 r)

end Agrees

/-- A writer and a reader of whole blocks: what is written is read back, no part of it is read and nothing after it is
passed over, and what is read from any block is written as that block. No byte outside a block is read. -/
structure Faithful (P : ρ → Prop) (write : ρ → Except String Bytes) (read : Bytes → Except ReadError ρ) : Prop where
  roundTrip : ∀ r, P r → ∃ data, write r = .ok data ∧ read data = .ok r
  cut : ∀ r data tail, P r → write r = .ok (data ++ tail) → tail ≠ [] → ∃ text, read data = .error (.thrown text)
  trailing : ∀ r data tail, P r → write r = .ok data → tail ≠ [] → ∃ text, read (data ++ tail) = .error (.thrown text)
  accepted : ∀ data, (∃ text, read data = .error (.thrown text)) ∨ ∃ r, P r ∧ read data = .ok r ∧ write r = .ok data

theorem Agrees.faithful {write : ρ → Writer Unit} (h : Agrees P (fun _ => True) write dec) (message : String) :
    Faithful P (fun r => writeAll (write r)) (readAll message dec) := by
  obtain ⟨enc, hwrite, hexact⟩ := h
  have hexact : Exact P enc dec := hexact.congr (fun r => and_iff_left trivial) fun _ _ => rfl
  have hall : ∀ r, P r → writeAll (write r) = .ok (enc r) := fun r hr => (hwrite r hr).writeAll
  refine ⟨fun r hr => ?_, fun r data tail hr hdata htail => ?_, fun r data tail hr hdata htail => ?_, fun data => ?_⟩
  · exact ⟨enc r, hall r hr, hexact.readAll_encode hr⟩
  · rw [hall r hr] at hdata
    exact hexact.readAll_prefix hr (Except.ok.inj hdata) htail
  · rw [hall r hr] at hdata
    rw [← Except.ok.inj hdata]
    exact hexact.readAll_trailing hr htail
  · cases hread : readAll message dec data with
    | error e =>
        cases e with
        | thrown text => exact .inl ⟨text, rfl⟩
        | outOfBounds => exact absurd hread (hexact.readAll_inBounds data)
    | ok r =>
        obtain ⟨hr, rfl⟩ := hexact.readAll_sound hread
        exact .inr ⟨r, hr, rfl, hall r hr⟩

end Lib.Codec
