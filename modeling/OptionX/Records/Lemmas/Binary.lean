import OptionX.Records.Binary

/-!
# Lemmas on the binary form of records

Each kind of field agrees with its reader; a record is its fields one after another.
-/

namespace OptionX.Records.Binary

open Lib.Codec

theorem enum8_toNat {value : Int} (h : Enum8 value) : ((enum8 value).toNat : Int) = value := by
  obtain ⟨hlow, hhigh⟩ := h
  rw [enum8, UInt8.toNat_ofNat']
  omega

theorem enum8_cast (b : UInt8) : Enum8 b.toNat ∧ enum8 b.toNat = b := by
  have hlt := b.toNat_lt
  refine ⟨⟨by omega, by omega⟩, UInt8.toNat_inj.mp ?_⟩
  rw [enum8, UInt8.toNat_ofNat']
  omega

theorem agrees_appendValue (truncated : String) (α : Type) [Scalar α] :
    Agrees (fun _ : α => True) (fun _ => True) appendValue (readScalar truncated α) :=
  ⟨encodeScalar, fun _ _ => writes_appendBytes _,
    (exact_readScalar truncated α).congr (fun _ => (and_self_iff).symm) fun _ _ => rfl⟩

theorem exact_readEnum8 (truncated : String) :
    Exact (fun value => Enum8 value ∧ True) (fun value => encodeScalar (enum8 value)) (readEnum8 truncated) := by
  refine Exact.map (exact_readScalar truncated UInt8) (fun _ _ => trivial) fun b _ value => ?_
  constructor
  · rintro ⟨⟨hvalue, -⟩, rfl⟩
    exact (enum8_toNat hvalue).symm
  · rintro rfl
    exact ⟨⟨(enum8_cast b).1, trivial⟩, (enum8_cast b).2⟩

theorem TradeRecord.agrees_appendEnum8 : Agrees Enum8 (fun _ => True) appendEnum8 (readEnum8 truncated) := by
  refine ⟨_, fun value hvalue => ?_, exact_readEnum8 truncated⟩
  rw [appendEnum8, if_neg (by have := hvalue.2; omega)]
  exact writes_appendBytes _

theorem SignalRecord.agrees_appendEnum8 : Agrees Enum8 (fun _ => True) appendEnum8 (readEnum8 truncated) :=
  ⟨_, fun _ _ => writes_appendBytes _, exact_readEnum8 truncated⟩

theorem writes_appendSized {tooLarge : String} {size : Nat} {bytes : Bytes} (h : size ≤ 4294967295) :
    Writes (appendSized tooLarge size bytes) (encodeScalar (UInt32.ofNat size) ++ bytes) := by
  rw [appendSized, if_neg (by omega)]
  exact (writes_appendBytes _).bind (writes_appendBytes _)

theorem toNat_ofNat_size {size : Nat} (h : size ≤ 4294967295) : (UInt32.ofNat size).toNat = size := by
  rw [UInt32.toNat_ofNat']
  omega

/-- A length in front, and then as many elements. -/
theorem exact_sized {α : Type} {truncated : String} {enc : List α → Bytes} {dec : UInt32 → Reader (List α)}
    (hdec : ∀ length : UInt32, Exact (fun values : List α => values.length = length.toNat) enc (dec length)) :
    Exact (fun values : List α => Sized values ∧ True)
      (fun values => encodeScalar (UInt32.ofNat values.length) ++ enc values)
      (readScalar truncated UInt32 >>= dec) := by
  refine Exact.bind (exact_readScalar truncated UInt32) (fun _ _ => trivial) fun length _ => ?_
  refine (hdec length).congr (fun values => ?_) fun _ _ => rfl
  have hlt := length.toNat_lt
  constructor
  · intro hlength
    exact ⟨⟨by rw [Sized]; omega, trivial⟩, by rw [hlength, UInt32.ofNat_toNat]⟩
  · rintro ⟨⟨hsized, -⟩, rfl⟩
    exact (toNat_ofNat_size hsized).symm

theorem exact_readString (truncated : String) :
    Exact (fun value : Bytes => Sized value ∧ True) (fun value => encodeScalar (UInt32.ofNat value.length) ++ value)
      (readString truncated) :=
  exact_sized fun length => exact_readBytes truncated length.toNat

theorem TradeRecord.agrees_appendString : Agrees Sized (fun _ => True) appendString (readString truncated) :=
  ⟨_, fun _ h => writes_appendSized h, exact_readString truncated⟩

theorem SignalRecord.agrees_appendString : Agrees Sized (fun _ => True) appendString (readString truncated) :=
  ⟨_, fun _ h => writes_appendSized h, exact_readString truncated⟩

theorem length_flatMap_encodeScalar {α : Type} [Scalar α] (values : List α) :
    (values.flatMap encodeScalar).length = values.length * Scalar.size α := by
  simp [encodeScalar]

theorem exact_readVectorU32 (corrupted truncated : String) :
    Exact (fun values : List UInt32 => Sized values ∧ True)
      (fun values => encodeScalar (UInt32.ofNat values.length) ++ values.flatMap encodeScalar)
      (readVectorU32 corrupted truncated) := by
  refine exact_sized fun length => ?_
  refine Exact.guard (exact_readMany truncated UInt32 length.toNat) fun values k hlength => ?_
  have hsize : Scalar.size UInt32 = 4 := rfl
  rw [length_flatMap_encodeScalar, hsize, hlength]
  omega

theorem SignalRecord.agrees_appendVectorU32 (corrupted : String) :
    Agrees Sized (fun _ => True) appendVectorU32 (readVectorU32 corrupted truncated) :=
  ⟨_, fun _ h => writes_appendSized h, exact_readVectorU32 corrupted truncated⟩

/-- Of a number that has to be known nothing is kept. -/
theorem agrees_readKnown {α : Type} [Scalar α] [DecidableEq α] (truncated refused : String) (known : α) :
    Agrees (fun _ : Unit => True) (fun _ => True) (fun _ => appendValue known) (readKnown truncated refused known) := by
  refine ⟨fun _ => encodeScalar known ++ [], fun _ _ => ?_, ?_⟩
  · rw [List.append_nil]
    exact writes_appendBytes _
  · refine Exact.bind (g := fun _ => known) (exact_readScalar truncated α) (fun _ _ => trivial) fun value _ => ?_
    by_cases hvalue : value = known
    · rw [if_neg (not_not.mpr hvalue)]
      exact Exact.pure fun _ => ⟨fun _ => rfl, fun _ => ⟨⟨trivial, trivial⟩, hvalue.symm⟩⟩
    · rw [if_pos hvalue]
      exact Exact.fail fun _ h => hvalue h.2.symm

/-! ## The layouts -/

namespace TradeRecord

theorem agrees : Agrees Fits (fun _ => True) append read := by
  refine Agrees.bind (g := fun _ => ()) (agrees_readKnown _ _ _) (fun _ _ => trivial) fun _ _ => ?_
  refine Agrees.bind (g := fun _ => ()) (agrees_readKnown _ _ _) (fun _ _ => trivial) fun _ _ => ?_
  -- field by field, in the order of the layout
  repeat first
    | refine Agrees.bind (agrees_appendValue truncated _) (fun _ _ => trivial) fun _ _ => ?_
    | refine Agrees.bind agrees_appendString (fun r hr => by cases hr; assumption) fun _ _ => ?_
    | refine Agrees.bind agrees_appendEnum8 (fun r hr => by cases hr; assumption) fun _ _ => ?_
  refine Agrees.last (agrees_appendValue truncated _) (fun _ _ => trivial) fun _ _ r => ?_
  constructor
  · rintro ⟨-, hknown, rfl⟩
    repeat obtain ⟨hknown, rfl⟩ := hknown
    rfl
  · rintro rfl
    refine ⟨?_, ?_⟩
    · constructor <;> assumption
    · simp

end TradeRecord

namespace SignalRecord

theorem agrees : Agrees Fits (fun _ => True) append read := by
  refine Agrees.bind (g := fun _ => ()) (agrees_readKnown _ _ _) (fun _ _ => trivial) fun _ _ => ?_
  refine Agrees.bind (g := fun _ => ()) (agrees_readKnown _ _ _) (fun _ _ => trivial) fun _ _ => ?_
  repeat first
    | refine Agrees.bind (agrees_appendValue truncated _) (fun _ _ => trivial) fun _ _ => ?_
    | refine Agrees.bind agrees_appendString (fun r hr => by cases hr; assumption) fun _ _ => ?_
    | refine Agrees.bind agrees_appendEnum8 (fun r hr => by cases hr; assumption) fun _ _ => ?_
  refine Agrees.last (agrees_appendVectorU32 _) (fun _ hr => hr.tradeIds) fun _ _ r => ?_
  constructor
  · rintro ⟨-, hknown, rfl⟩
    repeat obtain ⟨hknown, rfl⟩ := hknown
    rfl
  · rintro rfl
    refine ⟨?_, ?_⟩
    · constructor <;> assumption
    · simp

end SignalRecord

end OptionX.Records.Binary
