import Formula.Literal
import Mathlib

/-!
# The values of literals

Comparison of numbers by `==` is not identity : an undefined number differs from itself, and zero
equals negative zero. The values of literals are of neither kind. They are defined and have the
positive sign (`isUnsigned_of_readLiteral?`), since a decimal is rounded to the nearest number by
operations that keep this of their operands, and on such numbers comparison is identity
(`IsUnsigned.eq_of_beq`).
-/

namespace Formula

open Float.Model
open Float.Model.UnpackedFloat (Sign Accuracy packComponents packedInfinity)

/-- The unpacked number is defined, and its sign is the positive one. -/
def Unsigned : UnpackedFloat → Prop
  | .infinity sign => sign = .positive
  | .notANumber => False
  | .zero sign => sign = .positive
  | .finite sign _ _ _ => sign = .positive

/-- The number is defined, and its sign is the positive one, also if it is zero. -/
def IsUnsigned (x : Float) : Prop :=
  Unsigned x.toModel.unpack

/-! ## Rounding keeps the sign -/

/-- Bits with the positive sign that do not have the last exponent are those of a number. -/
theorem unsigned_unpack_packComponents {exponent : BitVec Format.binary64.exponentBits}
    (h : exponent ≠ -BitVec.ofNat Format.binary64.exponentBits 1)
    (mantissa : BitVec Format.binary64.mantissaBitsWithoutImplicit) :
    Unsigned (.unpack .binary64 (packComponents .binary64 .positive exponent mantissa)) := by
  unfold UnpackedFloat.unpack
  simp only [UnpackedFloat.unpackSign_packComponents, UnpackedFloat.unpackExponent_packComponents,
    UnpackedFloat.unpackMantissa_packComponents, Sign.ofBitVec_toBitVec]
  rw [if_neg h]
  split_ifs <;> rfl

theorem unsigned_packedInfinity :
    Unsigned (.unpack .binary64 (packedInfinity .binary64 .positive)) :=
  rfl

/-- Packing keeps the sign. -/
theorem unsigned_unpack_pack {u : UnpackedFloat} (h : Unsigned u) :
    Unsigned (.unpack .binary64 (UnpackedFloat.pack .binary64 u)) := by
  cases u with
  | notANumber => exact h.elim
  | infinity sign =>
    obtain rfl : sign = .positive := h
    exact unsigned_packedInfinity
  | zero sign =>
    obtain rfl : sign = .positive := h
    rfl
  | finite sign m e hm =>
    obtain rfl : sign = .positive := h
    simp only [UnpackedFloat.pack]
    split_ifs with hlarge hnormal
    · exact unsigned_packedInfinity
    · refine unsigned_unpack_packComponents (fun hexponent => ?_) _
      have hvalue := congrArg BitVec.toNat hexponent
      rw [BitVec.toNat_ofNat, Nat.mod_eq_of_lt (Nat.lt_of_succ_lt (Nat.not_le.mp hlarge))] at hvalue
      rw [hvalue] at hlarge
      exact hlarge (Nat.le_refl _)
    · exact unsigned_unpack_packComponents (by decide) _

theorem unsigned_roundWithAccuracy (spec : Format) (m : Nat) (e : Int) (accuracy : Accuracy) :
    Unsigned (.roundWithAccuracy spec .positive m e accuracy) := by
  unfold UnpackedFloat.roundWithAccuracy
  dsimp only
  split_ifs <;> rfl

theorem unsigned_ofNat (spec : Format) (n : Nat) : Unsigned (.ofNat spec n) := by
  unfold UnpackedFloat.ofNat UnpackedFloat.ofInt UnpackedFloat.normalize
  split
  next h => exact absurd (Int.compare_eq_lt.mp h) (by omega)
  · rfl
  · exact unsigned_roundWithAccuracy _ _ _ _

/-- The unpacked number is finite and above zero. -/
def isPositive : UnpackedFloat → Bool
  | .finite .positive _ _ _ => true
  | _ => false

/-- A quotient by a finite number above zero is defined. -/
theorem unsigned_div {u v : UnpackedFloat} (hu : Unsigned u) (hv : isPositive v = true)
    (spec : Format) : Unsigned (.div spec u v) := by
  unfold isPositive at hv
  split at hv
  · cases u with
    | notANumber => exact hu.elim
    | infinity sign =>
      obtain rfl : sign = .positive := hu
      rfl
    | zero sign =>
      obtain rfl : sign = .positive := hu
      rfl
    | finite sign m' e' hm' =>
      obtain rfl : sign = .positive := hu
      exact unsigned_roundWithAccuracy _ _ _ _
  · cases hv

theorem unsigned_ofScientific (spec : Format) (m : Nat) (e : Int) :
    Unsigned (.ofScientific spec m e) := by
  unfold UnpackedFloat.ofScientific
  split_ifs with hm
  · rfl
  · rfl
  · rfl
  · exact unsigned_roundWithAccuracy _ _ _ _
  · exact unsigned_div (u := .finite .positive m 0 (Nat.pos_of_ne_zero hm)) rfl rfl _

/-- The powers of ten that a small decimal is divided by are above zero. -/
theorem isPositive_powerOfTen : ∀ e (h : e < Float.exactlyRepresentablePowersOfTen.size),
    isPositive Float.exactlyRepresentablePowersOfTen[e].toModel.unpack = true := by
  decide +kernel

/-- A decimal is rounded to a number without a sign. -/
theorem isUnsigned_ofScientific (m e : Nat) : IsUnsigned (Float.ofScientific m true e) := by
  unfold Float.ofScientific
  split
  next h =>
    have hm : Unsigned m.toUInt64.toFloat.toModel.unpack :=
      unsigned_unpack_pack (unsigned_ofNat _ _)
    exact unsigned_unpack_pack
      (unsigned_div hm (isPositive_powerOfTen e (Nat.lt_succ_of_le h.2)) _)
  · exact unsigned_unpack_pack (unsigned_ofScientific _ _ _)

/-! ## Comparison -/

/-- Unpacked numbers without a sign that compare as equal are the same. -/
theorem Unsigned.eq_of_beq {u v : UnpackedFloat} (hu : Unsigned u) (hv : Unsigned v)
    (h : u.beq v = true) : u = v := by
  have hcompare : u.compare v = some .eq := by simpa [UnpackedFloat.beq] using h
  cases u <;> cases v <;> simp_all [Unsigned, UnpackedFloat.compare]

theorem Unsigned.beq_self {u : UnpackedFloat} (hu : Unsigned u) : u.beq u = true := by
  cases u with
  | notANumber => exact hu.elim
  | infinity sign =>
    obtain rfl : sign = .positive := hu
    rfl
  | zero sign => rfl
  | finite sign m e hm =>
    obtain rfl : sign = .positive := hu
    simp [UnpackedFloat.beq, UnpackedFloat.compare]

namespace IsUnsigned

variable {x y : Float}

/-- On numbers without a sign comparison is identity. -/
theorem eq_of_beq (hx : IsUnsigned x) (hy : IsUnsigned y) (h : (x == y) = true) : x = y := by
  have hunpack : x.toModel.unpack = y.toModel.unpack := Unsigned.eq_of_beq hx hy h
  obtain ⟨⟨bits, hvalid⟩⟩ := x
  obtain ⟨⟨bits', hvalid'⟩⟩ := y
  have hbits : bits.toBitVec = bits'.toBitVec :=
    (UnpackedFloat.unpack_inj_of_valid hvalid hvalid').mp hunpack
  obtain rfl : bits = bits' := UInt64.toBitVec_inj.mp hbits
  rfl

theorem beq_self (hx : IsUnsigned x) : (x == x) = true :=
  Unsigned.beq_self hx

end IsUnsigned

/-! ## Literals -/

/-- A literal is read as a number without a sign. -/
theorem isUnsigned_of_readLiteral? {literal : List Char} {value : Float}
    (h : readLiteral? literal = some value) : IsUnsigned value := by
  have hvalue {whole fraction : List Char} (h : valueOf? whole fraction = some value) :
      IsUnsigned value := by
    unfold valueOf? at h
    split at h
    · cases h
    · cases h
      exact isUnsigned_ofScientific _ _
  unfold readLiteral? at h
  dsimp only at h
  split at h
  · exact hvalue h
  · split_ifs at h
    exact hvalue h

end Formula
