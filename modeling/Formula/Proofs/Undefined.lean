import Formula.Builtin
import Formula.Operator
import Mathlib.Tactic.Common

/-!
# Undefined numbers

What is computed from an undefined number is undefined, for every builtin and for every
operator but the two of the `power` tier (`Operator.isNaN_apply`). A power with exponent zero
or base one is one, even if the other operand is undefined : `Operator.IgnoresLeft` and
`Operator.IgnoresRight` say for which value of one operand the other makes no difference. Where
it does, these two operators pass an undefined operand on as well
(`Operator.isNaN_apply_left`, `Operator.isNaN_apply_right`).
-/

namespace Formula

open Float.Model

variable {x y : Float}

/-- A number is undefined if its unpacked form says so. -/
theorem isNaN_iff : x.isNaN = true ↔ x.toModel.unpack = .notANumber := by
  change x.toModel.unpack.isNaN = true ↔ _
  cases x.toModel.unpack with
  | notANumber => exact iff_of_true rfl rfl
  | infinity | zero | finite =>
    refine iff_of_false Bool.false_ne_true fun h => ?_
    cases h

/-- An undefined number is not finite. -/
theorem isFinite_of_isNaN (h : x.isNaN = true) : x.isFinite = false := by
  change x.toModel.unpack.isFinite = false
  rw [isNaN_iff.mp h]
  rfl

/-- An undefined number equals no number. -/
theorem beq_of_isNaN (h : x.isNaN = true) (y : Float) : (x == y) = false := by
  change UnpackedFloat.beq x.toModel.unpack y.toModel.unpack = false
  rw [isNaN_iff.mp h]
  rfl

theorem isNaN_undefined : undefined.isNaN = true := by
  decide +kernel

/-! ## Arithmetic -/

/-- An operation on unpacked numbers that has no number for an undefined operand is undefined
on one. -/
theorem isNaN_of_strict (f : UnpackedFloat → UnpackedFloat → UnpackedFloat)
    (hleft : ∀ v, f .notANumber v = .notANumber) (hright : ∀ u, f u .notANumber = .notANumber)
    (h : x.isNaN = true ∨ y.isNaN = true) :
    (Float.ofModel (.pack (f x.toModel.unpack y.toModel.unpack))).isNaN = true := by
  have hvalue : f x.toModel.unpack y.toModel.unpack = .notANumber := by
    obtain h | h := h
    · rw [isNaN_iff.mp h, hleft]
    · rw [isNaN_iff.mp h, hright]
  rw [hvalue]
  decide

theorem isNaN_add (h : x.isNaN = true ∨ y.isNaN = true) : (x + y).isNaN = true :=
  isNaN_of_strict (.add .binary64) (fun _ => rfl) (fun u => by cases u <;> rfl) h

theorem isNaN_sub (h : x.isNaN = true ∨ y.isNaN = true) : (x - y).isNaN = true :=
  isNaN_of_strict (.sub .binary64) (fun _ => rfl) (fun u => by cases u <;> rfl) h

theorem isNaN_mul (h : x.isNaN = true ∨ y.isNaN = true) : (x * y).isNaN = true :=
  isNaN_of_strict (.mul .binary64) (fun _ => rfl) (fun u => by cases u <;> rfl) h

theorem isNaN_div (h : x.isNaN = true ∨ y.isNaN = true) : (x / y).isNaN = true :=
  isNaN_of_strict (.div .binary64) (fun _ => rfl) (fun u => by cases u <;> rfl) h

theorem isNaN_remainder (h : x.isNaN = true ∨ y.isNaN = true) :
    (remainder x y).isNaN = true := by
  have hvalue : remainder x y = undefined := by
    unfold remainder
    obtain h | h := h
    · rw [isNaN_iff.mp h]
    · rw [isNaN_iff.mp h]
      cases x.toModel.unpack <;> rfl
  rw [hvalue]
  exact isNaN_undefined

/-- A power is undefined with an undefined operand, unless the other one makes it one. -/
theorem isNaN_raise (hy : (y == 0.0) = false) (hx : (x == 1.0) = false)
    (h : x.isNaN = true ∨ y.isNaN = true) : (raise x y).isNaN = true := by
  have hnan : (x.isNaN || y.isNaN) = true := Bool.or_eq_true_iff.mpr h
  have hvalue : raise x y = undefined := by
    unfold raise
    rw [if_neg (Bool.not_eq_true _ ▸ hy), if_neg (Bool.not_eq_true _ ▸ hx), if_pos hnan]
  rw [hvalue]
  exact isNaN_undefined

/-! ## Operators and builtins -/

/-- No builtin makes a number of an undefined one. -/
theorem Builtin.isNaN_apply (f : Builtin) (h : x.isNaN = true) : (f.apply x).isNaN = true := by
  rw [apply, if_pos h]
  exact isNaN_undefined

namespace Operator

variable {op : Operator} {left right : Float}

/-- With this right operand the operator gives one, whatever the left one is. -/
def IgnoresLeft : Operator → (right : Float) → Prop
  | power, right => (right == 0.0) = true
  | nthRoot, right => (1.0 / right == 0.0) = true
  | _, _ => False

/-- With this left operand the operator gives one, whatever the right one is. -/
def IgnoresRight : Operator → (left : Float) → Prop
  | power, left => (left == 1.0) = true
  | nthRoot, left => (left == 1.0) = true
  | _, _ => False

/-- Where the left operand makes no difference the value is one. -/
theorem apply_of_ignoresLeft (h : op.IgnoresLeft right) (left : Float) :
    op.apply left right = 1.0 := by
  cases op with
  | power => exact if_pos h
  | nthRoot => exact if_pos h
  | add | subtract | multiply | divide | modulo => exact h.elim

theorem raise_of_beq_one (h : (left == 1.0) = true) (y : Float) : raise left y = 1.0 := by
  unfold raise
  split_ifs <;> rfl

/-- Where the right operand makes no difference the value is one. -/
theorem apply_of_ignoresRight (h : op.IgnoresRight left) (right : Float) :
    op.apply left right = 1.0 := by
  cases op with
  | power => exact raise_of_beq_one h right
  | nthRoot => exact raise_of_beq_one h (1.0 / right)
  | add | subtract | multiply | divide | modulo => exact h.elim

/-- No operator gives one to an undefined right operand whatever the left one is. -/
theorem not_ignoresLeft_of_isNaN (h : right.isNaN = true) : ¬op.IgnoresLeft right := by
  intro hignores
  cases op with
  | power => exact Bool.false_ne_true ((beq_of_isNaN h _).symm.trans hignores)
  | nthRoot =>
    have hexponent : (1.0 / right).isNaN = true := isNaN_div (.inr h)
    exact Bool.false_ne_true ((beq_of_isNaN hexponent _).symm.trans hignores)
  | add | subtract | multiply | divide | modulo => exact hignores

/-- No operator gives one to an undefined left operand whatever the right one is. -/
theorem not_ignoresRight_of_isNaN (h : left.isNaN = true) : ¬op.IgnoresRight left := by
  intro hignores
  cases op with
  | power | nthRoot => exact Bool.false_ne_true ((beq_of_isNaN h _).symm.trans hignores)
  | add | subtract | multiply | divide | modulo => exact hignores

/-- An undefined operand makes the value undefined, unless the other operand makes it one. -/
theorem isNaN_apply (hleft : ¬op.IgnoresRight left) (hright : ¬op.IgnoresLeft right)
    (h : left.isNaN = true ∨ right.isNaN = true) : (op.apply left right).isNaN = true := by
  cases op with
  | add => exact isNaN_add h
  | subtract => exact isNaN_sub h
  | multiply => exact isNaN_mul h
  | divide => exact isNaN_div h
  | modulo => exact isNaN_remainder h
  | power => exact isNaN_raise (Bool.eq_false_iff.mpr hright) (Bool.eq_false_iff.mpr hleft) h
  | nthRoot =>
    exact isNaN_raise (Bool.eq_false_iff.mpr hright) (Bool.eq_false_iff.mpr hleft)
      (h.imp_right fun h => isNaN_div (.inr h))

/-- An undefined left operand is passed on, unless it makes no difference. -/
theorem isNaN_apply_left (h : left.isNaN = true) (hright : ¬op.IgnoresLeft right) :
    (op.apply left right).isNaN = true :=
  isNaN_apply (not_ignoresRight_of_isNaN h) hright (.inl h)

/-- An undefined right operand is passed on, unless it makes no difference. -/
theorem isNaN_apply_right (h : right.isNaN = true) (hleft : ¬op.IgnoresRight left) :
    (op.apply left right).isNaN = true :=
  isNaN_apply hleft (not_ignoresLeft_of_isNaN h) (.inr h)

end Operator

end Formula
