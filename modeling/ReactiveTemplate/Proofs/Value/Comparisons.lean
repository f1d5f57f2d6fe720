import Mathlib.Data.String.Basic
import ReactiveTemplate.Evaluation.Evaluate

/-!
# Equality and order from both sides

Which of two values stands on the left makes no difference: the equalities are symmetric, and the
order turns around. This holds of values of all kinds, whatever is being modified meanwhile.

* `Number.compare_swap`: the order of doubles turns around, with `NaN` outside of it.
* `Value.looseEquals_comm`, `Value.strictEquals_comm`: the equalities are symmetric.
* `Value.looseEquals_of_strictEquals`: strict equality is the stronger one.
* `Value.compare?_swap`: the order turns around.
* `comparisons_cohere`: the same for the comparison operators.
-/

namespace ReactiveTemplate

/-! ## Doubles -/

namespace Number

open Float.Model (UnpackedFloat)

theorem compare_magnitudes_swap (m n : Nat) (p q : Int) :
    (compare q p).then (compare n m) = ((compare p q).then (compare m n)).swap := by
  have hexponents : compare q p = (compare p q).swap := Std.OrientedOrd.eq_swap
  have hmantissas : compare n m = (compare m n).swap := Std.OrientedOrd.eq_swap
  rw [hexponents, hmantissas, Ordering.swap_then]

/-- The order of two doubles turns around; none of them is before or behind `NaN`. -/
theorem compare_swap (x y : UnpackedFloat) : y.compare x = (x.compare y).map Ordering.swap := by
  cases x with
  | notANumber => cases y <;> rfl
  | infinity s =>
    cases y with
    | notANumber => cases s <;> rfl
    | infinity s' | zero s' => cases s <;> cases s' <;> rfl
    | finite s' => cases s <;> cases s' <;> rfl
  | zero s =>
    cases y with
    | notANumber => rfl
    | infinity s' | zero s' => cases s <;> cases s' <;> rfl
    | finite s' => cases s <;> cases s' <;> rfl
  | finite s m p =>
    cases y with
    | notANumber => cases s <;> rfl
    | infinity s' | zero s' => cases s <;> cases s' <;> rfl
    | finite s' n q =>
      cases s <;> cases s'
      case negative.negative =>
        exact congrArg (fun o => some o.swap) (compare_magnitudes_swap m n p q)
      case positive.positive => exact congrArg some (compare_magnitudes_swap m n p q)
      case negative.positive | positive.negative => rfl

theorem beq_eq_compare (x y : Float) :
    (x == y) = (x.toModel.unpack.compare y.toModel.unpack == some .eq) := rfl

/-- The order of two doubles as their parts have it. -/
theorem compareNumbers?_eq (x y : Float) :
    Value.compareNumbers? x y = x.toModel.unpack.compare y.toModel.unpack := by
  have hless : ∀ x y : Float, x < y ↔ x.toModel.unpack.compare y.toModel.unpack = some .lt :=
    fun x y => by
      show decide (x.toModel < y.toModel) = true ↔ _
      rw [decide_eq_true_eq]
      exact beq_iff_eq
  have hequal : (x == y) = true ↔ x.toModel.unpack.compare y.toModel.unpack = some .eq := by
    rw [beq_eq_compare]
    exact beq_iff_eq
  have hgreater : y < x ↔ x.toModel.unpack.compare y.toModel.unpack = some .gt := by
    rw [hless, compare_swap x.toModel.unpack]
    rcases x.toModel.unpack.compare y.toModel.unpack with _ | _ | _ | _ <;> simp
  simp only [Value.compareNumbers?, gt_iff_lt, hless x y, hgreater, hequal]
  rcases x.toModel.unpack.compare y.toModel.unpack with _ | _ | _ | _ <;> simp

theorem beq_comm (x y : Float) : (x == y) = (y == x) := by
  rw [beq_eq_compare, beq_eq_compare, compare_swap x.toModel.unpack]
  rcases x.toModel.unpack.compare y.toModel.unpack with _ | _ | _ | _ <;> rfl

end Number

/-! ## Equality -/

namespace Value

theorem strictEquals_comm (a b : Value) : a.strictEquals b = b.strictEquals a := by
  cases a <;> cases b
  case number.number x y => exact Number.beq_comm x y
  case bool.bool | text.text | object.object | array.array | function.function => exact BEq.comm
  all_goals rfl

theorem equalPrimitives_comm (a b : Value) : a.equalPrimitives b = b.equalPrimitives a := by
  cases a <;> cases b
  case number.text | text.number => exact Number.beq_comm _ _
  all_goals simp only [equalPrimitives, strictEquals_comm]

theorem looseEquals_comm (h : Heap) (a b : Value) : a.looseEquals h b = b.looseEquals h a := by
  rw [looseEquals, looseEquals, Bool.or_comm, Bool.and_comm]
  dsimp only
  rw [Bool.or_comm a.conditionAsNumber.isPrimitive, equalPrimitives_comm, strictEquals_comm]

/-- Values that are strictly equal are equal after any conversion, since both are converted alike. -/
theorem looseEquals_of_strictEquals {h : Heap} {a b : Value} (heq : a.strictEquals b = true) :
    a.looseEquals h b = true := by
  cases a <;> cases b
  case undefined.undefined | null.null => rfl
  case bool.bool x y =>
    obtain rfl : x = y := beq_iff_eq.1 heq
    have hnumber : (ofBool x == ofBool x) = true := by cases x <;> decide
    exact hnumber
  case number.number | text.text | object.object | array.array | function.function => exact heq
  all_goals cases heq

/-! ## Order -/

theorem compare?_swap (h : Heap) (a b : Value) :
    b.compare? h a = (a.compare? h b).map Ordering.swap := by
  have htexts : ∀ s t : String, compareOfLessAndEq t s = (compareOfLessAndEq s t).swap :=
    fun s t => by
      rw [← LinearOrder.compare_eq_compareOfLessAndEq, ← LinearOrder.compare_eq_compareOfLessAndEq]
      exact Std.OrientedOrd.eq_swap
  have hnumbers : ∀ x y : Float, compareNumbers? y x = (compareNumbers? x y).map Ordering.swap :=
    fun x y => by
      rw [Number.compareNumbers?_eq, Number.compareNumbers?_eq]
      exact Number.compare_swap _ _
  rw [compare?, compare?]
  cases a.toPrimitive h <;> cases b.toPrimitive h
  case text.text s t => exact congrArg some (htexts s t)
  all_goals exact hnumbers _ _

end Value

/-- Both equalities are symmetric and the strict one implies the loose one, and the order turns around
    with its values. So two values can change sides where the operator is turned around, and the
    operators that allow for equality are the strict ones or equality in the order. -/
theorem comparisons_cohere (h : Heap) (a b : Value) :
    a.looseEquals h b = b.looseEquals h a ∧
      a.strictEquals b = b.strictEquals a ∧
      (a.strictEquals b = true → a.looseEquals h b = true) ∧
      b.compare? h a = (a.compare? h b).map Ordering.swap ∧
      CompareOp.less.holds h a b = CompareOp.greater.holds h b a ∧
      CompareOp.lessOrEqual.holds h a b = CompareOp.greaterOrEqual.holds h b a ∧
      (CompareOp.lessOrEqual.holds h a b = true ↔
        CompareOp.less.holds h a b = true ∨ a.compare? h b = some .eq) := by
  have hswap : b.compare? h a = (a.compare? h b).map Ordering.swap := Value.compare?_swap h a b
  refine ⟨Value.looseEquals_comm h a b, Value.strictEquals_comm a b,
    Value.looseEquals_of_strictEquals, hswap, ?_, ?_, ?_⟩
  · rw [CompareOp.holds, CompareOp.holds, hswap]
    rcases a.compare? h b with _ | _ | _ | _ <;> rfl
  · rw [CompareOp.holds, CompareOp.holds, hswap]
    rcases a.compare? h b with _ | _ | _ | _ <;> rfl
  · rw [CompareOp.holds, CompareOp.holds, Bool.or_eq_true, beq_iff_eq, beq_iff_eq]

end ReactiveTemplate
