import Mathlib.Algebra.Ring.Int.Defs
import Mathlib.Algebra.Ring.Nat

/-!
# Values of the M2M layer
-/

namespace Ong.M2M

/-- The constants of the class `StatusCode`, in the order of their ordinals. -/
inductive StatusCode
  | ok | created | accepted
  | badRequest | permissionDenied | forbidden | notFound | methodNotAllowed | notAcceptable
  | requestTimeout | conflict | unsupportedMediaType
  | internalServerError | notImplemented | badGateway | serviceUnavailable | gatewayTimeout
  | deleted | expired
  deriving DecidableEq

/-- A resource path, as the list of its segments. -/
abbrev Path := List String

/-- The value of a `long` expression whose mathematical value is `x`. -/
def toLong (x : Int) : Int := x.bmod (2 ^ 64)

/-- The cast of a `long` to `int`. -/
def toInt (x : Int) : Int := x.bmod (2 ^ 32)

theorem bind_eq_ok {ε α β : Type*} {x : Except ε α} {f : α → Except ε β} {b : β}
    (h : x.bind f = .ok b) : ∃ a, x = .ok a ∧ f a = .ok b := by
  cases x with
  | error e => cases h
  | ok a => exact ⟨a, rfl, h⟩

theorem toLong_toLong_add (x y : Int) : toLong (toLong x + y) = toLong (x + y) :=
  Int.bmod_add_bmod

theorem toLong_toLong_sub (x y : Int) : toLong (toLong x - y) = toLong (x - y) :=
  Int.bmod_sub_bmod

theorem toLong_of_range {x : Int} (h : -2 ^ 63 ≤ x) (h' : x < 2 ^ 63) : toLong x = x := by
  unfold toLong
  rw [Int.bmod_eq_of_le] <;> omega

theorem toLong_of_lt {x : Int} (h : 0 ≤ x) (h' : x < 2 ^ 63) : toLong x = x :=
  toLong_of_range (by omega) h'

theorem toLong_lt (x : Int) : toLong x < 2 ^ 63 := by
  have := @Int.bmod_lt x (2 ^ 64) (by decide)
  unfold toLong
  omega

theorem le_toLong (x : Int) : -2 ^ 63 ≤ toLong x := by
  have := @Int.le_bmod x (2 ^ 64) (by decide)
  unfold toLong
  omega

theorem toInt_of_lt {x : Int} (h : 0 ≤ x) (h' : x < 2 ^ 31) : toInt x = x := by
  unfold toInt
  rw [Int.bmod_eq_of_le] <;> omega

end Ong.M2M
