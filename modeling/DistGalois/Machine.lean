import Mathlib.Algebra.Order.Ring.Nat

/-!
# 32-bit unsigned arithmetic

The `unsigned` and `uint32_t` fields and counters of the application and of the
runtime are naturals below `2 ^ 32`: an assignment stores its value modulo
`2 ^ 32`, and `a -= b` wraps around below zero.
-/

namespace DistGalois

/-- The value a `uint32_t` variable holds after an assignment of `x`. -/
def u32 (x : Nat) : Nat := x % 2 ^ 32

/-- `a -= b` on `uint32_t`: subtraction modulo `2 ^ 32`. -/
def u32sub (a b : Nat) : Nat := u32 (a + (2 ^ 32 - u32 b))

@[simp] theorem u32_of_lt {x : Nat} (h : x < 2 ^ 32) : u32 x = x := Nat.mod_eq_of_lt h

theorem u32_lt (x : Nat) : u32 x < 2 ^ 32 := Nat.mod_lt _ (by decide)

@[simp] theorem u32_u32 (x : Nat) : u32 (u32 x) = u32 x := Nat.mod_mod _ _

theorem u32_add_u32 (x y : Nat) : u32 (u32 x + y) = u32 (x + y) := by
  simp only [u32, Nat.mod_add_mod]

theorem u32_add_congr {a b : Nat} (h : u32 a = u32 b) (x : Nat) : u32 (x + a) = u32 (x + b) := by
  simp only [u32] at *
  rw [Nat.add_mod, h, ← Nat.add_mod]

/-- A decrement that does not exceed the counter is exact. -/
theorem u32sub_of_le {a b : Nat} (ha : a < 2 ^ 32) (hb : b ≤ a) : u32sub a b = a - b := by
  simp only [u32sub, u32]
  rw [Nat.mod_eq_of_lt (by omega : b < 2 ^ 32)]
  rw [show a + (2 ^ 32 - b) = (a - b) + 2 ^ 32 by omega, Nat.add_mod_right,
    Nat.mod_eq_of_lt (by omega)]

/-- A decrement that exceeds the counter wraps around below zero. -/
theorem u32sub_of_lt {a b : Nat} (hb : b < 2 ^ 32) (h : a < b) :
    u32sub a b = 2 ^ 32 - (b - a) := by
  simp only [u32sub, u32]
  rw [Nat.mod_eq_of_lt hb, Nat.mod_eq_of_lt (by omega)]
  omega

end DistGalois
