import Mathlib.Data.Rat.Floor
import Mathlib.Tactic.Linarith
import Mathlib.Tactic.Ring

/-!
This module contains points of space with exact coordinates and the bounds on their squared
distance that a triangle gives.
-/

structure Point where
  x : ℚ
  y : ℚ
  z : ℚ
  deriving DecidableEq, Repr

namespace Point

def dist2 (p q : Point) : ℚ :=
  (p.x - q.x) * (p.x - q.x) + (p.y - q.y) * (p.y - q.y) + (p.z - q.z) * (p.z - q.z)

theorem dist2_comm (p q : Point) : dist2 p q = dist2 q p := by
  unfold dist2
  ring

theorem dist2_self (p : Point) : dist2 p p = 0 := by
  unfold dist2
  ring

theorem inner_le {x y z x' y' z' a b : ℚ} (ha : 0 ≤ a) (hb : 0 ≤ b)
    (h : x * x + y * y + z * z ≤ a * a) (h' : x' * x' + y' * y' + z' * z' ≤ b * b)
    : x * x' + y * y' + z * z' ≤ a * b := by
  have hpos : 0 ≤ x' * x' + y' * y' + z' * z' :=
    add_nonneg (add_nonneg (mul_self_nonneg x') (mul_self_nonneg y')) (mul_self_nonneg z')
  have hcauchy : (x * x' + y * y' + z * z') * (x * x' + y * y' + z * z')
      ≤ (x * x + y * y + z * z) * (x' * x' + y' * y' + z' * z') := by
    have hxy : 0 ≤ (x * y' - y * x') * (x * y' - y * x') := mul_self_nonneg _
    have hxz : 0 ≤ (x * z' - z * x') * (x * z' - z * x') := mul_self_nonneg _
    have hyz : 0 ≤ (y * z' - z * y') * (y * z' - z * y') := mul_self_nonneg _
    linarith
  have hprod : (x * x + y * y + z * z) * (x' * x' + y' * y' + z' * z') ≤ (a * a) * (b * b) :=
    mul_le_mul h h' hpos (mul_self_nonneg a)
  apply le_of_not_gt
  intro hgt
  have hab : 0 ≤ a * b := mul_nonneg ha hb
  have := mul_self_lt_mul_self hab hgt
  linarith

theorem dist2_triangle {p q r : Point} {a b : ℚ} (ha : 0 ≤ a) (hb : 0 ≤ b)
    (hpq : dist2 p q ≤ a * a) (hqr : dist2 q r ≤ b * b) : dist2 p r ≤ (a + b) * (a + b) := by
  have hinner := inner_le ha hb hpq hqr
  unfold dist2 at *
  have hsplit : ∀ u v w : ℚ, (u - w) * (u - w)
      = (u - v) * (u - v) + 2 * ((u - v) * (v - w)) + (v - w) * (v - w) := by
    intro u v w
    ring
  rw [hsplit p.x q.x r.x, hsplit p.y q.y r.y, hsplit p.z q.z r.z]
  linarith

end Point
