/-
# Powers of two and ten

The powers that bound words of a number of bits and that move a decimal point.
-/

namespace Tariff

/-- The `n`-th power of two. -/
def twoPow (n : Nat) : Nat := Nat.pow 2 n

/-- The `n`-th power of ten. -/
def tenPow (n : Nat) : Nat := Nat.pow 10 n

theorem tenPow_pos (n : Nat) : 0 < tenPow n := Nat.pow_pos (by decide)

theorem tenPow_succ (n : Nat) : tenPow (n + 1) = tenPow n * 10 := rfl

/-- A power of ten that moves the point at all is at least ten. -/
theorem ten_le_tenPow {n : Nat} (h : n ≠ 0) : 10 ≤ tenPow n := by
  obtain ⟨k, rfl⟩ := Nat.exists_eq_succ_of_ne_zero h
  have := tenPow_pos k
  rw [Nat.succ_eq_add_one, tenPow_succ]
  omega

/-- Whether a number is a signed integer of a number of bits. -/
def fitsSigned (bits : Nat) (value : Int) : Bool :=
  decide (-(twoPow (bits - 1) : Int) ≤ value) && decide (value < twoPow (bits - 1))

end Tariff
