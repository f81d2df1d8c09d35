/-!
# Amounts

Money is counted in the smallest unit of the currency, in signed 64-bit words.
`Amount.addSaturating` adds two amounts and stays at the end of the range where the exact
sum is outside it.
-/

namespace Reconciliation

/-- A sum of money in the smallest unit of its currency. -/
abbrev Amount := Int64

namespace Amount

/-- The smallest amount, as an integer. -/
def least : Int := -0x8000000000000000

/-- The largest amount, as an integer. -/
def greatest : Int := 0x7FFFFFFFFFFFFFFF

/-- The integer of the range of amounts that is nearest to `n`. -/
def clamp (n : Int) : Int :=
  if n < least then least else if greatest < n then greatest else n

theorem least_le_clamp (n : Int) :
  least ≤ clamp n
  := by
  unfold clamp least greatest
  split
  · omega
  · split
    · omega
    · omega

theorem clamp_le_greatest (n : Int) :
  clamp n ≤ greatest
  := by
  unfold clamp least greatest
  split
  · omega
  · split
    · omega
    · omega

/-- An integer in the range of amounts is its own clamped value. -/
theorem clamp_eq_self {n : Int} (hl : least ≤ n) (hg : n ≤ greatest) :
  clamp n = n
  := by
  unfold clamp
  rw [if_neg (by omega), if_neg (by omega)]

/-- The sum of two amounts, or the end of the range that it lies beyond. -/
def addSaturating (a b : Amount) : Amount :=
  Int64.ofInt (clamp (a.toInt + b.toInt))

/-- The exact value of a saturating sum. -/
theorem toInt_addSaturating (a b : Amount) :
  (addSaturating a b).toInt = clamp (a.toInt + b.toInt)
  := by
  have hl := least_le_clamp (a.toInt + b.toInt)
  have hg := clamp_le_greatest (a.toInt + b.toInt)
  unfold least at hl
  unfold greatest at hg
  exact Int64.toInt_ofInt_of_le hl (by omega)

end Amount

end Reconciliation
