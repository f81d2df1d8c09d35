import Reconciliation.Text.Numeral

/-!
# Reading numerals

Digits are read as the number that they stand for, and only if that number is in the range
(`Numeral.readDigits_eq_ok`): with every further digit the value moves away from zero, so it is
enough that the last one is in the range.  Hence the numeral of every number in the range is read
back (`Numeral.read_repr`).
-/

namespace Reconciliation.Numeral

variable {lo hi v : Int} {negative : Bool} {k : Nat} {digits : List Char} {c : Char}

/-- The number, counted downwards if `negative`. -/
def signed (negative : Bool) (n : Nat) : Int :=
  if negative then -n else n

/-- The number that the digits stand for after the value `k`. -/
def digitsValue (k : Nat) (digits : List Char) : Nat :=
  Nat.ofDigitChars 10 digits k

theorem digitsValue_cons :
  digitsValue k (c :: digits) = digitsValue (10 * k + (c.toNat - 48)) digits
  := Nat.ofDigitChars_cons

/-- Further digits do not bring a value closer to zero. -/
theorem le_digitsValue :
  k ≤ digitsValue k digits
  := by
  rw [digitsValue, Nat.ofDigitChars_eq_ofDigitChars_zero]
  have hpow : 1 ≤ 10 ^ digits.length := Nat.one_le_pow _ _ (by decide)
  have hmul : 1 * k ≤ 10 ^ digits.length * k := Nat.mul_le_mul_right k hpow
  omega

/-- A digit moves the value on. -/
theorem signed_digit (d : Nat) :
  (if negative then signed negative k * 10 - d else signed negative k * 10 + d)
    = signed negative (10 * k + d)
  := by
  cases negative with
  | false =>
    simp only [signed, Bool.false_eq_true, if_false]
    omega
  | true =>
    simp only [signed, if_true]
    omega

/-- A value beyond the range stays there with every further digit. -/
theorem between_of_le {m : Nat} (hlo : lo ≤ 0) (hhi : 0 ≤ hi) (h : k ≤ m)
    (hm : lo ≤ signed negative m ∧ signed negative m ≤ hi) :
  lo ≤ signed negative k ∧ signed negative k ≤ hi
  := by
  cases negative with
  | false =>
    simp only [signed, Bool.false_eq_true, if_false] at hm ⊢
    omega
  | true =>
    simp only [signed, if_true] at hm ⊢
    omega

/-- Digits are read as the number that they stand for, if it is in the range. -/
theorem readDigits_eq_ok (negative : Bool) (k : Nat) (hlo : lo ≤ 0) (hhi : 0 ≤ hi)
    (hk : lo ≤ signed negative k ∧ signed negative k ≤ hi) :
  readDigits lo hi negative (signed negative k) digits = .ok v ↔
    (∀ c ∈ digits, c.isDigit) ∧ v = signed negative (digitsValue k digits) ∧ lo ≤ v ∧ v ≤ hi
  := by
  induction digits generalizing k with
  | nil =>
    have hvalue : digitsValue k [] = k := rfl
    rw [readDigits, hvalue, Except.ok.injEq]
    constructor
    · rintro rfl
      exact ⟨nofun, rfl, hk⟩
    · rintro ⟨-, rfl, -⟩
      rfl
  | cons c digits ih =>
    rw [readDigits, digit?]
    by_cases hc : c.isDigit
    · rw [if_pos hc]
      dsimp only
      rw [signed_digit, digitsValue_cons]
      generalize 10 * k + (c.toNat - 48) = k'
      have hrange : v = signed negative (digitsValue k' digits) → lo ≤ v ∧ v ≤ hi →
          lo ≤ signed negative k' ∧ signed negative k' ≤ hi := by
        rintro rfl
        apply between_of_le hlo hhi le_digitsValue
      split
      · next hlarge =>
        simp only [reduceCtorEq, false_iff]
        rintro ⟨-, hv, hmem⟩
        exact Int.not_lt.2 (hrange hv hmem).2 hlarge
      · next hlarge =>
        split
        · next hsmall =>
          simp only [reduceCtorEq, false_iff]
          rintro ⟨-, hv, hmem⟩
          exact Int.not_lt.2 (hrange hv hmem).1 hsmall
        · next hsmall =>
          rw [ih k' ⟨Int.not_lt.1 hsmall, Int.not_lt.1 hlarge⟩, List.forall_mem_cons]
          simp only [hc, true_and]
    · rw [if_neg hc, List.forall_mem_cons]
      simp [hc]

/-- Digits without a sign are read from zero upwards. -/
theorem read_of_isDigit (h : ∀ c ∈ digits, c.isDigit) (hne : digits ≠ []) :
  read lo hi digits = readDigits lo hi false 0 digits
  := by
  unfold read
  split
  · exact absurd rfl hne
  · cases h '+' List.mem_cons_self
  · cases h '-' List.mem_cons_self
  · cases h '+' List.mem_cons_self
  · cases h '-' List.mem_cons_self
  · rfl

/-- Digits after a minus sign are read from zero downwards. -/
theorem read_minus (hlo : lo < 0) (hne : digits ≠ []) :
  read lo hi ('-' :: digits) = readDigits lo hi true 0 digits
  := by
  cases digits with
  | nil => exact absurd rfl hne
  | cons c digits => exact if_pos hlo

/-- The numeral of a negative number begins with a minus sign. -/
theorem toList_repr_negSucc (m : Nat) :
  (Int.negSucc m).repr.toList = '-' :: Nat.toDigits 10 (m + 1)
  := by
  show ("-" ++ Nat.repr (m + 1)).toList = _
  rw [String.toList_append, Nat.toList_repr]
  rfl

/-- The numeral of a number in the range is read back. -/
theorem read_repr {n : Int} (hlo : lo ≤ 0) (hhi : 0 ≤ hi) (hn : lo ≤ n ∧ n ≤ hi) :
  read lo hi n.repr.toList = .ok n
  := by
  have hdigits : ∀ m, ∀ c ∈ Nat.toDigits 10 m, c.isDigit :=
    fun _ _ => Nat.isDigit_of_mem_toDigits (by decide) (by decide)
  have hvalue : ∀ m, digitsValue 0 (Nat.toDigits 10 m) = m :=
    fun _ => Nat.ofDigitChars_ten_toDigits
  cases n with
  | ofNat m =>
    have hchars : (Int.ofNat m).repr.toList = Nat.toDigits 10 m := Nat.toList_repr
    rw [hchars, read_of_isDigit (hdigits m) Nat.toDigits_ne_nil]
    apply (readDigits_eq_ok false 0 hlo hhi ⟨hlo, hhi⟩).2
    rw [hvalue]
    exact ⟨hdigits m, rfl, hn⟩
  | negSucc m =>
    rw [toList_repr_negSucc, read_minus (by omega) Nat.toDigits_ne_nil]
    apply (readDigits_eq_ok true 0 hlo hhi ⟨hlo, hhi⟩).2
    rw [hvalue]
    exact ⟨hdigits _, rfl, hn⟩

/-- The numeral of a signed 64-bit word is read back. -/
theorem readInt64_repr (n : Int64) :
  readInt64 n.toInt.repr = .ok n
  := by
  have hleast := n.le_toInt
  have hmost := n.toInt_lt
  rw [readInt64, read_repr (by decide) (by decide) (by omega)]
  show Except.ok (Int64.ofInt n.toInt) = _
  rw [Int64.ofInt_toInt]

end Reconciliation.Numeral
