/-!
# Numbers with a fixed number of decimal places

## What is here

* `Decimal.roundDiv` — a quotient of natural numbers rounded to the nearest whole number
  (`roundDiv_near`); a half goes to the even neighbour (`roundDiv_even_of_tie`).
* `Decimal.fixed` — a quotient written with a given number of places after the point, rounded in
  this way.
* `Decimal.fraction` — the exact value of a double that is finite and not negative, as a quotient.
-/

set_option autoImplicit false
namespace TableStore
namespace Decimal

/-- The whole number nearest to `num / den`; of two equally near, the even one. -/
def roundDiv (num den : Nat) : Nat :=
  let q := num / den
  let r := num % den
  if 2 * r < den then q
  else if den < 2 * r then q + 1
  else q + q % 2

/-- Rounding moves a quotient by at most a half. -/
theorem roundDiv_near (num : Nat) {den : Nat} (pos : 0 < den) :
    2 * (roundDiv num den * den) ≤ 2 * num + den ∧
      2 * num ≤ 2 * (roundDiv num den * den) + den := by
  have h := Nat.div_add_mod num den
  have hr := Nat.mod_lt num pos
  have hs : (num / den + 1) * den = num / den * den + den := Nat.succ_mul _ _
  rw [Nat.mul_comm] at h
  simp only [roundDiv]
  generalize num / den = q at *
  generalize num % den = r at *
  by_cases h₁ : 2 * r < den
  · rw [if_pos h₁]
    omega
  · by_cases h₂ : den < 2 * r
    · rw [if_neg h₁, if_pos h₂]
      omega
    · rw [if_neg h₁, if_neg h₂]
      rcases Nat.mod_two_eq_zero_or_one q with e | e <;> rw [e]
      · rw [Nat.add_zero]
        omega
      · omega

/-- Half-way between two neighbours, the even one is taken. -/
theorem roundDiv_even_of_tie {num den : Nat} (tie : 2 * (num % den) = den) :
    roundDiv num den % 2 = 0 := by
  rw [roundDiv]
  simp only [tie, Nat.lt_irrefl, ↓reduceIte]
  omega

/-- The quotient `num / den` with `places` digits after the point. -/
def fixed (places num den : Nat) : String :=
  let unit := Nat.pow 10 places
  let scaled := roundDiv (num * unit) den
  let digits := Nat.toDigits 10 (scaled % unit)
  let padded := List.replicate (places - digits.length) '0' ++ digits
  toString (scaled / unit) ++ "." ++ String.ofList padded

/-- The value of a finite double that is not negative: its significand, scaled by the power of two
that its exponent names. -/
def fraction (x : Float) : Nat × Nat :=
  let bits := x.toBits.toNat
  let field := (bits >>> 52) % (1 <<< 11)
  let low := bits % (1 <<< 52)
  let significand := if field = 0 then low else (1 <<< 52) + low
  let exponent := if field = 0 then 1 else field
  (significand <<< (exponent - 1075), 1 <<< (1075 - exponent))

/-- Halves go to the even neighbour, and short fractions are padded. -/
example : fixed 2 5 1000 = "0.00" ∧ fixed 2 15 1000 = "0.02" ∧ fixed 2 7 1 = "7.00" := by
  decide +kernel

end Decimal
end TableStore
