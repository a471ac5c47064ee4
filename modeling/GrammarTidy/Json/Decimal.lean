namespace GrammarTidy.Json.Decimal

/-! Natural numbers in decimal notation, as lists of digits. -/

def digit (value : Nat) : Char := Char.ofNat ('0'.toNat + value)

def digitValue (char : Char) : Nat := char.toNat - '0'.toNat

/-- The digits of a number, without leading zeros; zero has one digit. -/
def digits (number : Nat) : List Char :=
  if number < 10 then
    [digit number]
  else
    digits (number / 10) ++ [digit (number % 10)]

def value (digits : List Char) : Nat :=
  digits.foldl (fun number char => 10 * number + digitValue char) 0

private theorem digitValue_digit {number : Nat} (small : number < 10) :
    digitValue (digit number) = number := by
  have all : ∀ each : Fin 10, digitValue (digit each.val) = each.val := by decide
  exact all ⟨number, small⟩

private theorem isDigit_digit {number : Nat} (small : number < 10) :
    (digit number).isDigit = true := by
  have all : ∀ each : Fin 10, (digit each.val).isDigit = true := by decide
  exact all ⟨number, small⟩

@[simp] theorem value_digits (number : Nat) : value (digits number) = number := by
  induction number using Nat.strongRecOn with
  | ind number induction =>
      unfold digits
      split
      · next small =>
          simp [value, digitValue_digit small]
      · next large =>
          have shorter := induction (number / 10) (by omega)
          have last : digitValue (digit (number % 10)) = number % 10 :=
            digitValue_digit (by omega)
          simp only [value, List.foldl_append, List.foldl_cons, List.foldl_nil] at shorter ⊢
          rw [shorter, last]
          omega

theorem isDigit_of_mem_digits {number : Nat} {char : Char} (member : char ∈ digits number) :
    char.isDigit = true := by
  induction number using Nat.strongRecOn with
  | ind number induction =>
      unfold digits at member
      split at member
      · next small =>
          rw [List.mem_singleton] at member
          exact member ▸ isDigit_digit small
      · next large =>
          rcases List.mem_append.mp member with earlier | last
          · exact induction (number / 10) (by omega) earlier
          · rw [List.mem_singleton] at last
            exact last ▸ isDigit_digit (by omega)

end GrammarTidy.Json.Decimal
