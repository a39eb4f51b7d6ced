import PathTemplate.Text.Basic

/-!
# Hexadecimal digits

* `Hex.value?` — the value of a digit of either case.
* `Hex.upper` — the upper-case digit of a value below sixteen.
* `Hex.number`, `Hex.digits` — numbers, the most significant digit first.
-/

namespace PathTemplate.Hex

/-- The value of a hexadecimal digit, upper or lower case. -/
def value? (c : Char) : Option Nat :=
  if '0' ≤ c ∧ c ≤ '9' then some (c.toNat - 48)
  else if 'A' ≤ c ∧ c ≤ 'F' then some (c.toNat - 55)
  else if 'a' ≤ c ∧ c ≤ 'f' then some (c.toNat - 87)
  else none

/-- The upper-case digit of a value below sixteen. -/
def upper (n : Nat) : Char := if n < 10 then Char.ofNat (48 + n) else Char.ofNat (55 + n)

theorem value?_upper {n : Nat} (h : n < 16) : value? (upper n) = some n := by
  have : ∀ m : Fin 16, value? (upper m.val) = some m.val := by decide
  exact this ⟨n, h⟩

/-- The number written by `t`; characters that are no digits count as zero. -/
def number (t : Text) : Nat := t.foldl (fun n c => 16 * n + (value? c).getD 0) 0

/-- The number written by `t`, if `t` is a non-empty run of digits. -/
def number? (t : Text) : Option Nat :=
  if t ≠ [] ∧ t.all (fun c => (value? c).isSome) then some (number t) else none

/-- `n` in lower-case digits without padding. -/
def digits (n : Nat) : Text := Nat.toDigits 16 n

end PathTemplate.Hex
