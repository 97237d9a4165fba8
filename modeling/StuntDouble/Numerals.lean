import Mathlib.Algebra.Group.Nat.Defs
import Mathlib.Data.List.Nodup

/-!
Positional numerals of a base up to sixteen, with small letters, and padded with zeros to a
least width. A padded numeral still tells its number, whatever its width came to; and a
numeral that fits its width can be split off from whatever stands behind it.
-/
namespace StuntDouble.Numerals

def digitValue (c : Char) : ℕ := if c.toNat < 58 then c.toNat - 48 else c.toNat - 87

/-- The number that some digits stand for. -/
def value (base : ℕ) (digits : List Char) : ℕ :=
  digits.foldl (fun n digit => n * base + digitValue digit) 0

/-- The digits of a number, behind as many zeros as the width asks for. -/
def padded (base width n : ℕ) : List Char :=
  List.replicate (width - (Nat.toDigits base n).length) '0' ++ Nat.toDigits base n

theorem digitValue_digitChar {n : ℕ} (h : n < 16) : digitValue (Nat.digitChar n) = n := by
  have hall : ∀ n : Fin 16, digitValue (Nat.digitChar n) = n.val := by decide
  exact hall ⟨n, h⟩

variable {base : ℕ}

theorem value_concat (digits : List Char) (digit : Char) :
    value base (digits ++ [digit]) = value base digits * base + digitValue digit :=
  List.foldl_append

theorem value_zeros (count : ℕ) (digits : List Char) :
    value base (List.replicate count '0' ++ digits) = value base digits := by
  induction count with
  | zero => rfl
  | succ count ih =>
    have hzero : 0 * base + digitValue '0' = 0 := by rw [Nat.zero_mul]; rfl
    rw [List.replicate_succ, List.cons_append, value, List.foldl_cons, hzero]
    exact ih

theorem value_toDigits (hbase : 1 < base) (hletters : base ≤ 16) (n : ℕ) :
    value base (Nat.toDigits base n) = n := by
  induction n using Nat.strongRecOn with
  | _ n ih =>
    by_cases hlt : n < base
    · rw [Nat.toDigits_of_lt_base hlt, ← List.nil_append [Nat.digitChar n], value_concat,
        digitValue_digitChar (by omega), value, List.foldl_nil, Nat.zero_mul, Nat.zero_add]
    · have hdigit : n % base < base := Nat.mod_lt n (by omega)
      have hless : n / base < n := Nat.div_lt_self (by omega) hbase
      rw [Nat.toDigits_of_base_le hbase (by omega), value_concat, ih _ hless,
        digitValue_digitChar (by omega), Nat.mul_comm, Nat.div_add_mod]

theorem value_padded (hbase : 1 < base) (hletters : base ≤ 16) (width n : ℕ) :
    value base (padded base width n) = n := by
  rw [padded, value_zeros, value_toDigits hbase hletters]

theorem padded_injective (hbase : 1 < base) (hletters : base ≤ 16) (width : ℕ) :
    Function.Injective (padded base width) := by
  intro n m h
  have hvalue := congrArg (value base) h
  rw [value_padded hbase hletters, value_padded hbase hletters] at hvalue
  exact hvalue

/-- A number that fits is as long as its width. -/
theorem padded_length (hbase : 1 < base) {width n : ℕ} (hwidth : 0 < width)
    (hn : n < base ^ width) : (padded base width n).length = width := by
  have hle := (Nat.length_toDigits_le_iff hbase hwidth).mpr hn
  rw [padded, List.length_append, List.length_replicate]
  omega

/-- Two numerals tell their numbers when the first of them fits its width; the second one may
outgrow its own. -/
theorem padded_append_inj (hbase : 1 < base) (hletters : base ≤ 16) {width : ℕ}
    (hwidth : 0 < width) (tail : ℕ) {n m : ℕ} (hn : n < base ^ width) (hm : m < base ^ width)
    {k l : ℕ} (h : padded base width n ++ padded base tail k =
      padded base width m ++ padded base tail l) : n = m ∧ k = l := by
  have hlength : (padded base width n).length = (padded base width m).length := by
    rw [padded_length hbase hwidth hn, padded_length hbase hwidth hm]
  obtain ⟨hfront, hback⟩ := List.append_inj h hlength
  exact ⟨padded_injective hbase hletters width hfront, padded_injective hbase hletters tail hback⟩

end StuntDouble.Numerals
