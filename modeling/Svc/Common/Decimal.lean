import Mathlib.Algebra.Group.Int.Defs
import Mathlib.Algebra.Group.Nat.Defs
import Svc.Common.Dstr

/-!
# Decimal numbers in text

Peer ids are written by `sprintf` with `%i` and read back by `atoi`.
-/

namespace Svc.Common

/-- `sprintf(buff, "%i", n)` for a number that is not negative -/
def decimal (n : Nat) : Bytes := (Nat.toDigits 10 n).map chr

def isSpace (b : UInt8) : Bool :=
  b == chr ' ' || b == chr '\t' || b == chr '\n' || b == 11 || b == 12 || b == chr '\r'

def isDigit (b : UInt8) : Bool := decide (chr '0' ≤ b ∧ b ≤ chr '9')

def leadingDigits (text : Bytes) : Nat :=
  (text.takeWhile isDigit).foldl (fun n b => 10 * n + (b.toNat - 48)) 0

/-- `strtol` in base 10; a `long` has 64 bits. -/
def strtol (s : CString) : Int :=
  let value : Int :=
    match s.bytes.dropWhile isSpace with
    | [] => 0
    | b :: rest =>
        if b = chr '-' then -leadingDigits rest
        else if b = chr '+' then leadingDigits rest
        else leadingDigits (b :: rest)
  if value < -2 ^ 63 then -2 ^ 63
  else if 2 ^ 63 ≤ value then 2 ^ 63 - 1
  else value

/-- `atoi`: the `long` cut to an `int` -/
def atoi (s : CString) : Int := (strtol s).bmod (2 ^ 32)

/-! ## Reading a number back -/

theorem chr_digitChar {d : Nat} (hd : d < 10) :
    isDigit (chr d.digitChar) = true ∧ (chr d.digitChar).toNat - 48 = d := by
  revert d
  decide

theorem decimal_of_lt {n : Nat} (hn : n < 10) : decimal n = [chr n.digitChar] := by
  rw [decimal, Nat.toDigits_of_lt_base hn]
  rfl

theorem decimal_of_le {n : Nat} (hn : 10 ≤ n) :
    decimal n = decimal (n / 10) ++ [chr (n % 10).digitChar] := by
  rw [decimal, Nat.toDigits_of_base_le (by decide) hn, List.map_append]
  rfl

theorem isDigit_of_mem_decimal {n : Nat} {b : UInt8} (hb : b ∈ decimal n) : isDigit b = true := by
  induction n using Nat.strongRecOn with
  | ind n ih =>
      by_cases hn : n < 10
      · rw [decimal_of_lt hn, List.mem_singleton] at hb
        exact hb ▸ (chr_digitChar hn).1
      · rw [decimal_of_le (by omega), List.mem_append, List.mem_singleton] at hb
        rcases hb with hb | rfl
        · exact ih (n / 10) (by omega) hb
        · exact (chr_digitChar (Nat.mod_lt n (by decide))).1

theorem foldl_decimal (n : Nat) :
    (decimal n).foldl (fun n b => 10 * n + (b.toNat - 48)) 0 = n := by
  induction n using Nat.strongRecOn with
  | ind n ih =>
      by_cases hn : n < 10
      · simp [decimal_of_lt hn, (chr_digitChar hn).2]
      · rw [decimal_of_le (by omega), List.foldl_append, ih (n / 10) (by omega), List.foldl_cons,
          List.foldl_nil, (chr_digitChar (Nat.mod_lt n (by decide))).2]
        omega

theorem leadingDigits_decimal (n : Nat) : leadingDigits (decimal n) = n := by
  rw [leadingDigits, List.takeWhile_eq_self_iff.2 fun b hb => isDigit_of_mem_decimal hb,
    foldl_decimal]

theorem decimal_ne_nil (n : Nat) : decimal n ≠ [] := by
  simp [decimal, Nat.toDigits_ne_nil]

theorem ne_of_isDigit {b c : UInt8} (hb : isDigit b = true) (hc : isDigit c = false) : b ≠ c := by
  rintro rfl
  simp [hb] at hc

theorem not_special_of_isDigit {b : UInt8} (hb : isDigit b = true) :
    isSpace b = false ∧ b ≠ chr '-' ∧ b ≠ chr '+' ∧ b ≠ 0 := by
  refine ⟨?_, ne_of_isDigit hb rfl, ne_of_isDigit hb rfl, ne_of_isDigit hb rfl⟩
  have hne : ∀ c, isDigit c = false → (b == c) = false := fun c hc =>
    beq_eq_false_iff_ne.2 (ne_of_isDigit hb hc)
  simp only [isSpace, Bool.or_eq_false_iff]
  exact ⟨⟨⟨⟨⟨hne _ rfl, hne _ rfl⟩, hne _ rfl⟩, hne _ rfl⟩, hne _ rfl⟩, hne _ rfl⟩

theorem nulFree_decimal (n : Nat) : 0 ∉ decimal n :=
  fun h => (not_special_of_isDigit (isDigit_of_mem_decimal h)).2.2.2 rfl

theorem strtol_decimal {n : Nat} (hn : n < 2 ^ 63) : strtol (asCString (decimal n)) = n := by
  have hvalue := leadingDigits_decimal n
  rw [strtol, asCString_of_nulFree (nulFree_decimal n)]
  cases hd : decimal n with
  | nil => exact absurd hd (decimal_ne_nil n)
  | cons b rest =>
      have hb := not_special_of_isDigit (isDigit_of_mem_decimal (n := n) (b := b) (by simp [hd]))
      rw [hd] at hvalue
      have hword : b :: rest = List.dropWhile isSpace (b :: rest) := by simp [hb.1]
      simp only [← hword, if_neg hb.2.1, if_neg hb.2.2.1, hvalue]
      rw [if_neg (by omega), if_neg (by omega)]

theorem atoi_decimal {n : Nat} (hn : n < 2 ^ 31) : atoi (asCString (decimal n)) = n := by
  rw [atoi, strtol_decimal (by omega)]
  exact Int.bmod_eq_of_le_mul_two (by omega) (by omega)

end Svc.Common
