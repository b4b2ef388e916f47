import Mathlib.Data.List.Nodup
import Mathlib.Data.List.Perm.Basic
import Svc.Common.Decimal
import Svc.Svcenet.SvcParser

/-!
# wxWidgets

What the wx client asks of the library, as a parameter: reading a number, and a list box that
sorts its items.
-/

namespace Svc.Svcenet

open Svc.Common Svc.Lib

open SVCParser (byteChar ofBytes ofBytes_cons ofBytes_eq_nil_iff toInt_byteChar)

structure WxWidgets where
  /-- what `ToULong` with base 10 stores; `none` if the string is no such number -/
  toULong : WxString → Option Nat
  /-- the items of a list box and the selected one after `Insert(name, 0)` -/
  insert : (items : WxArrayString) → (selection : Option Nat) → WxString →
    WxArrayString × Option Nat
  /-- `FindString(name, true)`; `none` is `wxNOT_FOUND`. -/
  findString : (items : WxArrayString) → WxString → Option Nat

/-- Numbers that `printf` wrote are read back; a new item goes somewhere, and the selected one
stays selected; an item is found where it is. -/
structure WxWidgets.Lawful (wx : WxWidgets) : Prop where
  toULong_decimal : ∀ signed n, n < 2 ^ 64 → wx.toULong (ofBytes signed (decimal n)) = some n
  insert_perm : ∀ items selection name,
    (wx.insert items selection name).1.Perm (name :: items)
  insert_selection : ∀ items selection name i, (wx.insert items selection name).2 = some i →
    ∃ j, selection = some j ∧ (wx.insert items selection name).1[i]? = items[j]?
  findString_eq_some_iff : ∀ items name i, items.Nodup →
    (wx.findString items name = some i ↔ items[i]? = some name)

/-! ## Numbers -/

def isWxSpace (c : WxChar) : Bool :=
  c == wxChr ' ' || c == wxChr '\t' || c == wxChr '\n' || c == 11 || c == 12 || c == wxChr '\r'

def isWxDigit (c : WxChar) : Bool := decide (wxChr '0' ≤ c ∧ c ≤ wxChr '9')

def wxNumber (digits : WxString) : Option Nat :=
  let n := digits.foldl (fun n c => 10 * n + (c.toInt - 48).toNat) 0
  if digits ≠ [] ∧ digits.all isWxDigit ∧ n < 2 ^ 64 then some n else none

/-- What `ToULong` with base 10 stores; `none` if the string is no such number. -/
def toULong (s : WxString) : Option Nat :=
  match s.dropWhile isWxSpace with
  | [] => none
  | c :: rest =>
      if c = wxChr '-' then (wxNumber rest).map fun n => (2 ^ 64 - n) % 2 ^ 64
      else if c = wxChr '+' then wxNumber rest
      else wxNumber (c :: rest)

section Numbers

variable (signed : Bool) {b : UInt8} {digits : Bytes} {c : WxChar}

theorem toInt_byteChar_of_isDigit (hb : isDigit b = true) :
    (byteChar signed b).toInt = b.toNat ∧ 48 ≤ b.toNat ∧ b.toNat ≤ 57 := by
  have hrange : 48 ≤ b.toNat ∧ b.toNat ≤ 57 := of_decide_eq_true hb
  refine ⟨?_, hrange⟩
  rw [toInt_byteChar, if_neg (by omega)]

theorem isWxDigit_byteChar (hb : isDigit b = true) : isWxDigit (byteChar signed b) = true := by
  obtain ⟨hint, hlo, hhi⟩ := toInt_byteChar_of_isDigit signed hb
  have h0 : (wxChr '0').toInt = 48 := by decide
  have h9 : (wxChr '9').toInt = 57 := by decide
  rw [isWxDigit, decide_eq_true_eq, Int32.le_iff_toInt_le, Int32.le_iff_toInt_le, hint, h0, h9]
  omega

theorem foldl_ofBytes (hdigits : ∀ b ∈ digits, isDigit b = true) (n : Nat) :
    (ofBytes signed digits).foldl (fun n c => 10 * n + (c.toInt - 48).toNat) n =
      digits.foldl (fun n b => 10 * n + (b.toNat - 48)) n := by
  induction digits generalizing n with
  | nil => rfl
  | cons b digits ih =>
      obtain ⟨hb, hdigits⟩ := List.forall_mem_cons.1 hdigits
      obtain ⟨hint, hlo, -⟩ := toInt_byteChar_of_isDigit signed hb
      have hval : ((byteChar signed b).toInt - 48).toNat = b.toNat - 48 := by omega
      rw [ofBytes_cons, List.foldl_cons, List.foldl_cons, hval]
      exact ih hdigits _

theorem all_isWxDigit_decimal (n : Nat) : (ofBytes signed (decimal n)).all isWxDigit = true := by
  rw [ofBytes, List.all_map, List.all_eq_true]
  exact fun b hb => isWxDigit_byteChar signed (isDigit_of_mem_decimal hb)

theorem wxNumber_decimal {n : Nat} (hn : n < 2 ^ 64) :
    wxNumber (ofBytes signed (decimal n)) = some n := by
  have hvalue := (foldl_ofBytes signed (fun b hb => isDigit_of_mem_decimal hb) 0).trans
    (foldl_decimal n)
  have hne : ofBytes signed (decimal n) ≠ [] := fun h => decimal_ne_nil n (ofBytes_eq_nil_iff.1 h)
  simp only [wxNumber, hvalue]
  exact if_pos ⟨hne, all_isWxDigit_decimal signed n, hn⟩

theorem not_special_of_isWxDigit (hc : isWxDigit c = true) :
    isWxSpace c = false ∧ c ≠ wxChr '-' ∧ c ≠ wxChr '+' := by
  have hne : ∀ d, isWxDigit d = false → c ≠ d := by
    rintro d hd rfl
    rw [hc] at hd
    cases hd
  have hbeq : ∀ d, isWxDigit d = false → (c == d) = false := fun d hd =>
    beq_eq_false_iff_ne.2 (hne d hd)
  refine ⟨?_, hne _ (by decide), hne _ (by decide)⟩
  simp only [isWxSpace, Bool.or_eq_false_iff]
  exact ⟨⟨⟨⟨⟨hbeq _ (by decide), hbeq _ (by decide)⟩, hbeq _ (by decide)⟩, hbeq _ (by decide)⟩,
    hbeq _ (by decide)⟩, hbeq _ (by decide)⟩

/-- `ToULong` reads back what `printf` wrote. -/
theorem toULong_decimal {n : Nat} (hn : n < 2 ^ 64) :
    toULong (ofBytes signed (decimal n)) = some n := by
  have hnumber := wxNumber_decimal signed hn
  have hall := all_isWxDigit_decimal signed n
  have hne : ofBytes signed (decimal n) ≠ [] := fun h => decimal_ne_nil n (ofBytes_eq_nil_iff.1 h)
  obtain ⟨c, rest, hcons⟩ := List.exists_cons_of_ne_nil hne
  rw [hcons] at hnumber hall ⊢
  obtain ⟨hspace, hminus, hplus⟩ :=
    not_special_of_isWxDigit (List.all_eq_true.1 hall c List.mem_cons_self)
  rw [toULong, List.dropWhile_cons_of_neg (by simp [hspace])]
  dsimp only
  rw [if_neg hminus, if_neg hplus, hnumber]

end Numbers

/-! ## A list box -/

def plainWidgets : WxWidgets where
  toULong := toULong
  insert items selection name := (name :: items, selection.map (· + 1))
  findString items name := items.findIdx? (· = name)

theorem lawful_plainWidgets : plainWidgets.Lawful where
  toULong_decimal signed _ hn := toULong_decimal signed hn
  insert_perm _ _ _ := List.Perm.refl _
  insert_selection items selection name i hi := by
    obtain ⟨j, hj, rfl⟩ := Option.map_eq_some_iff.1 hi
    exact ⟨j, hj, rfl⟩
  findString_eq_some_iff items name i hnodup := by
    change items.findIdx? (· = name) = some i ↔ _
    rw [List.findIdx?_eq_some_iff_getElem]
    constructor
    · rintro ⟨hi, hname, -⟩
      rw [List.getElem?_eq_getElem hi, of_decide_eq_true hname]
    · intro h
      obtain ⟨hi, rfl⟩ := List.getElem?_eq_some_iff.1 h
      refine ⟨hi, decide_eq_true rfl, fun j hj heq => ?_⟩
      have hij : j = i := hnodup.getElem_inj_iff.1 (of_decide_eq_true heq)
      omega

end Svc.Svcenet
