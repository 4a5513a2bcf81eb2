import Layering.Json.Number
import Mathlib.Data.List.TakeWhile
import Mathlib.Tactic.NormNum

namespace Layering.Json.Number

variable {n : Nat} {ds : List Char}

theorem toDigits_head_ne_zero (h : 0 < n) : (Nat.toDigits 10 n).head? ≠ some '0' := by
  induction n using Nat.base_induction 10 (by decide) with
  | single m hm => simpa [Nat.toDigits_of_lt_base hm] using Nat.ne_of_gt h
  | digit m k hk hm ih =>
      rw [← Nat.toDigits_append_toDigits (by decide) hm hk, List.head?_append]
      simpa [Nat.toDigits_ne_nil] using ih hm

theorem toDigits_ne_leadingZero (n : Nat) (c : Char) (cs : List Char) : Nat.toDigits 10 n ≠ '0' :: c :: cs := by
  intro he
  cases n with
  | zero => simp at he
  | succ n => exact toDigits_head_ne_zero (Nat.succ_pos n) (by rw [he]; rfl)

theorem le_ofDigitChars (n : Nat) (ds : List Char) : n ≤ Nat.ofDigitChars 10 ds n := by
  rw [Nat.ofDigitChars_eq_ofDigitChars_zero]
  have hp : 1 ≤ 10 ^ ds.length := Nat.one_le_pow _ _ (by decide)
  calc n = 1 * n := (Nat.one_mul n).symm
    _ ≤ 10 ^ ds.length * n := Nat.mul_le_mul_right n hp
    _ ≤ _ := Nat.le_add_right _ _

theorem significand_eq (h : Nat.ofDigitChars 10 ds n < UInt64.size) :
    significand n ds = (Nat.ofDigitChars 10 ds n, []) := by
  induction ds generalizing n with
  | nil => simp [significand]
  | cons c cs ih =>
      rw [Nat.ofDigitChars_cons] at h ⊢
      have hlt : 10 * n + digit c < UInt64.size := Nat.lt_of_le_of_lt (le_ofDigitChars _ cs) h
      simp only [significand, hlt, if_true]
      exact ih h

theorem takeSign_digits (negative : Bool) (hd : ∀ c ∈ ds, c.isDigit) :
    takeSign (if negative then '-' :: ds else ds) = (negative, ds) := by
  cases negative with
  | true => rfl
  | false =>
      simp only [Bool.false_eq_true, if_false]
      unfold takeSign
      split
      · simpa using hd '-' (by simp)
      · rfl

theorem Parts.ofChars_digits (negative : Bool) (hd : ∀ c ∈ ds, c.isDigit) (hw : isWhole ds) :
    Parts.ofChars (if negative then '-' :: ds else ds) = some ⟨negative, ds, none, none⟩ := by
  have ht : ds.takeWhile Char.isDigit = ds := List.takeWhile_eq_self_iff.mpr hd
  have hdrop : ds.dropWhile Char.isDigit = [] := List.dropWhile_eq_nil_iff.mpr hd
  simp [Parts.ofChars, takeSign_digits negative hd, ht, hdrop, takeFraction, takeExponent, hw]

theorem isWhole_toDigits (n : Nat) : isWhole (Nat.toDigits 10 n) := by
  unfold isWhole
  split
  · next he => exact absurd he Nat.toDigits_ne_nil
  · next he => exact absurd he (toDigits_ne_leadingZero n _ _)
  · rfl

theorem Parts.value_toDigits (negative : Bool) (h : n < UInt64.size) :
    Parts.value ⟨negative, Nat.toDigits 10 n, none, none⟩ =
      if !negative then some (.int n)
      else if 0 < n ∧ n ≤ 0x8000000000000000 then some (.int (-n))
      else some (signed true n.toUInt64.toFloat) := by
  have hs : significand 0 (Nat.toDigits 10 n) = (n, []) := by
    have hlt : Nat.ofDigitChars 10 (Nat.toDigits 10 n) 0 < UInt64.size := by simpa using h
    simpa using significand_eq hlt
  simp [Parts.value, hs]

theorem isDigit_of_mem_toDigits {c : Char} (hc : c ∈ Nat.toDigits 10 n) : c.isDigit :=
  Nat.isDigit_of_mem_toDigits (by decide) (by decide) hc

theorem ofChars_toDigits (negative : Bool) (n : Nat) :
    ofChars (if negative then '-' :: Nat.toDigits 10 n else Nat.toDigits 10 n) =
      Parts.value ⟨negative, Nat.toDigits 10 n, none, none⟩ := by
  rw [ofChars, Parts.ofChars_digits negative (fun c hc => isDigit_of_mem_toDigits hc) (isWhole_toDigits n)]
  rfl

theorem toList_toString (i : Int) : (toString i).toList =
    if i < 0 then '-' :: Nat.toDigits 10 i.natAbs else Nat.toDigits 10 i.natAbs := by
  cases i with
  | ofNat m => simp [Int.repr]
  | negSucc m => simp [Int.toString_eq_repr, Int.repr, Int.negSucc_lt_zero]

theorem ofChars_toString {i : Int} (hlow : -2 ^ 63 ≤ i) (hhigh : i < 2 ^ 64) :
    ofChars (toString i).toList = some (.int i) := by
  have hlt : i.natAbs < UInt64.size := by
    have he : UInt64.size = 2 ^ 64 := rfl
    omega
  rw [toList_toString]
  by_cases hi : i < 0
  · have hc := ofChars_toDigits true i.natAbs
    have hr : 0 < i.natAbs ∧ i.natAbs ≤ 0x8000000000000000 := by omega
    have hv : -(i.natAbs : Int) = i := by omega
    rw [Parts.value_toDigits true hlt, if_pos hr, hv] at hc
    simpa [hi] using hc
  · have hc := ofChars_toDigits false i.natAbs
    have hv : (i.natAbs : Int) = i := by omega
    rw [Parts.value_toDigits false hlt, hv] at hc
    simpa [hi] using hc

end Layering.Json.Number
