import Layering.Report.Basic
import Layering.Proofs.Lists
import Mathlib.Data.Option.Basic

namespace Layering.Instant

variable {n width : Nat} {cs : List Char}

theorem number?_eq (hd : ∀ c ∈ cs, c.isDigit) : number? cs = some (Nat.ofDigitChars 10 cs 0) := by
  have ha : cs.all Char.isDigit = true := List.all_eq_true.mpr hd
  rw [number?, if_pos ha, Nat.ofDigitChars_eq_foldl]

theorem isDigit_of_mem_padded {c : Char} (hc : c ∈ padded width n) : c.isDigit := by
  rcases List.mem_append.mp hc with hz | hd
  · rw [(List.mem_replicate.mp hz).2]
    rfl
  · exact Nat.isDigit_of_mem_toDigits (by decide) (by decide) hd

theorem number?_padded (width n : Nat) : number? (padded width n) = some n := by
  rw [number?_eq fun c hc => isDigit_of_mem_padded hc, padded, Nat.ofDigitChars_append]
  simp

theorem length_padded {width : Nat} (h : (Nat.toDigits 10 n).length ≤ width) : (padded width n).length = width := by
  simp only [padded, List.length_append, List.length_replicate]
  omega

theorem padded_two (h : n < 100) : ∃ a b, padded 2 n = [a, b] ∧ number? [a, b] = some n := by
  have hl := length_padded ((Nat.length_toDigits_le_iff (by decide) (by decide)).mpr h : _ ≤ 2)
  have hn := number?_padded 2 n
  revert hl hn
  generalize padded 2 n = ds
  intro hl hn
  match ds, hl with
  | [a, b], _ => exact ⟨a, b, rfl, hn⟩

theorem padded_four (h : n < 10000) : ∃ a b c d, padded 4 n = [a, b, c, d] ∧ number? [a, b, c, d] = some n := by
  have hl := length_padded ((Nat.length_toDigits_le_iff (by decide) (by decide)).mpr h : _ ≤ 4)
  have hn := number?_padded 4 n
  revert hl hn
  generalize padded 4 n = ds
  intro hl hn
  match ds, hl with
  | [a, b, c, d], _ => exact ⟨a, b, c, d, rfl, hn⟩

theorem fraction?_digits {ds rest : List Char} {k : Nat} (hd : ∀ c ∈ ds, c.isDigit) (hne : ds ≠ [])
    (hlen : ds.length + k = 9) (hn : number? (ds ++ List.replicate k '0') = some n)
    (hr : ∀ c ∈ rest.head?, c.isDigit = false) : fraction? ('.' :: (ds ++ rest)) = some (n, rest) := by
  have hstop : rest.takeWhile Char.isDigit = [] ∧ rest.dropWhile Char.isDigit = rest := by
    cases rest with
    | nil => exact ⟨rfl, rfl⟩
    | cons c rest => simp [hr c rfl]
  have htake : (ds ++ rest).takeWhile Char.isDigit = ds := by
    rw [List.takeWhile_append_of_pos hd, hstop.1, List.append_nil]
  have hdrop : (ds ++ rest).dropWhile Char.isDigit = rest := by
    rw [List.dropWhile_append_of_pos hd, hstop.2]
  have hnine : (ds ++ List.replicate 9 '0').take 9 = ds ++ List.replicate k '0' := by
    rw [List.take_append, List.take_of_length_le (by omega), List.take_replicate]
    congr 2
    omega
  simp only [fraction?, htake, hdrop, hnine, hn]
  simp [hne, guard]

variable (t : Instant)

theorem fraction?_text {rest : List Char} (hr : ∀ c ∈ rest.head?, c.isDigit = false ∧ c ≠ '.') :
    fraction? (t.fractionText ++ rest) = some (t.nanosecond, rest) := by
  rw [fractionText]
  split
  · next hz =>
      rw [hz, List.nil_append]
      unfold fraction?
      split
      · next he => exact absurd rfl (hr '.' (by simp)).2
      · rfl
  · next hz =>
      obtain ⟨k, hk⟩ := List.eq_dropWhile_append_replicate (fun c hc => by simpa using hc) (padded 9 t.nanosecond)
        (p := (· == '0')) (a := '0')
      have hlen := length_padded ((Nat.length_toDigits_le_iff (by decide) (by decide)).mpr t.valid.nanosecond : _ ≤ 9)
      have hn := number?_padded 9 t.nanosecond
      generalize ((padded 9 t.nanosecond).reverse.dropWhile (· == '0')).reverse = ds at hk
      have hd : ∀ c ∈ ds, c.isDigit := fun c hc => isDigit_of_mem_padded (hk ▸ List.mem_append_left _ hc)
      rw [hk] at hlen hn
      have hsum : ds.length + k = 9 := by simpa using hlen
      have hne : ds ≠ [] := by
        rintro rfl
        obtain rfl : k = 9 := by simpa using hsum
        exact hz (Option.some.inj hn).symm
      exact fraction?_digits hd hne hsum hn fun c hc => (hr c hc).1

theorem offset?_text : offset? t.offsetText = some t.offset := by
  have hv := t.valid.offset
  rw [offsetText]
  split
  · next hz => rw [hz]; rfl
  · next hz =>
      obtain ⟨h, h', hh, hhn⟩ := padded_two (n := t.offset.natAbs / 60) (by omega)
      obtain ⟨m, m', hm, hmn⟩ := padded_two (n := t.offset.natAbs % 60) (by omega)
      have hrange : t.offset.natAbs / 60 ≤ 23 ∧ t.offset.natAbs % 60 ≤ 59 := by omega
      have hsum := Nat.div_add_mod t.offset.natAbs 60
      rw [hh, hm]
      generalize t.offset.natAbs / 60 = hours at hhn hrange hsum
      generalize t.offset.natAbs % 60 = minutes at hmn hrange hsum
      by_cases hneg : t.offset < 0
      · have he : -(60 * hours + minutes : Int) = t.offset := by omega
        simpa [hneg, offset?, hhn, hmn, hrange, guard] using he
      · have he : (60 * hours + minutes : Int) = t.offset := by omega
        simpa [hneg, offset?, hhn, hmn, hrange, guard] using he

theorem offsetText_head : ∀ c ∈ t.offsetText.head?, c.isDigit = false ∧ c ≠ '.' := by
  rw [offsetText]
  split
  · simp
  · split <;> simp

theorem day_le (t : Instant) : t.day ≤ 31 := by
  have hd : DateTime.daysIn t.year t.month ≤ 31 := by
    unfold DateTime.daysIn
    split
    · split <;> decide
    all_goals decide
  exact Nat.le_trans t.valid.day.2 hd

theorem parse_text : parse t.text = some t := by
  have hv := t.valid
  have hbounds := And.intro hv.year (And.intro hv.month (And.intro hv.hour (And.intro hv.minute hv.second)))
  obtain ⟨y, y', y'', y₃, hy, hyn⟩ := padded_four (n := t.year) (by omega)
  obtain ⟨o, o', ho, hon⟩ := padded_two (n := t.month) (by omega)
  obtain ⟨d, d', hd, hdn⟩ := padded_two (n := t.day) (by have := t.day_le; omega)
  obtain ⟨h, h', hh, hhn⟩ := padded_two (n := t.hour) (by omega)
  obtain ⟨m, m', hm, hmn⟩ := padded_two (n := t.minute) (by omega)
  obtain ⟨s, s', hs, hsn⟩ := padded_two (n := t.second) (by omega)
  have hleap : t.second ≠ 60 := by omega
  have hf := t.fraction?_text t.offsetText_head
  have htext : t.text.toList = y :: y' :: y'' :: y₃ :: '-' :: o :: o' :: '-' :: d :: d' :: 'T' :: h :: h' :: ':' ::
      m :: m' :: ':' :: s :: s' :: (t.fractionText ++ t.offsetText) := by
    simp [text, hy, ho, hd, hh, hm, hs]
  rw [parse]
  rw [htext]
  simp [hf, hyn, hon, hdn, hhn, hmn, hsn, t.offset?_text, hleap, hv, guard]

end Layering.Instant
