import Layering.Json.Reader
import Layering.Json.Basic
import Layering.Proofs.Json.Number

namespace Layering.Json

/-- Values without floating-point numbers, with integers that 64 bits hold and containers at most so deep. -/
inductive Readable : Nat → Json → Prop
  | null {n : Nat} : Readable n .null
  | bool {n : Nat} (b : Bool) : Readable n (.bool b)
  | int {n : Nat} {i : Int} (hlow : -2 ^ 63 ≤ i) (hhigh : i < 2 ^ 64) : Readable n (.int i)
  | str {n : Nat} (s : String) : Readable n (.str s)
  | arr {n : Nat} {vs : List Json} (h : ∀ v ∈ vs, Readable n v) : Readable (n + 1) (.arr vs)
  | obj {n : Nat} {fs : List (String × Json)} (h : ∀ f ∈ fs, Readable n f.2) : Readable (n + 1) (.obj fs)

open Token

mutual

def tokens : Json → List Token
  | .arr [] => [.openArray, .closeArray]
  | .arr (v :: vs) => .openArray :: (tokens v ++ itemTokens vs)
  | .obj [] => [.openObject, .closeObject]
  | .obj (f :: fs) => .openObject :: .scalar (.str f.1) :: .colon :: (tokens f.2 ++ fieldTokens fs)
  | v => [.scalar v]

def itemTokens : List Json → List Token
  | [] => [.closeArray]
  | v :: vs => .comma :: (tokens v ++ itemTokens vs)

def fieldTokens : List (String × Json) → List Token
  | [] => [.closeObject]
  | f :: fs => .comma :: .scalar (.str f.1) :: .colon :: (tokens f.2 ++ fieldTokens fs)

end

namespace Token.Scan

def isSpace (c : Char) : Bool := c == ' ' || c == '\n' || c == '\t' || c == '\r'

/-- What was read ends with these tokens unless a letter or a part of a number follows. -/
structure Ends (s : Scan) (ts : List Token) : Prop where
  settle : s.settle = some ts
  next : ∀ c, c.isLower = false → isNumeric c = false → s.step c = begin ts c

variable {s : Scan} {ts : List Token} {t : Token} {c : Char} {cs rest : List Char} {read : List Char}

theorem Ends.blank (ts : List Token) : Ends ⟨ts, .blank⟩ ts :=
  ⟨rfl, fun _ _ _ => rfl⟩

theorem Ends.word (h : ofWord read.reverse = some t) : Ends ⟨ts, .word read⟩ (t :: ts) :=
  ⟨by simp [Scan.settle, h], fun c hc _ => by simp [Scan.step, Scan.settle, hc, h]⟩

theorem Ends.number {v : Json} (h : Number.ofChars read.reverse = some v) :
    Ends ⟨ts, .number read⟩ (.scalar v :: ts) :=
  ⟨by simp [Scan.settle, h], fun c _ hc => by simp [Scan.step, Scan.settle, hc, h]⟩

theorem begin_space (hc : isSpace c) : begin ts c = some ⟨ts, .blank⟩ := by
  simp only [isSpace, Bool.or_eq_true, beq_iff_eq, or_assoc] at hc
  simp [begin, hc]

theorem begin_mark (hm : ofMark c = some t) : begin ts c = some ⟨t :: ts, .blank⟩ := by
  unfold ofMark at hm
  split at hm <;> cases hm <;> rfl

theorem Ends.space (hs : s.Ends ts) (hc : isSpace c) : s.step c = some ⟨ts, .blank⟩ := by
  have hc' : c = ' ' ∨ c = '\n' ∨ c = '\t' ∨ c = '\r' := by simpa [isSpace, or_assoc] using hc
  rw [hs.next c, begin_space hc]
  · rcases hc' with rfl | rfl | rfl | rfl <;> rfl
  · rcases hc' with rfl | rfl | rfl | rfl <;> rfl

theorem Ends.mark (hs : s.Ends ts) (hm : ofMark c = some t) : s.step c = some ⟨t :: ts, .blank⟩ := by
  rw [hs.next c, begin_mark hm]
  · unfold ofMark at hm
    split at hm <;> cases hm <;> rfl
  · unfold ofMark at hm
    split at hm <;> cases hm <;> rfl

theorem Ends.spaces (hs : s.Ends ts) (hc : ∀ c ∈ cs, isSpace c) (rest : List Char) :
    ∃ s' : Scan, s'.Ends ts ∧ (cs ++ rest).foldlM Scan.step s = rest.foldlM Scan.step s' := by
  induction cs generalizing s with
  | nil => exact ⟨s, hs, rfl⟩
  | cons c cs ih =>
      obtain ⟨s', he, hf⟩ := ih (.blank ts) fun d hd => hc d (List.mem_cons_of_mem c hd)
      refine ⟨s', he, ?_⟩
      rw [List.cons_append, List.foldlM_cons, hs.space (hc c (by simp)), ← hf]
      rfl

theorem foldlM_spaces (hc : ∀ c ∈ cs, isSpace c) :
    (cs ++ rest).foldlM Scan.step ⟨ts, .blank⟩ = rest.foldlM Scan.step ⟨ts, .blank⟩ := by
  induction cs with
  | nil => rfl
  | cons c cs ih =>
      rw [List.cons_append, List.foldlM_cons, (Ends.blank ts).space (hc c (by simp)),
        ← ih fun d hd => hc d (List.mem_cons_of_mem c hd)]
      rfl

theorem Ends.foldlM_mark (hs : s.Ends ts) (hm : ofMark c = some t) (hc : ∀ d ∈ cs, isSpace d) (rest : List Char) :
    (cs ++ c :: rest).foldlM Scan.step s = rest.foldlM Scan.step ⟨t :: ts, .blank⟩ := by
  obtain ⟨s', hs', hf⟩ := hs.spaces hc (c :: rest)
  rw [hf, List.foldlM_cons, hs'.mark hm]
  rfl

theorem Ends.foldlM_spaced (hs : s.Ends ts) (hm : ofMark c = some t) (hc : ∀ d ∈ cs, isSpace d) (rest : List Char) :
    (c :: (cs ++ rest)).foldlM Scan.step s = rest.foldlM Scan.step ⟨t :: ts, .blank⟩ := by
  rw [List.foldlM_cons, hs.mark hm, ← foldlM_spaces hc]
  rfl

theorem hexValue?_digitChar : ∀ d < 16, hexValue? (Nat.digitChar d) = some d := by
  decide

theorem foldlM_escape (c : Char) :
    (Writer.escape c ++ rest).foldlM Scan.step ⟨ts, .string read⟩ = rest.foldlM Scan.step ⟨ts, .string (c :: read)⟩ := by
  unfold Writer.escape
  split
  all_goals try rfl
  split
  · next hc =>
      have hn : c.toNat < 32 := hc
      have hhigh := hexValue?_digitChar (c.toNat / 16) (by omega)
      have hlow := hexValue?_digitChar (c.toNat % 16) (by omega)
      have hsum : 16 * (c.toNat / 16) + c.toNat % 16 = c.toNat := by omega
      have hend : endUnicode read none c.toNat = some (.string (c :: read)) := by
        have h1 : isHigh c.toNat = false := by simp [isHigh]; omega
        have h2 : isLow c.toNat = false := by simp [isLow]; omega
        simp [endUnicode, h1, h2]
      simp [List.foldlM_cons, Scan.step, show hexValue? '0' = some 0 from rfl, hhigh, hlow, hsum, hend]
  · next hq hb _ _ _ _ _ hc =>
      have hstep : Scan.step ⟨ts, .string read⟩ c = some ⟨ts, .string (c :: read)⟩ := by
        simp only [Scan.step]
        rw [if_neg hq, if_neg hb, if_neg hc]
      rw [List.singleton_append, List.foldlM_cons, hstep]
      rfl

theorem foldlM_string (text : String) (rest : List Char) :
    (Writer.string text ++ rest).foldlM Scan.step ⟨ts, .blank⟩ =
      rest.foldlM Scan.step ⟨.scalar (.str text) :: ts, .blank⟩ := by
  have hbody : ∀ cs read rest, (cs.flatMap Writer.escape ++ '"' :: rest).foldlM Scan.step ⟨ts, .string read⟩ =
      rest.foldlM Scan.step ⟨.scalar (.str (.ofList (read.reverse ++ cs))) :: ts, .blank⟩ := by
    intro cs
    induction cs with
    | nil =>
        intro read rest
        simp [List.foldlM_cons, Scan.step]
    | cons c cs ih =>
        intro read rest
        rw [List.flatMap_cons, List.append_assoc, foldlM_escape, ih]
        simp
  have h := hbody text.toList [] rest
  simp only [List.reverse_nil, List.nil_append, String.ofList_toList] at h
  rw [← h]
  simp [Writer.string, List.foldlM_cons, Scan.step, begin]

theorem foldlM_numeric (hc : ∀ c ∈ cs, isNumeric c) :
    cs.foldlM Scan.step ⟨ts, .number read⟩ = some ⟨ts, .number (cs.reverse ++ read)⟩ := by
  induction cs generalizing read with
  | nil => rfl
  | cons c cs ih =>
      have hstep : Scan.step ⟨ts, .number read⟩ c = some ⟨ts, .number (c :: read)⟩ := by
        simp [Scan.step, hc c (by simp)]
      rw [List.foldlM_cons, hstep]
      simpa using ih fun d hd => hc d (List.mem_cons_of_mem c hd)

theorem foldlM_number (hc : c.isDigit ∨ c = '-') (hcs : ∀ d ∈ cs, d.isDigit) :
    (c :: cs).foldlM Scan.step ⟨ts, .blank⟩ = some ⟨ts, .number (c :: cs).reverse⟩ := by
  have hstart : begin ts c = some ⟨ts, .number [c]⟩ := by
    have hq : c ≠ '"' := by
      rintro rfl
      revert hc
      decide
    have hs : ¬ (c = ' ' ∨ c = '\n' ∨ c = '\t' ∨ c = '\r') := by
      rintro (rfl | rfl | rfl | rfl) <;> revert hc <;> decide
    simp [begin, hq, hs, hc]
  rw [List.foldlM_cons, Scan.step, hstart, List.reverse_cons, ← foldlM_numeric fun d hd => by simp [isNumeric, hcs d hd]]
  rfl

theorem foldlM_int (i : Int) :
    (toString i).toList.foldlM Scan.step ⟨ts, .blank⟩ = some ⟨ts, .number (toString i).toList.reverse⟩ := by
  rw [Number.toList_toString]
  split
  · exact foldlM_number (.inr rfl) fun d hd => Number.isDigit_of_mem_toDigits hd
  · cases hm : Nat.toDigits 10 i.natAbs with
    | nil => exact absurd hm Nat.toDigits_ne_nil
    | cons c cs =>
        have hd : ∀ d ∈ c :: cs, d.isDigit := fun d hd => Number.isDigit_of_mem_toDigits (hm ▸ hd)
        exact foldlM_number (.inl (hd c (by simp))) fun d hd' => hd d (List.mem_cons_of_mem c hd')

end Token.Scan

end Layering.Json
