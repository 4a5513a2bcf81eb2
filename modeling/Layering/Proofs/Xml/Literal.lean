import Layering.Xml.Markup
import Layering.Xml.Basic
import Mathlib.Control.Basic
import Mathlib.Data.Option.Basic

namespace Layering.Xml

/-- Text that stands for itself; without the mark that ends tags it ends no section either. -/
def IsText (text : String) : Prop := ∀ c ∈ text.toList, isChar c ∧ c ∉ ['<', '&', '>', '\r']

def IsLiteral (value : String) : Prop := ∀ c ∈ value.toList, isChar c ∧ c ∉ ['<', '&', '"', '\t', '\n', '\r']

instance : DecidablePred IsText := fun text => List.decidableBAll _ text.toList

instance : DecidablePred IsLiteral := fun value => List.decidableBAll _ value.toList

def isLocalName (name : String) : Bool := name.toList.head?.any isNameStart && name.toList.all isNameChar

variable {name text : String} {c : Char}

theorem isQualifiedChar_of_isNameChar (h : isNameChar c) : isQualifiedChar c := by
  simp [isQualifiedChar, h]

theorem isChar_of_isNameChar (h : isNameChar c) : isChar c := by
  have hrange : 0x2D ≤ c.toNat ∧ c.toNat ≠ 0xFFFE ∧ c.toNat ≠ 0xFFFF := by
    simp only [isNameChar, isNameStart, inRanges, nameStartRanges, List.any_cons, List.any_nil, Bool.or_false,
      Bool.or_eq_true, Bool.and_eq_true, decide_eq_true_eq] at h
    omega
  have hlow : ¬ c < ' ' := by
    intro hc
    have hn : c.toNat < 32 := hc
    omega
  simp [isChar, hlow, hrange]

theorem isNameChar_of_mem (h : isLocalName name) (hc : c ∈ name.toList) : isNameChar c :=
  List.all_eq_true.mp (Bool.and_eq_true_iff.mp h).2 c hc

theorem isLocalName_cons (h : isLocalName name) : ∃ c cs, name.toList = c :: cs ∧ isNameStart c := by
  have hhead := (Bool.and_eq_true_iff.mp h).1
  cases hname : name.toList with
  | nil => simp [hname] at hhead
  | cons c cs => exact ⟨c, cs, rfl, by simpa [hname] using hhead⟩

theorem ne_of_isQualifiedChar {d : Char} (hc : isQualifiedChar c) (hd : isQualifiedChar d = false) : c ≠ d := by
  rintro rfl
  exact absurd hc (by simp [hd])

theorem isSpace_eq_false (h : isQualifiedChar c) : isSpace c = false := by
  rw [Bool.eq_false_iff]
  intro hc
  have hspace : c = ' ' ∨ c = '\t' ∨ c = '\n' ∨ c = '\r' := by simpa [isSpace, or_assoc] using hc
  rcases hspace with rfl | rfl | rfl | rfl <;> exact absurd h (by decide)

theorem Written.ofChars_toList (h : isLocalName name) : Written.ofChars name.toList = some ⟨"", name⟩ := by
  obtain ⟨c, cs, hname, hc⟩ := isLocalName_cons h
  have hsplit : name.toList.splitOn ':' = [name.toList] := by
    rw [List.splitOn_eq_splitOnP]
    refine List.splitOnP_eq_singleton fun d hd => beq_eq_false_iff_ne.mpr ?_
    rintro rfl
    exact absurd (isNameChar_of_mem h hd) (by decide)
  have hof : String.ofList (c :: cs) = name := by rw [← hname, String.ofList_toList]
  rw [Written.ofChars, hsplit]
  simp [hname, hc, hof]

theorem Reference.foldlM_step {inAttribute : Bool} {cs : List Char}
    (h : ∀ c ∈ cs, c ≠ '&' ∧ c ≠ '\r' ∧ (inAttribute → c ≠ '\t' ∧ c ≠ '\n')) (read : List Char) :
    cs.foldlM (Reference.step inAttribute) ⟨read, none, false⟩ = some ⟨cs.reverse ++ read, none, false⟩ := by
  induction cs generalizing read with
  | nil => rfl
  | cons c cs ih =>
      obtain ⟨⟨hand, hreturn, hblank⟩, htail⟩ := List.forall_mem_cons.mp h
      have hstep : Reference.step inAttribute ⟨read, none, false⟩ c = some ⟨c :: read, none, false⟩ := by
        cases inAttribute with
        | false => by_cases hc : c = '\n' <;> simp [Reference.step, hand, hreturn, hc, Reference.lineEnd]
        | true => simp [Reference.step, hand, hreturn, hblank]
      rw [List.foldlM_cons, hstep]
      simpa using ih htail (c :: read)

theorem Reference.decode_toList {inAttribute : Bool}
    (h : ∀ c ∈ text.toList, c ≠ '&' ∧ c ≠ '\r' ∧ (inAttribute → c ≠ '\t' ∧ c ≠ '\n')) :
    decode inAttribute text.toList = some text := by
  simp [decode, foldlM_step h]

theorem IsText.decode (h : IsText text) : Reference.decode false text.toList = some text := by
  refine Reference.decode_toList fun c hc => ?_
  have hne := (h c hc).2
  simp only [List.mem_cons, not_or] at hne
  exact ⟨hne.2.1, hne.2.2.2.1, nofun⟩

theorem IsLiteral.decode (h : IsLiteral text) : Reference.decode true text.toList = some text := by
  refine Reference.decode_toList fun c hc => ?_
  have hne := (h c hc).2
  simp only [List.mem_cons, not_or] at hne
  exact ⟨hne.2.1, hne.2.2.2.2.2.1, fun _ => ⟨hne.2.2.2.1, hne.2.2.2.2.1⟩⟩

end Layering.Xml
