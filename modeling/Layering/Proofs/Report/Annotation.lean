import Layering.Report.Annotation
import Layering.Proofs.Lines

namespace Layering

namespace Annotation

def codes : List (List Char) := ["%25".toList, "%0D".toList, "%0A".toList]

/-- The text with each code, from left to right, as the character that it stands for. -/
def decode : List Char → List Char
  | '%' :: '2' :: '5' :: cs => '%' :: decode cs
  | '%' :: '0' :: 'D' :: cs => '\r' :: decode cs
  | '%' :: '0' :: 'A' :: cs => '\n' :: decode cs
  | c :: cs => c :: decode cs
  | [] => []

/-- Characters on one line, with a percent sign only where a code begins. -/
structure Coded (cs : List Char) : Prop where
  return_not_mem : '\r' ∉ cs
  newline_not_mem : '\n' ∉ cs
  percent : ∀ after, '%' :: after <:+ cs → ∃ code ∈ codes, code <+: '%' :: after

structure Spells (text : String) (cs : List Char) : Prop extends Coded cs where
  decoded : decode cs = text.toList

variable {cs : List Char} {c : Char} {text : String} {f g : Finding}

def spelled (c : Char) : List Char :=
  if c = '%' then "%25".toList else if c = '\r' then "%0D".toList else if c = '\n' then "%0A".toList else [c]

theorem spelled_eq (c : Char) : (c = '%' ∧ spelled c = "%25".toList) ∨ (c = '\r' ∧ spelled c = "%0D".toList) ∨
    (c = '\n' ∧ spelled c = "%0A".toList) ∨ (c ≠ '%' ∧ c ≠ '\r' ∧ c ≠ '\n' ∧ spelled c = [c]) := by
  rw [spelled]
  by_cases hp : c = '%'
  · exact .inl ⟨hp, if_pos hp⟩
  · by_cases hr : c = '\r'
    · exact .inr (.inl ⟨hr, by rw [if_neg hp, if_pos hr]⟩)
    · by_cases hn : c = '\n'
      · exact .inr (.inr (.inl ⟨hn, by rw [if_neg hp, if_neg hr, if_pos hn]⟩))
      · exact .inr (.inr (.inr ⟨hp, hr, hn, by rw [if_neg hp, if_neg hr, if_neg hn]⟩))

/-- The three replacements act on each character alone: the two later ones find nothing to replace in the codes. -/
theorem toList_escape (text : String) : (escape text).toList = text.toList.flatMap spelled := by
  rw [escape, String.toList_ofList, replace, replace, replace, List.flatMap_assoc, List.flatMap_assoc]
  apply List.flatMap_congr
  intro c _
  rcases spelled_eq c with ⟨rfl, hs⟩ | ⟨rfl, hs⟩ | ⟨rfl, hs⟩ | ⟨hp, hr, hn, hs⟩
  · exact hs.symm
  · exact hs.symm
  · exact hs.symm
  · simp [hs, hp, hr, hn]

theorem decode_cons (h : c ≠ '%') (cs : List Char) : decode (c :: cs) = c :: decode cs := by
  rw [decode]
  all_goals
    rintro _ rfl
    exact absurd rfl h

theorem decode_spelled (c : Char) (cs : List Char) : decode (spelled c ++ cs) = c :: decode cs := by
  rcases spelled_eq c with ⟨rfl, hs⟩ | ⟨rfl, hs⟩ | ⟨rfl, hs⟩ | ⟨hp, hr, hn, hs⟩
  · rw [hs]; rfl
  · rw [hs]; rfl
  · rw [hs]; rfl
  · rw [hs, List.singleton_append, decode_cons hp]

theorem decode_flatMap_spelled (cs : List Char) : decode (cs.flatMap spelled) = cs := by
  induction cs with
  | nil => rfl
  | cons c cs ih => rw [List.flatMap_cons, decode_spelled, ih]

theorem Coded.code_append (h : Coded cs) {a b : Char} (hcode : ['%', a, b] ∈ codes) : Coded ('%' :: a :: b :: cs) := by
  have hplain : ∀ c ∈ [a, b], c ≠ '%' ∧ c ≠ '\r' ∧ c ≠ '\n' := by
    have hall : ∀ code ∈ codes, ∀ c ∈ code.tail, c ≠ '%' ∧ c ≠ '\r' ∧ c ≠ '\n' := by simp [codes]
    exact hall _ hcode
  obtain ⟨hap, har, han⟩ := hplain a List.mem_cons_self
  obtain ⟨hbp, hbr, hbn⟩ := hplain b (List.mem_cons_of_mem _ List.mem_cons_self)
  refine ⟨?_, ?_, fun after ha => ?_⟩
  · simp [har.symm, hbr.symm, h.return_not_mem]
  · simp [han.symm, hbn.symm, h.newline_not_mem]
  · simp only [List.suffix_cons_iff, List.cons.injEq, hap.symm, hbp.symm, true_and, false_and, false_or] at ha
    rcases ha with rfl | ha
    · exact ⟨_, hcode, cs, rfl⟩
    · exact h.percent after ha

theorem Coded.cons (h : Coded cs) (hp : c ≠ '%') (hr : c ≠ '\r') (hn : c ≠ '\n') : Coded (c :: cs) := by
  refine ⟨?_, ?_, fun after ha => ?_⟩
  · simp [hr.symm, h.return_not_mem]
  · simp [hn.symm, h.newline_not_mem]
  · simp only [List.suffix_cons_iff, List.cons.injEq, hp.symm, false_and, false_or] at ha
    exact h.percent after ha

theorem Coded.spelled_append (h : Coded cs) (c : Char) : Coded (spelled c ++ cs) := by
  rcases spelled_eq c with ⟨rfl, hs⟩ | ⟨rfl, hs⟩ | ⟨rfl, hs⟩ | ⟨hp, hr, hn, hs⟩
  · rw [hs]
    exact h.code_append (by decide)
  · rw [hs]
    exact h.code_append (by decide)
  · rw [hs]
    exact h.code_append (by decide)
  · rw [hs]
    exact h.cons hp hr hn

theorem coded_flatMap_spelled (cs : List Char) : Coded (cs.flatMap spelled) := by
  induction cs with
  | nil => exact ⟨List.not_mem_nil, List.not_mem_nil, by simp⟩
  | cons c cs ih =>
      rw [List.flatMap_cons]
      exact ih.spelled_append c

theorem Coded.of_suffix {cs' : List Char} (h : Coded cs) (hs : cs' <:+ cs) : Coded cs' :=
  ⟨fun hr => h.return_not_mem (hs.subset hr), fun hn => h.newline_not_mem (hs.subset hn),
    fun after ha => h.percent after (ha.trans hs)⟩

theorem Coded.flatMap_decode (h : Coded cs) : (decode cs).flatMap spelled = cs := by
  fun_induction decode cs with
  | case1 cs ih => rw [List.flatMap_cons, ih (h.of_suffix ⟨"%25".toList, rfl⟩)]; rfl
  | case2 cs ih => rw [List.flatMap_cons, ih (h.of_suffix ⟨"%0D".toList, rfl⟩)]; rfl
  | case3 cs ih => rw [List.flatMap_cons, ih (h.of_suffix ⟨"%0A".toList, rfl⟩)]; rfl
  | case4 c cs hp hr hn ih =>
      -- none of the codes begins here, so the character is no percent sign
      have hc : c ≠ '%' := by
        rintro rfl
        obtain ⟨code, hcode, rest, he⟩ := h.percent cs (List.suffix_refl _)
        simp only [codes, List.mem_cons, List.not_mem_nil, or_false] at hcode
        rcases hcode with rfl | rfl | rfl
        · exact hp rest rfl (List.cons.inj he).2.symm
        · exact hr rest rfl (List.cons.inj he).2.symm
        · exact hn rest rfl (List.cons.inj he).2.symm
      have hreturn : c ≠ '\r' := fun he => h.return_not_mem (he ▸ List.mem_cons_self)
      have hnewline : c ≠ '\n' := fun he => h.newline_not_mem (he ▸ List.mem_cons_self)
      have hs : spelled c = [c] := by rw [spelled, if_neg hc, if_neg hreturn, if_neg hnewline]
      rw [List.flatMap_cons, hs, ih (h.of_suffix (List.suffix_cons c cs)), List.singleton_append]
  | case5 => rfl

theorem spells_iff : Spells text cs ↔ cs = (escape text).toList := by
  rw [toList_escape]
  constructor
  · intro h
    rw [← h.decoded, h.flatMap_decode]
  · rintro rfl
    exact ⟨coded_flatMap_spelled _, decode_flatMap_spelled _⟩

theorem escape_inj {text' : String} : escape text = escape text' ↔ text = text' := by
  constructor
  · intro he
    have h : Spells text (escape text').toList := spells_iff.mpr (congrArg String.toList he.symm)
    have h' : Spells text' (escape text').toList := spells_iff.mpr rfl
    exact String.toList_inj.mp (h.decoded.symm.trans h'.decoded)
  · exact congrArg escape

theorem ofFinding_eq (f : Finding) : ofFinding f = "::" ++ level f.severity ++ "::" ++ escape (summary f) := rfl

theorem eq_of_level_append {s s' : Severity} {a b : String} (h : level s ++ a = level s' ++ b) : s = s' := by
  have hletter := congrArg (·.toList.head?) h
  cases s <;> cases s' <;> simp [level] at hletter ⊢

theorem ofFinding_inj : ofFinding f = ofFinding g ↔ f.severity = g.severity ∧ summary f = summary g := by
  constructor
  · intro h
    rw [ofFinding_eq, ofFinding_eq] at h
    simp only [String.append_assoc, String.append_right_inj] at h
    have hs := eq_of_level_append h
    rw [hs, String.append_right_inj, String.append_right_inj] at h
    exact ⟨hs, escape_inj.mp h⟩
  · rintro ⟨hs, ht⟩
    rw [ofFinding_eq, ofFinding_eq, hs, ht]

theorem not_mem_ofFinding (f : Finding) : '\r' ∉ (ofFinding f).toList ∧ '\n' ∉ (ofFinding f).toList := by
  have h : Spells (summary f) (escape (summary f)).toList := spells_iff.mpr rfl
  have hlevel : ∀ s, '\r' ∉ (level s).toList ∧ '\n' ∉ (level s).toList := by
    intro s
    cases s <;> decide
  rw [ofFinding_eq]
  simp [h.return_not_mem, h.newline_not_mem, hlevel]

end Annotation

open Annotation

/-- Of the first findings of a report, as many as are asked for, each has its own command in their order: a level, and
the one text that spells what the finding tells. Commands are equal just where findings of one level tell the same; and
when they are printed there are no other lines than theirs, whatever the findings tell. -/
theorem Report.annotations_tell (r : Report) (max : Nat) :
    let text (f : Finding) : String := "[" ++ f.checkId ++ ":" ++ f.code ++ "] " ++ f.message
    let level : Severity → String
      | .error => "error"
      | .warning => "warning"
      | .info => "notice"
    let printed := String.join ((r.annotations max).map (· ++ "\n"))
    r.annotations max = (r.findings.take (min max r.findings.length)).map ofFinding ∧
    (∀ f, ∃ cs, Spells (text f) cs ∧ (∀ other, Spells (text f) other → other = cs) ∧
      ofFinding f = "::" ++ level f.severity ++ "::" ++ .ofList cs) ∧
    (∀ f g, ofFinding f = ofFinding g ↔ f.severity = g.severity ∧ text f = text g) ∧
    lines printed = r.annotations max ++ [""] ∧ '\r' ∉ printed.toList := by
  intro text level printed
  have hannotations : r.annotations max = (r.findings.take (min max r.findings.length)).map ofFinding := by
    rw [annotations, ← List.map_take, List.take_eq_take_min]
  have hline : ∀ line ∈ r.annotations max, '\r' ∉ line.toList ∧ '\n' ∉ line.toList := by
    rw [hannotations]
    exact List.forall_mem_map.mpr fun f _ => not_mem_ofFinding f
  refine ⟨hannotations, fun f => ?_, fun f g => ofFinding_inj, ?_, ?_⟩
  · have hlevel : Annotation.level f.severity = level f.severity := by
      cases f.severity <;> rfl
    refine ⟨(escape (text f)).toList, spells_iff.mpr rfl, fun other => spells_iff.mp, ?_⟩
    rw [String.ofList_toList, ofFinding_eq, hlevel]
    rfl
  · exact lines_join fun line hl => (hline line hl).2
  · exact not_mem_join_ended (by decide) fun line hl => (hline line hl).1

/-- A code that stands in a text, and line ends: the command is one line, from which the text is read back. -/
theorem Report.annotations_tell_mixed :
    let f : Finding := ⟨.error, "order.layering", "upward_dependency", "100%0A\r\n%", none, none, .null⟩
    let g : Finding := { f with severity := .info, message := "100\n\r\n%" }
    let r : Report := { ofRuntimeError .epoch "lib.swc" "" with findings := [f, g, f] }
    let command := "::error::[order.layering:upward_dependency] 100%250A%0D%0A%25"
    let other := "::notice::[order.layering:upward_dependency] 100%0A%0D%0A%25"
    r.annotations 2 = [command, other] ∧ lines (command ++ "\n" ++ (other ++ "\n")) = [command, other, ""] ∧
      decode "100%250A%0D%0A%25".toList = f.message.toList ∧ ofFinding f ≠ ofFinding { f with message := g.message } ∧
      ∃ cs, Spells "[order.layering:upward_dependency] 100%0A\r\n%" cs ∧ command = "::error::" ++ .ofList cs := by
  intro f g r command other
  obtain ⟨hfirst, htold, hinj, hlines, -⟩ := r.annotations_tell 2
  have htwo : r.annotations 2 = [command, other] := hfirst.trans (by decide)
  rw [htwo] at hlines
  obtain ⟨cs, hcs, -, hcommand⟩ := htold f
  have hf : ofFinding f = command := by decide
  have hne : ofFinding f ≠ ofFinding { f with message := g.message } := fun h => absurd ((hinj _ _).mp h).2 (by decide)
  exact ⟨htwo, hlines, by decide, hne, cs, hcs, hf.symm.trans hcommand⟩

end Layering
