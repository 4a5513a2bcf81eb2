import Layering.Proofs.Xml.Literal

namespace Layering.Xml

inductive LocalTag where
  | start (name : String) (attributes : List (String × String)) (empty : Bool)
  | stop (name : String)

namespace LocalTag

def attributeChars (a : String × String) : List Char := ' ' :: (a.1.toList ++ '=' :: '"' :: (a.2.toList ++ ['"']))

def chars : LocalTag → List Char
  | start name attributes empty =>
    '<' :: (name.toList ++ (attributes.flatMap attributeChars ++ if empty then [' ', '/', '>'] else ['>']))
  | stop name => '<' :: '/' :: (name.toList ++ ['>'])

def markup : LocalTag → Markup
  | start name attributes empty => .start ⟨"", name⟩ (attributes.map fun a => (⟨"", a.1⟩, a.2.toList)) empty
  | stop name => .stop ⟨"", name⟩

def Plain : LocalTag → Prop
  | start name attributes _ => isLocalName name ∧ ∀ a ∈ attributes, isLocalName a.1 ∧ IsLiteral a.2
  | stop name => isLocalName name

end LocalTag

/-- Text is a piece of markup unless there is none of it. -/
def Markup.ofText (text : String) : List Markup := if text = "" then [] else [.text text.toList]

variable {name text : String} {c : Char} {cs rest : List Char}

theorem isChar_of_mem_attributeChars {a : String × String} (hkey : isLocalName a.1) (hvalue : IsLiteral a.2)
    (hc : c ∈ LocalTag.attributeChars a) : isChar c := by
  simp only [LocalTag.attributeChars, List.mem_cons, List.mem_append, List.not_mem_nil, or_false] at hc
  rcases hc with rfl | hc | rfl | rfl | hc | rfl
  · rfl
  · exact isChar_of_isNameChar (isNameChar_of_mem hkey hc)
  · rfl
  · rfl
  · exact (hvalue c hc).1
  · rfl

theorem LocalTag.Plain.isChar {t : LocalTag} (h : t.Plain) (hc : c ∈ t.chars) : isChar c := by
  cases t with
  | start name attributes empty =>
      obtain ⟨hname, hattributes⟩ := h
      rw [LocalTag.chars, List.mem_cons, List.mem_append, List.mem_append] at hc
      rcases hc with rfl | hc | hc | hc
      · rfl
      · exact isChar_of_isNameChar (isNameChar_of_mem hname hc)
      · obtain ⟨a, ha, hc⟩ := List.mem_flatMap.mp hc
        exact isChar_of_mem_attributeChars (hattributes a ha).1 (hattributes a ha).2 hc
      · have hmarks : [' ', '/', '>'].all Xml.isChar := by decide
        refine List.all_eq_true.mp hmarks c ?_
        cases empty with
        | false => exact List.mem_of_mem_drop (i := 2) hc
        | true => exact hc
  | stop name =>
      simp only [LocalTag.chars, List.mem_cons, List.mem_append, List.not_mem_nil, or_false] at hc
      rcases hc with rfl | rfl | hc | rfl
      · rfl
      · rfl
      · exact isChar_of_isNameChar (isNameChar_of_mem h hc)
      · rfl

@[simp]
theorem Markup.reverse_ofText (text : String) : (ofText text).reverse = ofText text := by
  unfold ofText
  split <;> rfl

namespace Markup.Scan

variable {done : List Markup} {tag : Markup.Tag} {a : String × String} {attributes : List (String × String)}

theorem foldlM_reading {mode : List Char → Mode} (hstep : ∀ c ∈ cs, ∀ read,
    Scan.step ⟨done, mode read⟩ c = some ⟨done, mode (c :: read)⟩) (read rest : List Char) :
    (cs ++ rest).foldlM Scan.step ⟨done, mode read⟩ = rest.foldlM Scan.step ⟨done, mode (cs.reverse ++ read)⟩ := by
  induction cs generalizing read with
  | nil => rfl
  | cons c cs ih =>
      rw [List.cons_append, List.foldlM_cons, hstep c List.mem_cons_self]
      have htail := ih (fun d hd => hstep d (List.mem_cons_of_mem c hd)) (c :: read)
      simpa using htail

theorem endsSection_eq_false (h : '>' ∉ cs) : endsSection cs = false := by
  induction cs with
  | nil => rfl
  | cons c cs ih =>
      have htail := ih (List.not_mem_of_not_mem_cons h)
      unfold endsSection
      split
      · next hcs =>
          simp [hcs] at h
      · next hcs =>
          obtain ⟨-, rfl⟩ := List.cons.inj hcs
          exact htail
      · rfl

theorem endText_toList (h : IsText text) : endText done text.toList.reverse = some (ofText text ++ done) := by
  have hsection : endsSection text.toList = false := endsSection_eq_false fun hc => (h _ hc).2 (by decide)
  by_cases ht : text = ""
  · simp [endText, ofText, ht]
  · simp [endText, ofText, ht, hsection]

theorem foldlM_text (h : IsText text) (rest : List Char) :
    (text.toList ++ rest).foldlM Scan.step ⟨done, .text []⟩ =
      rest.foldlM Scan.step ⟨done, .text text.toList.reverse⟩ := by
  have hstep : ∀ c ∈ text.toList, ∀ read, Scan.step ⟨done, .text read⟩ c = some ⟨done, .text (c :: read)⟩ := by
    intro c hc read
    have hne : c ≠ '<' := fun he => (h c hc).2 (by simp [he])
    simp [Scan.step, hne]
  simpa using foldlM_reading hstep [] rest

theorem foldlM_opening (h : IsText text) (rest : List Char) :
    (text.toList ++ '<' :: rest).foldlM Scan.step ⟨done, .text []⟩ =
      rest.foldlM Scan.step ⟨ofText text ++ done, .opening⟩ := by
  have hopen : Scan.step ⟨done, .text text.toList.reverse⟩ '<' = some ⟨ofText text ++ done, .opening⟩ := by
    simp [Scan.step, endText_toList h]
  rw [foldlM_text h, List.foldlM_cons, hopen]
  rfl

theorem foldlM_name {mode : Mode} (reading : List Char → Mode) (h : isLocalName name)
    (hfirst : ∀ c, isQualifiedChar c → Scan.step ⟨done, mode⟩ c = some ⟨done, reading [c]⟩)
    (hstep : ∀ c read, isQualifiedChar c → Scan.step ⟨done, reading read⟩ c = some ⟨done, reading (c :: read)⟩)
    (rest : List Char) :
    (name.toList ++ rest).foldlM Scan.step ⟨done, mode⟩ =
      rest.foldlM Scan.step ⟨done, reading name.toList.reverse⟩ := by
  obtain ⟨c, cs, hname, -⟩ := isLocalName_cons h
  have hqualified : ∀ d ∈ c :: cs, isQualifiedChar d := fun d hd =>
    isQualifiedChar_of_isNameChar (isNameChar_of_mem h (hname ▸ hd))
  have htail := foldlM_reading (fun d hd read => hstep d read (hqualified d (List.mem_cons_of_mem c hd))) [c] rest
  rw [hname, List.reverse_cons, ← htail, List.cons_append, List.foldlM_cons, hfirst c (hqualified c List.mem_cons_self)]
  rfl

/-- A name ends at a character that names do not have, which is read as it is after the name. -/
theorem foldlM_startName (h : isLocalName name) (hc : isQualifiedChar c = false) (rest : List Char) :
    (name.toList ++ c :: rest).foldlM Scan.step ⟨done, .opening⟩ =
      (c :: rest).foldlM Scan.step ⟨done, .tag ⟨⟨"", name⟩, []⟩ false⟩ := by
  have hend : Scan.step ⟨done, .startName name.toList.reverse⟩ c =
      Scan.step ⟨done, .tag ⟨⟨"", name⟩, []⟩ false⟩ c := by
    simp [Scan.step, hc, Written.ofChars_toList h]
  rw [foldlM_name .startName h, List.foldlM_cons, hend, ← List.foldlM_cons]
  · intro d hd
    have hbang : d ≠ '!' := ne_of_isQualifiedChar hd (by decide)
    have hquestion : d ≠ '?' := ne_of_isQualifiedChar hd (by decide)
    have hslash : d ≠ '/' := ne_of_isQualifiedChar hd (by decide)
    simp [Scan.step, hbang, hquestion, hslash, hd]
  · intro d read hd
    simp [Scan.step, hd]

theorem foldlM_key (h : isLocalName name) (rest : List Char) :
    (name.toList ++ '=' :: rest).foldlM Scan.step ⟨done, .tag tag true⟩ =
      rest.foldlM Scan.step ⟨done, .quote tag ⟨"", name⟩⟩ := by
  have hend : Scan.step ⟨done, .attributeName tag name.toList.reverse⟩ '=' = some ⟨done, .quote tag ⟨"", name⟩⟩ := by
    have heq : isQualifiedChar '=' = false := by decide
    simp [Scan.step, heq, Written.ofChars_toList h, afterKey, isSpace]
  rw [foldlM_name (.attributeName tag) h, List.foldlM_cons, hend]
  · rfl
  · intro d hd
    have hspace : isSpace d = false := isSpace_eq_false hd
    have hslash : d ≠ '/' := ne_of_isQualifiedChar hd (by decide)
    have hclose : d ≠ '>' := ne_of_isQualifiedChar hd (by decide)
    simp [Scan.step, inTag, hspace, hslash, hclose, hd]
  · intro d read hd
    simp [Scan.step, hd]

theorem foldlM_value {key : Written} (h : IsLiteral text) (rest : List Char) :
    (text.toList ++ '"' :: rest).foldlM Scan.step ⟨done, .value tag key '"' []⟩ =
      rest.foldlM Scan.step ⟨done, .tag { tag with attributes := (key, text.toList) :: tag.attributes } false⟩ := by
  have hstep : ∀ c ∈ text.toList, ∀ read,
      Scan.step ⟨done, .value tag key '"' read⟩ c = some ⟨done, .value tag key '"' (c :: read)⟩ := by
    intro c hc read
    have hquote : c ≠ '"' := fun he => (h c hc).2 (by simp [he])
    have hopen : c ≠ '<' := fun he => (h c hc).2 (by simp [he])
    simp [Scan.step, hquote, hopen]
  have hend : Scan.step ⟨done, .value tag key '"' text.toList.reverse⟩ '"' =
      some ⟨done, .tag { tag with attributes := (key, text.toList) :: tag.attributes } false⟩ := by
    simp [Scan.step]
  rw [foldlM_reading hstep, List.append_nil, List.foldlM_cons, hend]
  rfl

theorem foldlM_attribute (hkey : isLocalName a.1) (hvalue : IsLiteral a.2) (rest : List Char) :
    (LocalTag.attributeChars a ++ rest).foldlM Scan.step ⟨done, .tag tag false⟩ =
      rest.foldlM Scan.step ⟨done, .tag { tag with attributes := (⟨"", a.1⟩, a.2.toList) :: tag.attributes } false⟩ := by
  calc (LocalTag.attributeChars a ++ rest).foldlM Scan.step ⟨done, .tag tag false⟩
      = (a.1.toList ++ '=' :: '"' :: (a.2.toList ++ '"' :: rest)).foldlM Scan.step ⟨done, .tag tag true⟩ := by
        simp [LocalTag.attributeChars, Scan.step, inTag, isSpace]
    _ = (a.2.toList ++ '"' :: rest).foldlM Scan.step ⟨done, .value tag ⟨"", a.1⟩ '"' []⟩ := by
        rw [foldlM_key hkey]
        rfl
    _ = _ := foldlM_value hvalue rest

theorem foldlM_attributes (h : ∀ a ∈ attributes, isLocalName a.1 ∧ IsLiteral a.2) (rest : List Char) :
    (attributes.flatMap LocalTag.attributeChars ++ rest).foldlM Scan.step ⟨done, .tag tag false⟩ =
      rest.foldlM Scan.step ⟨done, .tag { tag with
        attributes := (attributes.map fun a => (⟨"", a.1⟩, a.2.toList)).reverse ++ tag.attributes } false⟩ := by
  induction attributes generalizing tag with
  | nil => rfl
  | cons a as ih =>
      obtain ⟨⟨hkey, hvalue⟩, htail⟩ := List.forall_mem_cons.mp h
      rw [List.flatMap_cons, List.append_assoc, foldlM_attribute hkey hvalue, ih htail]
      simp

theorem foldlM_stopName (h : isLocalName name) (rest : List Char) :
    ('/' :: (name.toList ++ '>' :: rest)).foldlM Scan.step ⟨done, .opening⟩ =
      rest.foldlM Scan.step ⟨.stop ⟨"", name⟩ :: done, .text []⟩ := by
  have hend : Scan.step ⟨done, .stopName name.toList.reverse⟩ '>' = some ⟨.stop ⟨"", name⟩ :: done, .text []⟩ := by
    have hclose : isQualifiedChar '>' = false := by decide
    simp [Scan.step, hclose, Written.ofChars_toList h, afterStop, isSpace]
  have hstart : Scan.step ⟨done, .opening⟩ '/' = some ⟨done, .stopName []⟩ := by
    simp [Scan.step]
  have hstep : ∀ c read, isQualifiedChar c →
      Scan.step ⟨done, .stopName read⟩ c = some ⟨done, .stopName (c :: read)⟩ := by
    intro c read hc
    simp [Scan.step, hc]
  have hname := foldlM_name .stopName h (fun c hc => hstep c [] hc) hstep ('>' :: rest)
  rw [List.foldlM_cons, hend] at hname
  rw [List.foldlM_cons, hstart]
  exact hname

theorem foldlM_tag {t : LocalTag} (htext : IsText text) (h : t.Plain) (rest : List Char) :
    (text.toList ++ (t.chars ++ rest)).foldlM Scan.step ⟨done, .text []⟩ =
      rest.foldlM Scan.step ⟨t.markup :: (ofText text ++ done), .text []⟩ := by
  cases t with
  | start name attributes empty =>
      obtain ⟨hname, hattributes⟩ := h
      have hend : ∃ c cs, attributes.flatMap LocalTag.attributeChars ++
          ((if empty then [' ', '/', '>'] else ['>']) ++ rest) = c :: cs ∧ isQualifiedChar c = false := by
        cases attributes with
        | nil =>
            cases empty with
            | false => exact ⟨'>', rest, rfl, by decide⟩
            | true => exact ⟨' ', '/' :: '>' :: rest, rfl, by decide⟩
        | cons a as => exact ⟨' ', _, rfl, by decide⟩
      obtain ⟨c, cs, hcs, hc⟩ := hend
      rw [LocalTag.chars, List.cons_append, foldlM_opening htext, List.append_assoc, List.append_assoc, hcs,
        foldlM_startName hname hc, ← hcs, foldlM_attributes hattributes]
      cases empty with
      | false => simp [Scan.step, inTag, isSpace, LocalTag.markup]
      | true => simp [Scan.step, inTag, isSpace, LocalTag.markup]
  | stop name =>
      rw [LocalTag.chars, List.cons_append, foldlM_opening htext, List.cons_append, List.append_assoc]
      exact foldlM_stopName h rest

theorem foldlM_tags {ts : List (String × LocalTag)} (h : ∀ t ∈ ts, IsText t.1 ∧ t.2.Plain) (rest : List Char) :
    (ts.flatMap (fun t => t.1.toList ++ t.2.chars) ++ rest).foldlM Scan.step ⟨done, .text []⟩ =
      rest.foldlM Scan.step ⟨(ts.flatMap fun t => ofText t.1 ++ [t.2.markup]).reverse ++ done, .text []⟩ := by
  induction ts generalizing done with
  | nil => rfl
  | cons t ts ih =>
      obtain ⟨⟨htext, htag⟩, htail⟩ := List.forall_mem_cons.mp h
      rw [List.flatMap_cons, List.append_assoc, List.append_assoc, foldlM_tag htext htag, ih htail]
      simp

end Markup.Scan

theorem Markup.scan_tags {ts : List (String × LocalTag)} (h : ∀ t ∈ ts, IsText t.1 ∧ t.2.Plain) (htext : IsText text) :
    scan (ts.flatMap (fun t => t.1.toList ++ t.2.chars) ++ text.toList) =
      some (ts.flatMap (fun t => ofText t.1 ++ [t.2.markup]) ++ ofText text) := by
  have hlast : text.toList.foldlM Scan.step ⟨(ts.flatMap fun t => ofText t.1 ++ [t.2.markup]).reverse, .text []⟩ =
      some ⟨(ts.flatMap fun t => ofText t.1 ++ [t.2.markup]).reverse, .text text.toList.reverse⟩ := by
    simpa using Scan.foldlM_text htext []
  rw [scan, Scan.start, Scan.foldlM_tags h, List.append_nil, hlast]
  simp [Scan.finish, Scan.endText_toList htext]

end Layering.Xml
