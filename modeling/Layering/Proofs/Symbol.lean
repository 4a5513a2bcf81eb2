import Layering.Model
import Layering.Proofs.Lines

namespace Layering.Symbol

/-- Some text without a colon, as on either side of the colon of an id. -/
def IsPart (text : String) : Prop := text ≠ "" ∧ ':' ∉ text.toList

instance (text : String) : Decidable (IsPart text) := inferInstanceAs (Decidable (_ ∧ _))

/-- What an id is read as: the whole of it is a name, or its one colon stands between package and name, or nothing but the
package is missing, or none of these. -/
inductive ReadsAs (id : String) : Except SymbolError Symbol → Prop
  | bare : IsPart id → ReadsAs id (.ok ⟨"default", id, by decide⟩)
  | qualified {package name : String} (hpackage : IsPart package) : IsPart name → id = package ++ ":" ++ name →
      ReadsAs id (.ok ⟨package, name, hpackage.1⟩)
  | unpackaged {name : String} : IsPart name → id = ":" ++ name → ReadsAs id (.error (.emptyPackage id))
  | malformed : ¬ IsPart id → (∀ package name, IsPart package → IsPart name → id ≠ package ++ ":" ++ name) →
      (∀ name, IsPart name → id ≠ ":" ++ name) → ReadsAs id (.error (.malformedId id))

variable {id package name : String} {s s' : Symbol} {r : Except SymbolError Symbol}

theorem IsPart.toList_ne_nil (h : IsPart name) : name.toList ≠ [] := by
  simpa using h.1

theorem parse_bare (h : IsPart id) : parse id = .ok ⟨"default", id, by decide⟩ := by
  have hid := h.toList_ne_nil
  rw [parse, List.splitOn_eq_singleton h.2]
  simp [make, defaultPackage]

theorem toList_qualified (package name : String) :
    (package ++ ":" ++ name).toList = package.toList ++ ':' :: name.toList := by
  simp

theorem splitOn_qualified (hpackage : ':' ∉ package.toList) (hname : ':' ∉ name.toList) :
    (package ++ ":" ++ name).toList.splitOn ':' = [package.toList, name.toList] := by
  rw [toList_qualified, List.splitOn_append_cons_self_of_not_mem hpackage, List.splitOn_eq_singleton hname]

theorem parse_qualified (hpackage : IsPart package) (hname : IsPart name) :
    parse (package ++ ":" ++ name) = .ok ⟨package, name, hpackage.1⟩ := by
  have hn := hname.toList_ne_nil
  rw [parse, splitOn_qualified hpackage.2 hname.2]
  simp [make, hpackage.1]

theorem parse_unpackaged (hname : IsPart name) : parse (":" ++ name) = .error (.emptyPackage (":" ++ name)) := by
  have hid : ":" ++ name = "" ++ ":" ++ name := rfl
  have hn := hname.toList_ne_nil
  rw [hid, parse, splitOn_qualified (by simp) hname.2]
  simp [make]

theorem parse_malformed (hbare : ¬ IsPart id)
    (hqualified : ∀ package name, IsPart package → IsPart name → id ≠ package ++ ":" ++ name)
    (hunpackaged : ∀ name, IsPart name → id ≠ ":" ++ name) : parse id = .error (.malformedId id) := by
  rw [parse]
  split
  · rfl
  · rfl
  · next name hne hsplit =>
      obtain ⟨hcolon, rfl⟩ := List.splitOn_eq_singleton_iff.mp hsplit
      exact absurd ⟨by simpa using hne, hcolon⟩ hbare
  · next package name hne hsplit =>
      obtain ⟨hid, hpackage, hname⟩ := List.splitOn_eq_pair_iff.mp hsplit
      have hpart : IsPart (.ofList name) := ⟨by simpa using hne, by simpa using hname⟩
      have hjoined : id = .ofList package ++ ":" ++ .ofList name := by
        rw [← String.toList_inj, hid, toList_qualified, String.toList_ofList, String.toList_ofList]
      by_cases hp : package = []
      · subst hp
        exact absurd hjoined (hunpackaged _ hpart)
      · exact absurd hjoined (hqualified _ _ ⟨by simpa using hp, by simpa using hpackage⟩ hpart)
  · rfl

theorem ReadsAs.parse_eq (h : ReadsAs id r) : parse id = r := by
  cases h with
  | bare h => exact parse_bare h
  | qualified hpackage hname hid => exact hid ▸ parse_qualified hpackage hname
  | unpackaged hname hid => exact hid ▸ parse_unpackaged hname
  | malformed hbare hqualified hunpackaged => exact parse_malformed hbare hqualified hunpackaged

theorem exists_readsAs (id : String) : ∃ r, ReadsAs id r := by
  by_cases hbare : IsPart id
  · exact ⟨_, .bare hbare⟩
  by_cases hqualified : ∃ package name, IsPart package ∧ IsPart name ∧ id = package ++ ":" ++ name
  · obtain ⟨package, name, hpackage, hname, hid⟩ := hqualified
    exact ⟨_, .qualified hpackage hname hid⟩
  by_cases hunpackaged : ∃ name, IsPart name ∧ id = ":" ++ name
  · obtain ⟨name, hname, hid⟩ := hunpackaged
    exact ⟨_, .unpackaged hname hid⟩
  refine ⟨_, .malformed hbare (fun package name hpackage hname hid => ?_) fun name hname hid => ?_⟩
  · exact hqualified ⟨package, name, hpackage, hname, hid⟩
  · exact hunpackaged ⟨name, hname, hid⟩

theorem parse_eq_iff : parse id = r ↔ ReadsAs id r := by
  constructor
  · rintro rfl
    obtain ⟨r, h⟩ := exists_readsAs id
    exact h.parse_eq ▸ h
  · exact ReadsAs.parse_eq

theorem parts_of_parse (h : parse id = .ok s) : IsPart s.package ∧ IsPart s.name := by
  cases parse_eq_iff.mp h with
  | bare hid => exact ⟨(by decide : IsPart "default"), hid⟩
  | qualified hpackage hname => exact ⟨hpackage, hname⟩

theorem parse_display (hpackage : IsPart s.package) (hname : IsPart s.name) : parse s.display = .ok s :=
  parse_qualified hpackage hname

theorem display_inj (hpackage : IsPart s.package) (hname : IsPart s.name) (hpackage' : IsPart s'.package)
    (hname' : IsPart s'.name) : s.display = s'.display ↔ s = s' := by
  constructor
  · intro h
    have hs := parse_display hpackage hname
    rw [h, parse_display hpackage' hname'] at hs
    exact (Except.ok.inj hs).symm
  · rintro rfl
    rfl

theorem parse_display_iff : parse s.display = .ok s ↔ ':' ∉ s.package.toList ∧ ':' ∉ s.name.toList ∧ s.name ≠ "" := by
  constructor
  · intro h
    obtain ⟨hpackage, hname⟩ := parts_of_parse h
    exact ⟨hpackage.2, hname.2, hname.1⟩
  · rintro ⟨hpackage, hname, hne⟩
    exact parse_display ⟨s.package_ne_empty, hpackage⟩ ⟨hne, hname⟩

/-- An id is read as its parts say. What an id is read as is read again from what it is displayed as, so that no two
symbols that were read are displayed alike; any symbol is, just if it has a name and there is no colon in either part. -/
theorem parse_reads_ids :
    (∀ id r, parse id = r ↔ ReadsAs id r) ∧
    (∀ id s, parse id = .ok s → parse s.display = .ok s) ∧
    (∀ id id' s s', parse id = .ok s → parse id' = .ok s' → (s.display = s'.display ↔ s = s')) ∧
    ∀ package name, package ≠ "" → ∃ s, make package name = .ok s ∧ s.package = package ∧ s.name = name ∧
      (parse s.display = .ok s ↔ ':' ∉ package.toList ∧ ':' ∉ name.toList ∧ name ≠ "") := by
  refine ⟨fun id r => parse_eq_iff, fun id s h => ?_, fun id id' s s' h h' => ?_, fun package name hpackage => ?_⟩
  · obtain ⟨hpackage, hname⟩ := parts_of_parse h
    exact parse_display hpackage hname
  · obtain ⟨hpackage, hname⟩ := parts_of_parse h
    obtain ⟨hpackage', hname'⟩ := parts_of_parse h'
    exact display_inj hpackage hname hpackage' hname'
  · exact ⟨⟨package, name, hpackage⟩, dif_neg hpackage, rfl, rfl, parse_display_iff⟩

theorem parse_reads_ids_bare :
    let bare : Symbol := ⟨"default", "Panel", by decide⟩
    let view : Symbol := ⟨"view", "Panel", by decide⟩
    let nested : Symbol := ⟨"view", "Panel:Inner", by decide⟩
    parse "Panel" = .ok bare ∧ parse "default:Panel" = .ok bare ∧ parse "view:Panel" = .ok view ∧
      bare.display ≠ view.display ∧ "view" ≠ "" ∧ make "view" "Panel:Inner" = .ok nested ∧
      parse nested.display ≠ .ok nested ∧ parse ":Panel" = .error (.emptyPackage ":Panel") := by
  intro bare view nested
  obtain ⟨hreads, hagain, halike, hmade⟩ := parse_reads_ids
  have hname : IsPart "Panel" := by decide
  have hbare : parse "Panel" = .ok bare := (hreads _ _).mpr (.bare hname)
  have hview : parse "view:Panel" = .ok view := (hreads _ _).mpr (.qualified (by decide) hname rfl)
  have hdisplay : bare.display ≠ view.display := fun h => absurd ((halike _ _ _ _ hbare hview).mp h) (by decide)
  obtain ⟨s, hs, -, -, hback⟩ := hmade "view" "Panel:Inner" (by decide)
  obtain rfl : nested = s := Except.ok.inj hs
  exact ⟨hbare, hagain _ _ hbare, hview, hdisplay, by decide, hs, fun h => absurd (hback.mp h) (by decide),
    (hreads _ _).mpr (.unpackaged hname rfl)⟩

end Layering.Symbol
