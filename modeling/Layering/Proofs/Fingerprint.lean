import Layering.Proofs.Evaluation

namespace Layering

def Sha256.Collide (a b : String) : Prop := a ≠ b ∧ hex a.toUTF8 = hex b.toUTF8

theorem Sha256.hex_eq_iff {a b : String} : hex a.toUTF8 = hex b.toUTF8 ↔ a = b ∨ Collide a b := by
  constructor
  · intro h
    by_cases he : a = b
    · exact .inl he
    · exact .inr ⟨he, h⟩
  · rintro (rfl | h)
    · rfl
    · exact h.2

/-- A text that ends with a bar and another text is taken apart at the same bar, or further left or right. -/
theorem Fingerprint.joined_eq_iff {p s p' s' : String} : p ++ "|" ++ s = p' ++ "|" ++ s' ↔
    (p = p' ∧ s = s') ∨ (∃ w, p = p' ++ "|" ++ w ∧ s' = w ++ "|" ++ s) ∨ ∃ w, p' = p ++ "|" ++ w ∧ s = w ++ "|" ++ s' := by
  have hbar : "|".toList = ['|'] := rfl
  have hex : ∀ {P : List Char → Prop}, (∃ w : String, P w.toList) ↔ ∃ m, P m := fun {P} =>
    ⟨fun ⟨w, hw⟩ => ⟨w.toList, hw⟩, fun ⟨m, hm⟩ => ⟨.ofList m, by rwa [String.toList_ofList]⟩⟩
  simp only [← String.toList_inj, String.toList_append, hbar, List.append_assoc, List.singleton_append]
  rw [List.append_cons_eq_append_cons_iff]
  exact or_congr_right (or_congr hex.symm hex.symm)

namespace Finding

def identity (f : Finding) : String := Fingerprint.identity f.checkId f.code (f.package?.getD "") f.symbol?

structure SameSubject (f g : Finding) : Prop where
  checkId : f.checkId = g.checkId
  code : f.code = g.code
  package : f.package? = g.package?
  symbol : f.symbol? = g.symbol?

/-- The package of `f` is that of `g` up to a bar, and what is behind the bar stands before one in the symbol of `g`. -/
def Shifts (f g : Finding) : Prop :=
  ∃ p w s, f.package? = some (p ++ "|" ++ w) ∧ f.symbol? = some s ∧ g.package? = some p ∧ g.symbol? = some (w ++ "|" ++ s)

variable {f g : Finding} {v v' : Violation} {e e' : MissingRank}

theorem identity_ofViolation (v : Violation) : (ofViolation v).identity =
    "order.layering|upward_dependency|" ++ (v.package ++ "|" ++ v.symbol.display) := by
  rw [identity, package?_ofViolation, symbol?_ofViolation, ← String.append_assoc, ← String.append_assoc]
  rfl

theorem identity_ofMissingRank (e : MissingRank) :
    (ofMissingRank e).identity = "order.completeness|missing_rank|" ++ e.package := by
  rw [identity, package?_ofMissingRank, symbol?_ofMissingRank]
  rfl

theorem identity_ofViolation_ne (v : Violation) (e : MissingRank) :
    (ofViolation v).identity ≠ (ofMissingRank e).identity := by
  rw [identity_ofViolation, identity_ofMissingRank]
  intro h
  have hl := congrArg (fun s => s.toList[6]?) h
  simp at hl

theorem sameSubject_ofViolation :
    (ofViolation v).SameSubject (ofViolation v') ↔ v.package = v'.package ∧ v.symbol.display = v'.symbol.display := by
  constructor
  · intro h
    exact ⟨Option.some.inj h.package, Option.some.inj h.symbol⟩
  · rintro ⟨hp, hs⟩
    exact ⟨rfl, rfl, congrArg some hp, congrArg some hs⟩

theorem shifts_ofViolation : (ofViolation v).Shifts (ofViolation v') ↔
    ∃ w, v.package = v'.package ++ "|" ++ w ∧ v'.symbol.display = w ++ "|" ++ v.symbol.display := by
  constructor
  · rintro ⟨p, w, s, hp, hs, hp', hs'⟩
    obtain rfl := Option.some.inj hp'
    obtain rfl := Option.some.inj hs
    exact ⟨w, Option.some.inj hp, Option.some.inj hs'⟩
  · rintro ⟨w, hp, hs⟩
    exact ⟨_, w, _, congrArg some hp, rfl, rfl, congrArg some hs⟩

theorem sameSubject_ofMissingRank : (ofMissingRank e).SameSubject (ofMissingRank e') ↔ e.package = e'.package := by
  constructor
  · exact fun h => Option.some.inj h.package
  · exact fun h => ⟨rfl, rfl, congrArg some h, rfl⟩

theorem SameSubject.symm (h : f.SameSubject g) : g.SameSubject f :=
  ⟨h.checkId.symm, h.code.symm, h.package.symm, h.symbol.symm⟩

theorem Shifts.symbol_ne_none (h : f.Shifts g) : f.symbol? ≠ none ∧ g.symbol? ≠ none := by
  obtain ⟨p, w, s, -, hs, -, hs'⟩ := h
  rw [hs, hs']
  exact ⟨nofun, nofun⟩

theorem apart (v : Violation) (e : MissingRank) : ¬ ((ofViolation v).SameSubject (ofMissingRank e) ∨
    (ofViolation v).Shifts (ofMissingRank e) ∨ (ofMissingRank e).Shifts (ofViolation v)) := by
  rintro (h | h | h)
  · cases h.symbol
  · exact h.symbol_ne_none.2 rfl
  · exact h.symbol_ne_none.1 rfl

theorem Evaluated.identity_eq_iff (hf : f.Evaluated) (hg : g.Evaluated) :
    f.identity = g.identity ↔ f.SameSubject g ∨ f.Shifts g ∨ g.Shifts f := by
  cases hf with
  | violation v =>
      cases hg with
      | violation v' =>
          rw [identity_ofViolation, identity_ofViolation, String.append_right_inj, Fingerprint.joined_eq_iff,
            sameSubject_ofViolation, shifts_ofViolation, shifts_ofViolation]
      | missingRank e => exact iff_of_false (identity_ofViolation_ne v e) (apart v e)
  | missingRank e =>
      cases hg with
      | violation v =>
          exact iff_of_false (identity_ofViolation_ne v e).symm fun h => apart v e (h.imp SameSubject.symm Or.symm)
      | missingRank e' =>
          rw [identity_ofMissingRank, identity_ofMissingRank, String.append_right_inj, sameSubject_ofMissingRank]
          refine (or_iff_left ?_).symm
          rintro (h | h)
          · exact h.symbol_ne_none.1 rfl
          · exact h.symbol_ne_none.1 rfl

theorem Evaluated.fingerprint_eq (h : f.Evaluated) : f.fingerprint = some (Sha256.hex f.identity.toUTF8) := by
  cases h with
  | violation v => rfl
  | missingRank e => rfl

theorem Evaluated.same_fingerprint_iff (hf : f.Evaluated) (hg : g.Evaluated) :
    f.fingerprint = g.fingerprint ↔ f.identity = g.identity ∨ Sha256.Collide f.identity g.identity := by
  rw [hf.fingerprint_eq, hg.fingerprint_eq, Option.some.injEq, Sha256.hex_eq_iff]

theorem Shifts.bar_mem (h : f.Shifts g) : ∃ p, f.package? = some p ∧ '|' ∈ p.toList := by
  obtain ⟨p, w, s, hp, -⟩ := h
  exact ⟨_, hp, by simp⟩

/-- Whatever models, orders and policies two findings come from: but for a collision of the digest, they have one
fingerprint just if their check, code, package and symbol are the same, or a bar in the names of one stands where the other
one has the bar between its package and its symbol. Without bars in their packages they are the same. -/
theorem fingerprint_eq_iff {m m' : Model} {t t' : RankTable} {policy policy' : Policy} {f g : Finding}
    (hf : f ∈ (m.evaluate t policy).findings) (hg : g ∈ (m'.evaluate t' policy').findings) :
    (f.fingerprint = g.fingerprint ↔
      (f.SameSubject g ∨ f.Shifts g ∨ g.Shifts f) ∨ Sha256.Collide f.identity g.identity) ∧
    ((∀ p, f.package? = some p ∨ g.package? = some p → '|' ∉ p.toList) →
      (f.fingerprint = g.fingerprint ↔ f.SameSubject g ∨ Sha256.Collide f.identity g.identity)) := by
  have hf := Model.evaluated_of_mem_findings (Model.mem_evaluate hf)
  have hg := Model.evaluated_of_mem_findings (Model.mem_evaluate hg)
  have h : f.fingerprint = g.fingerprint ↔
      (f.SameSubject g ∨ f.Shifts g ∨ g.Shifts f) ∨ Sha256.Collide f.identity g.identity := by
    rw [hf.same_fingerprint_iff hg, hf.identity_eq_iff hg]
  refine ⟨h, fun hbar => ?_⟩
  have hshift : ¬ (f.Shifts g ∨ g.Shifts f) := by
    rintro (hs | hs)
    · obtain ⟨p, hp, hm⟩ := hs.bar_mem
      exact hbar p (.inl hp) hm
    · obtain ⟨p, hp, hm⟩ := hs.bar_mem
      exact hbar p (.inr hp) hm
  rw [h, or_iff_left hshift]

theorem fingerprint_eq_iff_two_orders :
    let base : Symbol := ⟨"base", "Point", by decide⟩
    let view : Symbol := ⟨"view", "Panel", by decide⟩
    let m := Model.empty.replay [.define base, .addDependency "base" view, .define view, .addDependency "app" base]
    let t : RankTable := ⟨[["app"], ["base"]], ["view"], [("app", 0), ("base", 1), ("view", 2)]⟩
    let t' : RankTable := ⟨[["base"], ["app"]], ["view"], [("base", 0), ("app", 1), ("view", 2)]⟩
    let f := ofViolation ⟨"base", 1, view, "view", 2⟩
    let f' := ofViolation ⟨"base", 0, view, "view", 2⟩
    let g := ofViolation ⟨"app", 0, base, "base", 1⟩
    RankTable.parse "app,base,view" = .ok t ∧ RankTable.parse "base,app,view" = .ok t' ∧
      (m.evaluate t ⟨.all, 200⟩).findings = [f, g] ∧ (m.evaluate t' ⟨.first, 1⟩).findings = [f'] ∧
      f.help ≠ f'.help ∧ f.fingerprint = f'.fingerprint ∧ f.fingerprint ≠ g.fingerprint := by
  intro base view m t t' f f' g
  have hv : m.validate t .all = .ok [⟨"base", 1, view, "view", 2⟩, ⟨"app", 0, base, "base", 1⟩] := by decide
  have hv' : m.validate t' .first = .ok [⟨"base", 0, view, "view", 2⟩] := by decide
  have hfound : (m.evaluate t ⟨.all, 200⟩).findings = [f, g] := by
    simp only [Model.findings_evaluate, Model.findings, hv]
    rfl
  have hfound' : (m.evaluate t' ⟨.first, 1⟩).findings = [f'] := by
    simp only [Model.findings_evaluate, Model.findings, hv']
    rfl
  have hf : f ∈ (m.evaluate t ⟨.all, 200⟩).findings := by rw [hfound]; exact List.mem_cons_self
  have hg : g ∈ (m.evaluate t ⟨.all, 200⟩).findings := by rw [hfound]; exact List.mem_cons_of_mem _ List.mem_cons_self
  have hf' : f' ∈ (m.evaluate t' ⟨.first, 1⟩).findings := by rw [hfound']; exact List.mem_cons_self
  have hbar : ∀ p, f.package? = some p ∨ g.package? = some p → '|' ∉ p.toList := by
    rintro p (hp | hp)
    · obtain rfl := Option.some.inj hp
      decide
    · obtain rfl := Option.some.inj hp
      decide
  refine ⟨rfl, rfl, hfound, hfound', by decide, ?_, ?_⟩
  · exact (fingerprint_eq_iff hf hf').1.mpr (.inl (.inl (sameSubject_ofViolation.mpr ⟨rfl, rfl⟩)))
  · intro h
    rcases ((fingerprint_eq_iff hf hg).2 hbar).mp h with hs | hc
    · exact absurd (sameSubject_ofViolation.mp hs).1 (by decide)
    · exact absurd hc.2 (by decide +kernel)

/-- One evaluation, two violations, one fingerprint, and no collision of the digest: the bar of `app|view` is read as the one
behind `app`. -/
theorem fingerprint_merges_bars :
    let inner : Symbol := ⟨"view|base", "Point", by decide⟩
    let outer : Symbol := ⟨"base", "Point", by decide⟩
    let m := Model.empty.replay [.addDependency "app" inner, .addDependency "app|view" outer, .define inner, .define outer]
    let t : RankTable := ⟨[["app", "app|view"]], ["view|base", "base"],
      [("app", 0), ("app|view", 0), ("view|base", 1), ("base", 1)]⟩
    let f := ofViolation ⟨"app", 0, inner, "view|base", 1⟩
    let g := ofViolation ⟨"app|view", 0, outer, "base", 1⟩
    Reachable m ∧ RankTable.parse "(app,app|view),(view|base,base)" = .ok t ∧
      (m.evaluate t ⟨.all, 200⟩).findings = [f, g] ∧ f.package? ≠ g.package? ∧ f.symbol? ≠ g.symbol? ∧
      f.fingerprint = g.fingerprint ∧ ¬ Sha256.Collide f.identity g.identity := by
  intro inner outer m t f g
  have hv : m.validate t .all = .ok [⟨"app", 0, inner, "view|base", 1⟩, ⟨"app|view", 0, outer, "base", 1⟩] := by decide
  have hfound : (m.evaluate t ⟨.all, 200⟩).findings = [f, g] := by
    simp only [Model.findings_evaluate, Model.findings, hv]
    rfl
  have hidentity : f.identity = g.identity := by decide
  have hf : f.Evaluated := .violation _
  have hg : g.Evaluated := .violation _
  exact ⟨⟨_, rfl⟩, rfl, hfound, by decide, by decide, (hf.same_fingerprint_iff hg).mpr (.inl hidentity),
    fun hc => hc.1 hidentity⟩

end Finding

end Layering
