import Layering.Proofs.Evaluation

namespace Layering.Model

variable {m : Model} {t : RankTable} {policy : Policy}

/-- Both modes fail alike. Else the first mode finds just the first of all violations, which tells of the first
dependency that goes up, and nothing where there is none. -/
theorem validate_modes_agree {m : Model} (hm : Reachable m) (t : RankTable) :
    (∀ e, m.validate t .first = .error e ↔ m.validate t .all = .error e) ∧
    (∀ first all, m.validate t .first = .ok first → m.validate t .all = .ok all →
      first = all.head?.toList ∧ first.isEmpty = all.isEmpty ∧
      List.Forall₂ (fun u => Violation.Records t u.1 u.2) ((m.upwardDependencies t).take 1) first) ∧
    m.modesAgree t = true := by
  have hfirst : m.validate t .first = (m.validate t .all).map (·.take 1) := validate_first m t
  refine ⟨?_, ?_, modesAgree_eq_true m t⟩
  · intro e
    rw [hfirst]
    cases m.validate t .all <;> simp [Except.map]
  · intro first all hf hall
    rw [hall] at hfirst
    obtain rfl : all.take 1 = first := Except.ok.inj (hfirst.symm.trans hf)
    have hr := ranked_of_validate hall
    obtain rfl : m.scanPackages t .all m.packages = all := Except.ok.inj ((validate_eq_ok .all hr).symm.trans hall)
    refine ⟨?_, ?_, List.forall₂_take 1 (hm.wellFormed.scanPackages_records m.packages hr)⟩
    · cases m.scanPackages t .all m.packages <;> rfl
    · cases m.scanPackages t .all m.packages <;> rfl

theorem validate_modes_agree_twice :
    let base : Symbol := ⟨"base", "Point", by decide⟩
    let view : Symbol := ⟨"view", "Panel", by decide⟩
    let m := Model.empty.replay [.define base, .define view, .addDependency "base" view, .addDependency "app" view,
      .addDependency "app" base]
    let t : RankTable := ⟨[["app"], ["base"]], ["view"], [("app", 0), ("base", 1), ("view", 2)]⟩
    let low : Violation := ⟨"base", 1, view, "view", 2⟩
    Reachable m ∧ RankTable.parse "app,base,view" = .ok t ∧ m.validate t .first = .ok [low] ∧
      m.validate t .all = .ok [low, ⟨"app", 0, view, "view", 2⟩, ⟨"app", 0, base, "base", 1⟩] ∧
      [low] = [low, ⟨"app", 0, view, "view", 2⟩, ⟨"app", 0, base, "base", 1⟩].head?.toList := by
  intro base view m t low
  have hm : Reachable m := ⟨_, rfl⟩
  have hfirst : m.validate t .first = .ok [low] := by decide
  have hall : m.validate t .all = .ok [low, ⟨"app", 0, view, "view", 2⟩, ⟨"app", 0, base, "base", 1⟩] := by decide
  exact ⟨hm, rfl, hfirst, hall, ((validate_modes_agree hm t).2.1 _ _ hfirst hall).1⟩

theorem upwardDependencies_ne_nil : m.upwardDependencies t ≠ [] ↔
    ∃ p ∈ m.packages, ∃ d ∈ p.dependencies, m.Exports d ∧ t.Below p.name d.package := by
  rw [ne_eq, upwardDependencies_eq_nil]
  push Not
  rfl

theorem WellFormed.verdict_of_ranked (h : m.WellFormed) (hr : ∀ p ∈ m.packages, t.rank p.name ≠ none) :
    (m.evaluate t policy).verdict = .fail ↔ m.upwardDependencies t ≠ [] ∧
      (policy.mode = .all → ¬ UInt32.size ∣ (m.upwardDependencies t).length) := by
  have hl : (m.findings t policy).length = _ := h.length_findings hr
  have hne : m.upwardDependencies t ≠ [] ↔ 0 < (m.upwardDependencies t).length := List.length_pos_iff.symm
  rw [verdict_evaluate_eq_fail, hl, hne]
  cases policy.mode with
  | first =>
      -- one finding at most is counted, and one is no multiple of the size of the counter
      have hone : UInt32.size ∣ min 1 (m.upwardDependencies t).length ↔ min 1 (m.upwardDependencies t).length = 0 :=
        ⟨fun hd => Nat.eq_zero_of_dvd_of_lt hd (Nat.lt_of_le_of_lt (Nat.min_le_left _ _) (by decide)),
          fun hz => hz ▸ Nat.dvd_zero _⟩
      simp only [hone, reduceCtorEq, false_implies, and_true]
      omega
  | all =>
      simp only [true_implies, iff_and_self]
      exact fun hd => Nat.pos_of_ne_zero fun hz => hd (hz ▸ Nat.dvd_zero _)

theorem WellFormed.verdict_evaluate_eq_fail_iff (h : m.WellFormed) :
    (m.evaluate t policy).verdict = .fail ↔ (∃ p ∈ m.packages, t.rank p.name = none) ∨
      (∃ p ∈ m.packages, ∃ d ∈ p.dependencies, m.Exports d ∧ t.Below p.name d.package) ∧
        (policy.mode = .all → ¬ UInt32.size ∣ (m.upwardDependencies t).length) := by
  rw [← upwardDependencies_ne_nil]
  by_cases hr : ∀ p ∈ m.packages, t.rank p.name ≠ none
  · have hn : ¬ ∃ p ∈ m.packages, t.rank p.name = none := fun ⟨p, hp, he⟩ => hr p hp he
    rw [h.verdict_of_ranked hr, or_iff_right hn]
  · have hu : ∃ p ∈ m.packages, t.rank p.name = none := by
      push Not at hr
      exact hr
    have hone : (m.findings t policy).length = 1 := findings_unranked hu
    rw [verdict_evaluate_eq_fail, hone]
    exact iff_of_true (by decide) (.inl hu)

/-- A check fails just where a package has no rank or a dependency goes up, whatever the mode and the limit on findings;
but to look for all violations passes where their number is a multiple of the size of the counter. -/
theorem verdict_fails_iff {m : Model} (hm : Reachable m) (t : RankTable) (policy : Policy) :
    ((m.evaluate t policy).verdict = .fail ↔ (∃ p ∈ m.packages, t.rank p.name = none) ∨
      (∃ p ∈ m.packages, ∃ d ∈ p.dependencies, m.Exports d ∧ t.Below p.name d.package) ∧
        (policy.mode = .all → ¬ UInt32.size ∣ (m.upwardDependencies t).length)) ∧
    ∀ other : Policy, other.mode = policy.mode ∨ (m.upwardDependencies t).length < UInt32.size →
      (m.evaluate t other).verdict = (m.evaluate t policy).verdict := by
  have h := hm.wellFormed
  refine ⟨h.verdict_evaluate_eq_fail_iff, ?_⟩
  intro other hsame
  have hfail : (m.evaluate t other).verdict = .fail ↔ (m.evaluate t policy).verdict = .fail := by
    rw [h.verdict_evaluate_eq_fail_iff, h.verdict_evaluate_eq_fail_iff]
    rcases hsame with hmode | hfew
    · rw [hmode]
    · refine or_congr_right (and_congr_right fun hup => ?_)
      -- there is a violation, and there are too few of them for the count to come round
      have hd : ¬ UInt32.size ∣ (m.upwardDependencies t).length := by
        intro hd
        have hz := List.length_eq_zero_iff.mp (Nat.eq_zero_of_dvd_of_lt hd hfew)
        exact upwardDependencies_ne_nil.mpr hup hz
      exact iff_of_true (fun _ => hd) (fun _ => hd)
  cases ho : (m.evaluate t other).verdict with
  | fail => exact (hfail.mp ho).symm
  | pass =>
      cases hp : (m.evaluate t policy).verdict with
      | pass => rfl
      | fail => exact absurd (ho.symm.trans (hfail.mpr hp)) (by decide)

theorem verdict_fails_unshown :
    let base : Symbol := ⟨"base", "Point", by decide⟩
    let view : Symbol := ⟨"view", "Panel", by decide⟩
    let m := Model.empty.replay [.define base, .addDependency "base" view, .define view]
    let t : RankTable := ⟨[["base"]], ["view"], [("base", 0), ("view", 1)]⟩
    Reachable m ∧ RankTable.parse "base,view" = .ok t ∧ (m.upwardDependencies t).length < UInt32.size ∧
      (m.evaluate t ⟨.all, 0⟩).verdict = .fail ∧
      (m.evaluate t ⟨.first, 200⟩).verdict = (m.evaluate t ⟨.all, 0⟩).verdict := by
  intro base view m t
  have hm : Reachable m := ⟨_, rfl⟩
  have hone : (m.upwardDependencies t).length = 1 := by decide
  have hfew : (m.upwardDependencies t).length < UInt32.size := hone ▸ by decide
  obtain ⟨hfail, hsame⟩ := verdict_fails_iff hm t ⟨.all, 0⟩
  have hup : ∃ p ∈ m.packages, ∃ d ∈ p.dependencies, m.Exports d ∧ t.Below p.name d.package := by decide
  exact ⟨hm, rfl, hfew, hfail.mpr (.inr ⟨hup, fun _ => hone ▸ by decide⟩), hsame ⟨.first, 200⟩ (.inr hfew)⟩

def crowdSymbol (i : Nat) : Symbol := ⟨"view", toString i, by decide⟩

def crowdSteps (n : Nat) : List Step :=
  (List.range n).flatMap fun i => [.define (crowdSymbol i), .addDependency "base" (crowdSymbol i)]

/-- A package `base` that needs `n` different symbols of a package `view`. -/
def crowd (n : Nat) : Model := Model.empty.replay (.touch "view" :: .touch "base" :: crowdSteps n)

def crowdOrder : RankTable := ⟨[["base"]], ["view"], [("base", 0), ("view", 1)]⟩

theorem crowdSymbol_injective : Function.Injective crowdSymbol := by
  intro i j h
  have hname : toString i = toString j := congrArg Symbol.name h
  have hdigits : Nat.toDigits 10 i = Nat.toDigits 10 j := by
    simpa only [Nat.toString_eq_ofList_toDigits, String.ofList_inj] using hname
  have hread (k : Nat) : Nat.ofDigitChars 10 (Nat.toDigits 10 k) 0 = k := Nat.ofDigitChars_ten_toDigits
  rw [← hread i, hdigits, hread j]

theorem length_name_crowdSymbol {i : Nat} (h : i < UInt32.size) : (crowdSymbol i).name.length ≤ 10 := by
  have hi : i < 10 ^ 10 := Nat.lt_trans h (by decide)
  rw [crowdSymbol, Nat.toString_eq_ofList_toDigits, String.length_ofList]
  exact (Nat.length_toDigits_le_iff (by decide) (by decide)).mpr hi

theorem crowd_succ (n : Nat) :
    crowd (n + 1) = ((crowd n).define (crowdSymbol n)).addDependency "base" (crowdSymbol n) := by
  have hs : crowdSteps (n + 1) =
      crowdSteps n ++ [.define (crowdSymbol n), .addDependency "base" (crowdSymbol n)] := by
    simp [crowdSteps, List.range_succ]
  rw [crowd, hs, replay, ← List.cons_append, ← List.cons_append, List.foldl_append]
  rfl

theorem crowd_eq (n : Nat) : ∃ exports, (∀ i < n, crowdSymbol i ∈ exports) ∧
    crowd n = ⟨[⟨"view", exports, []⟩, ⟨"base", [], (List.range n).map crowdSymbol⟩], [("base", 1), ("view", 0)]⟩ := by
  induction n with
  | zero => exact ⟨[], by simp, rfl⟩
  | succ n ih =>
      obtain ⟨exports, hmem, he⟩ := ih
      refine ⟨Package.insertExport (crowdSymbol n) exports, ?_, ?_⟩
      · intro i hi
        rw [Package.mem_insertExport]
        rcases Nat.lt_succ_iff_lt_or_eq.mp hi with hi | rfl
        · exact .inr (hmem i hi)
        · exact .inl rfl
      · rw [crowd_succ, he, List.range_succ, List.map_append]
        rfl

theorem mem_dependencies_crowd {n : Nat} {p : Package} {d : Symbol} (hp : p ∈ (crowd n).packages)
    (hd : d ∈ p.dependencies) : ∃ i < n, crowdSymbol i = d := by
  obtain ⟨exports, -, he⟩ := crowd_eq n
  rw [he] at hp
  rcases List.mem_pair.mp hp with rfl | rfl
  · cases hd
  · obtain ⟨i, hi, rfl⟩ := List.mem_map.mp hd
    exact ⟨i, List.mem_range.mp hi, rfl⟩

theorem upward_crowd {n : Nat} {exports : List Symbol} (hmem : ∀ i < n, crowdSymbol i ∈ exports)
    (he : (crowd n).packages = [⟨"view", exports, []⟩, ⟨"base", [], (List.range n).map crowdSymbol⟩]) :
    (crowd n).upward crowdOrder ⟨"base", [], (List.range n).map crowdSymbol⟩ = (List.range n).map crowdSymbol := by
  have hall : ∀ d ∈ (List.range n).map crowdSymbol, (crowd n).Exports d ∧ crowdOrder.Below "base" d.package := by
    intro d hd
    obtain ⟨i, hi, rfl⟩ := List.mem_map.mp hd
    refine ⟨⟨⟨"view", exports, []⟩, by simp [he], rfl, hmem i (List.mem_range.mp hi)⟩, ?_⟩
    exact ⟨0, rfl, 1, rfl, Nat.zero_lt_one⟩
  have hf : ((List.range n).map crowdSymbol).filter (fun d => (crowd n).Exports d ∧ crowdOrder.Below "base" d.package) =
      (List.range n).map crowdSymbol := by
    rw [List.filter_eq_self]
    exact fun d hd => decide_eq_true (hall d hd)
  rw [upward, hf]
  exact List.Nodup.eraseDups_eq (List.nodup_range.map crowdSymbol_injective)

theorem length_upwardDependencies_crowd (n : Nat) : ((crowd n).upwardDependencies crowdOrder).length = n := by
  obtain ⟨exports, hmem, he⟩ := crowd_eq n
  have hp : (crowd n).packages = [⟨"view", exports, []⟩, ⟨"base", [], (List.range n).map crowdSymbol⟩] := by rw [he]
  have hview : (crowd n).upward crowdOrder ⟨"view", exports, []⟩ = [] := rfl
  rw [upwardDependencies, hp, List.flatMap_cons, List.flatMap_cons, hview, upward_crowd hmem hp]
  simp

theorem ranked_crowd (n : Nat) : ∀ p ∈ (crowd n).packages, crowdOrder.rank p.name ≠ none := by
  obtain ⟨exports, -, he⟩ := crowd_eq n
  intro p hp
  rw [he] at hp
  rcases List.mem_pair.mp hp with rfl | rfl
  · exact Option.some_ne_none 1
  · exact Option.some_ne_none 0

theorem length_findings_crowd (n limit : Nat) : ((crowd n).findings crowdOrder ⟨.all, limit⟩).length = n := by
  have hm : Reachable (crowd n) := ⟨_, rfl⟩
  rw [hm.wellFormed.length_findings (ranked_crowd n)]
  exact length_upwardDependencies_crowd n

/-- As many violations as a counter of 32 bits has values, of symbols with short names: the check passes, and shows 200
of them. To look for the first one fails. -/
theorem verdict_passes_crowd :
    let m := crowd UInt32.size
    Reachable m ∧ RankTable.parse "base,view" = .ok crowdOrder ∧
      (∀ p ∈ m.packages, ∀ d ∈ p.dependencies, d.package = "view" ∧ d.name.length ≤ 10) ∧
      (∃ p ∈ m.packages, ∃ d ∈ p.dependencies, m.Exports d ∧ crowdOrder.Below p.name d.package) ∧
      (m.evaluate crowdOrder ⟨.all, 200⟩).verdict = .pass ∧
      (m.evaluate crowdOrder ⟨.all, 200⟩).findings.length = 200 ∧
      (m.evaluate crowdOrder ⟨.first, 200⟩).verdict = .fail := by
  intro m
  have hm : Reachable m := ⟨_, rfl⟩
  have hfound : (m.findings crowdOrder ⟨.all, 200⟩).length = UInt32.size := length_findings_crowd _ _
  have hup : ∃ p ∈ m.packages, ∃ d ∈ p.dependencies, m.Exports d ∧ crowdOrder.Below p.name d.package := by
    have hlen : (m.upwardDependencies crowdOrder).length = UInt32.size := length_upwardDependencies_crowd _
    have hpos : 0 < (m.upwardDependencies crowdOrder).length := hlen ▸ by decide
    exact upwardDependencies_ne_nil.mp (List.ne_nil_of_length_pos hpos)
  have hshort : ∀ p ∈ m.packages, ∀ d ∈ p.dependencies, d.package = "view" ∧ d.name.length ≤ 10 := by
    intro p hp d hd
    obtain ⟨i, hi, rfl⟩ := mem_dependencies_crowd hp hd
    exact ⟨rfl, length_name_crowdSymbol hi⟩
  refine ⟨hm, rfl, hshort, hup, ?_, ?_, ?_⟩
  · rw [verdict_evaluate_eq_pass, hfound]
  · rw [findings_evaluate, List.length_take, hfound]
    exact Nat.min_eq_left (by decide)
  · exact hm.wellFormed.verdict_evaluate_eq_fail_iff.mpr (.inr ⟨hup, nofun⟩)

end Layering.Model
