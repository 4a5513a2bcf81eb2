import Layering.Proofs.Chain
import Layering.Proofs.Spelling

namespace Layering

namespace RankTable

variable {t : RankTable} {a b c name : String} {names : List String} {i : Nat}

theorem AtMost.below_of_ne (h : t.AtMost a b) (hne : t.rank a ≠ t.rank b) : t.Below a b := by
  obtain ⟨i, hi, j, hj, hij⟩ := h
  refine ⟨i, hi, j, hj, Nat.lt_of_le_of_ne hij ?_⟩
  rintro rfl
  exact hne (hi.trans hj.symm)

theorem Consistent.rank_of_one_group (h : t.Consistent) (hg : t.groups = [names]) (hn : name ∈ names) :
    t.rank name = some 0 := by
  rw [h.rank_eq_some_iff]
  refine ⟨mem_atRank.mpr ⟨names, by simp [hg], hn⟩, fun j hj => ?_⟩
  have hlt := lt_rankCount hj
  rw [rankCount, hg] at hlt
  exact Nat.lt_succ_iff.mp hlt

theorem mem_atRank_singletons (hg : t.groups = names.map (fun name => [name]) ++ [[]]) :
    name ∈ t.atRank i ↔ names[i]? = some name := by
  rw [mem_atRank, hg]
  constructor
  · rintro ⟨g, hi, hn⟩
    rcases List.getElem?_concat_eq_some.mp hi with hi | ⟨-, rfl⟩
    · rw [List.getElem?_map] at hi
      obtain ⟨other, ho, rfl⟩ := Option.map_eq_some_iff.mp hi
      rw [ho, List.mem_singleton.mp hn]
    · cases hn
  · intro hi
    refine ⟨[name], List.getElem?_concat_eq_some.mpr (.inl ?_), List.mem_singleton_self name⟩
    rw [List.getElem?_map, hi]
    rfl

theorem Consistent.rank_of_singletons (h : t.Consistent) (hg : t.groups = names.map (fun name => [name]) ++ [[]])
    (hn : names.Nodup) (hi : names[i]? = some name) : t.rank name = some i := by
  rw [h.rank_eq_some_iff]
  refine ⟨(mem_atRank_singletons hg).mpr hi, fun j hj => ?_⟩
  have hlt : i < names.length := (List.getElem?_eq_some_iff.mp hi).1
  have he : names[i]? = names[j]? := hi.trans ((mem_atRank_singletons hg).mp hj).symm
  exact Nat.le_of_eq ((List.getElem?_inj hlt hn).mp he).symm

end RankTable

namespace Model

variable {m : Model} {t : RankTable} {p q : Package}

theorem ordered_of_rank_eq {rank : Nat} (h : ∀ p ∈ m.packages, t.rank p.name = some rank) : m.Ordered t := by
  refine ⟨fun p hp => ?_, fun p hp d _ he => ?_⟩
  · rw [h p hp]
    exact Option.some_ne_none rank
  · obtain ⟨q, hq, hn, -⟩ := he
    exact ⟨rank, hn ▸ h q hq, rank, h p hp, Nat.le_refl rank⟩

theorem WellFormed.exists_one_group (h : m.WellFormed) (hn : ∀ p ∈ m.packages, IsName p.name) :
    ∃ t, RankTable.parse ("(" ++ ",".intercalate (m.packages.map (·.name)) ++ ")") = .ok t ∧
      ∀ p ∈ m.packages, t.rank p.name = some 0 := by
  have hnames : ∀ name ∈ m.packages.map (·.name), IsName name := by
    intro name hname
    obtain ⟨p, hp, rfl⟩ := List.mem_map.mp hname
    exact hn p hp
  have hgroup : ∀ g ∈ [] ++ [m.packages.map (·.name)], g.Nodup ∧ ∀ name ∈ g, IsName name := by
    intro g hg
    obtain rfl := List.mem_singleton.mp hg
    exact ⟨h.names_nodup, hnames⟩
  obtain ⟨t, ht, hg⟩ := RankTable.exists_parse_orderText (by simp) hgroup
  refine ⟨t, by simpa [orderText, groupText] using ht, fun p hp => ?_⟩
  exact (RankTable.scanned_of_parse ht).consistent.rank_of_one_group hg (List.mem_map_of_mem hp)

/-- An order under which a model passes, in either mode, can be written just if every package has a name that can be
written; then it can be one layer with all of them. -/
theorem orderable_iff_names {m : Model} (hm : Reachable m) :
    (∀ mode, (∃ text t, RankTable.parse text = .ok t ∧ m.validate t mode = .ok []) ↔
      ∀ p ∈ m.packages, IsName p.name) ∧
    ((∀ p ∈ m.packages, IsName p.name) →
      ∃ t, RankTable.parse ("(" ++ ",".intercalate (m.packages.map (·.name)) ++ ")") = .ok t ∧
        ∀ mode, m.validate t mode = .ok []) := by
  have h := hm.wellFormed
  have hflat : (∀ p ∈ m.packages, IsName p.name) →
      ∃ t, RankTable.parse ("(" ++ ",".intercalate (m.packages.map (·.name)) ++ ")") = .ok t ∧
        ∀ mode, m.validate t mode = .ok [] := by
    intro hn
    obtain ⟨t, ht, hr⟩ := h.exists_one_group hn
    exact ⟨t, ht, fun mode => h.validate_eq_nil_iff.mpr (ordered_of_rank_eq hr)⟩
  refine ⟨fun mode => ⟨?_, fun hn => ?_⟩, hflat⟩
  · rintro ⟨text, t, ht, hv⟩ p hp
    exact RankTable.isName_of_parse ht (ranked_of_validate hv p hp)
  · obtain ⟨t, ht, hv⟩ := hflat hn
    exact ⟨_, t, ht, hv mode⟩

theorem orderable_iff_names_hidden :
    let base : Symbol := ⟨"base", "Point", by decide⟩
    let view : Symbol := ⟨"view", "Panel", by decide⟩
    let m := Model.empty.replay [.define base, .addDependency "base" view, .define view, .addDependency "view" base]
    let m' := m.replay [.touch "a b"]
    Reachable m ∧ Reachable m' ∧ m.packages.map (·.name) = ["base", "view"] ∧
      (∃ t, RankTable.parse "(base,view)" = .ok t ∧ ∀ mode, m.validate t mode = .ok []) ∧
      ∀ mode, ¬ ∃ text t, RankTable.parse text = .ok t ∧ m'.validate t mode = .ok [] := by
  intro base view m m'
  have hm : Reachable m := ⟨_, rfl⟩
  have hm' : Reachable m' := hm.replay _
  let t : RankTable := ⟨[["base"]], ["view"], [("base", 0), ("view", 1)]⟩
  have ht : RankTable.parse "base,view" = .ok t := rfl
  have hr : ∀ p ∈ m.packages, t.rank p.name ≠ none := by decide
  have hnames : ∀ p ∈ m.packages, IsName p.name := fun p hp => RankTable.isName_of_parse ht (hr p hp)
  have hblank : ¬ ∀ p ∈ m'.packages, IsName p.name := by
    intro hn
    have hb := ((hn ⟨"a b", [], []⟩ (by decide)).2 ' ' (by decide)).2.2.2
    exact absurd hb (by decide)
  exact ⟨hm, hm', rfl, (orderable_iff_names hm).2 hnames, fun mode hv => hblank (((orderable_iff_names hm').1 mode).mp hv)⟩

def Apart (m : Model) (t : RankTable) : Prop :=
  ∀ p ∈ m.packages, ∀ q ∈ m.packages, p ≠ q → t.rank p.name ≠ t.rank q.name

instance (m : Model) (t : RankTable) : Decidable (m.Apart t) :=
  inferInstanceAs (Decidable (∀ p ∈ m.packages, ∀ q ∈ m.packages, p ≠ q → t.rank p.name ≠ t.rank q.name))

structure Edge (m : Model) (p q : Package) : Prop where
  source : p ∈ m.packages
  target : q ∈ m.packages
  ne : p ≠ q
  needs : Needs p q

theorem Ordered.below_of_edge (ho : m.Ordered t) (h : m.WellFormed) (hapart : m.Apart t) (he : m.Edge p q) :
    t.Below q.name p.name :=
  (ho.atMost_of_needs h he.source he.target he.needs).below_of_ne (hapart q he.target p he.source he.ne.symm)

theorem Ordered.below_of_path (ho : m.Ordered t) (h : m.WellFormed) (hapart : m.Apart t)
    (hpath : Relation.TransGen m.Edge p q) : t.Below q.name p.name := by
  induction hpath with
  | single he => exact ho.below_of_edge h hapart he
  | tail _ he ih => exact (ho.below_of_edge h hapart he).trans ih

/-- All packages in a row, none of which needs a later one, with their places as their ranks. -/
structure Arranged (m : Model) (t : RankTable) (row : List Package) : Prop where
  perm : row.Perm m.packages
  needs : row.Pairwise fun p q => ¬ m.Edge p q
  rank : ∀ i p, row[i]? = some p → t.rank p.name = some i

variable {row : List Package}

theorem Arranged.exists_rank (h : m.Arranged t row) (hp : p ∈ m.packages) :
    ∃ i, row[i]? = some p ∧ t.rank p.name = some i := by
  obtain ⟨i, hi⟩ := List.mem_iff_getElem?.mp (h.perm.mem_iff.mpr hp)
  exact ⟨i, hi, h.rank i p hi⟩

theorem Arranged.apart (h : m.Arranged t row) : m.Apart t := by
  intro p hp q hq hne he
  obtain ⟨i, hi, hri⟩ := h.exists_rank hp
  obtain ⟨j, hj, hrj⟩ := h.exists_rank hq
  obtain rfl : i = j := Option.some.inj (hri.symm.trans (he.trans hrj))
  exact hne (Option.some.inj (hi.symm.trans hj))

theorem Arranged.ordered (h : m.Arranged t row) : m.Ordered t := by
  refine ⟨fun p hp => ?_, fun p hp d hd he => ?_⟩
  · obtain ⟨i, -, hr⟩ := h.exists_rank hp
    rw [hr]
    exact Option.some_ne_none i
  · obtain ⟨q, hq, hn, he⟩ := he
    obtain ⟨i, hi, hri⟩ := h.exists_rank hp
    obtain ⟨j, hj, hrj⟩ := h.exists_rank hq
    refine ⟨j, hn ▸ hrj, i, hri, ?_⟩
    -- were `p` before `q` it could not need it
    by_contra hlt
    have hij : i < j := by omega
    have hne : p ≠ q := by
      rintro rfl
      exact hij.ne (Option.some.inj (hri.symm.trans hrj))
    obtain ⟨hil, hi⟩ := List.getElem?_eq_some_iff.mp hi
    obtain ⟨hjl, hj⟩ := List.getElem?_eq_some_iff.mp hj
    have hnot := List.pairwise_iff_getElem.mp h.needs i j hil hjl hij
    rw [hi, hj] at hnot
    exact hnot ⟨hp, hq, hne, d, hd, he⟩

theorem WellFormed.exists_arranged (h : m.WellFormed) (hn : ∀ p ∈ m.packages, IsName p.name)
    (hc : ∀ p, ¬ Relation.TransGen m.Edge p p) :
    ∃ text t row, RankTable.parse text = .ok t ∧ m.Arranged t row := by
  obtain ⟨row, hperm, hneeds⟩ := List.exists_perm_pairwise_of_acyclic hc m.packages
  have hnodup : (row.map (·.name)).Nodup := (hperm.map _).nodup_iff.mpr h.names_nodup
  have hgroups : ∀ g ∈ (row.map (·.name)).map (fun name => [name]) ++ [[]], g.Nodup ∧ ∀ name ∈ g, IsName name := by
    intro g hg
    rcases List.mem_append.mp hg with hg | hg
    · obtain ⟨name, hname, rfl⟩ := List.mem_map.mp hg
      obtain ⟨p, hp, rfl⟩ := List.mem_map.mp hname
      exact ⟨List.nodup_singleton _, by simpa using hn p (hperm.mem_iff.mp hp)⟩
    · obtain rfl := List.mem_singleton.mp hg
      exact ⟨List.nodup_nil, nofun⟩
  obtain ⟨t, ht, hg⟩ := RankTable.exists_parse_orderText (by simp) hgroups
  refine ⟨_, t, row, ht, hperm, hneeds, fun i p hi => ?_⟩
  refine (RankTable.scanned_of_parse ht).consistent.rank_of_singletons hg hnodup ?_
  rw [List.getElem?_map, hi]
  rfl

/-- An order with a layer for each package, under which the model passes, can be written just if no package needs itself
through others. -/
theorem apart_iff_acyclic {m : Model} (hm : Reachable m) (hn : ∀ p ∈ m.packages, IsName p.name) :
    (∃ text t, RankTable.parse text = .ok t ∧ m.Apart t ∧ m.validate t .all = .ok []) ↔
      ∀ p, ¬ Relation.TransGen m.Edge p p := by
  have h := hm.wellFormed
  constructor
  · rintro ⟨text, t, -, hapart, hv⟩ p hpath
    exact RankTable.Below.irrefl p.name ((h.validate_eq_nil_iff.mp hv).below_of_path h hapart hpath)
  · intro hc
    obtain ⟨text, t, row, ht, harranged⟩ := h.exists_arranged hn hc
    exact ⟨text, t, ht, harranged.apart, h.validate_eq_nil_iff.mpr harranged.ordered⟩

theorem apart_iff_acyclic_through_others :
    let base : Symbol := ⟨"base", "Point", by decide⟩
    let view : Symbol := ⟨"view", "Panel", by decide⟩
    let app : Symbol := ⟨"app", "Main", by decide⟩
    let m := Model.empty.replay [.define app, .addDependency "app" view, .define view, .addDependency "view" base,
      .define base, .addDependency "base" base]
    let m' := m.replay [.addDependency "base" app]
    Reachable m ∧ Reachable m' ∧ (∀ p ∈ m.packages, IsName p.name) ∧ (∀ p ∈ m'.packages, IsName p.name) ∧
      (∀ p, ¬ Relation.TransGen m.Edge p p) ∧
      ¬ ∃ text t, RankTable.parse text = .ok t ∧ m'.Apart t ∧ m'.validate t .all = .ok [] := by
  intro base view app m m'
  have hm : Reachable m := ⟨_, rfl⟩
  have hm' : Reachable m' := hm.replay _
  let t : RankTable := ⟨[["base"], ["view"]], ["app"], [("base", 0), ("view", 1), ("app", 2)]⟩
  have ht : RankTable.parse "base,view,app" = .ok t := rfl
  have hr : ∀ p ∈ m.packages, t.rank p.name ≠ none := by decide
  have hr' : ∀ p ∈ m'.packages, t.rank p.name ≠ none := by decide
  have hn : ∀ p ∈ m.packages, IsName p.name := fun p hp => RankTable.isName_of_parse ht (hr p hp)
  have hn' : ∀ p ∈ m'.packages, IsName p.name := fun p hp => RankTable.isName_of_parse ht (hr' p hp)
  let top : Package := ⟨"app", [app], [view]⟩
  let middle : Package := ⟨"view", [view], [base]⟩
  let low : Package := ⟨"base", [base], [base, app]⟩
  have htop : m'.Edge top middle := ⟨by decide, by decide, by decide, view, by decide⟩
  have hmiddle : m'.Edge middle low := ⟨by decide, by decide, by decide, base, by decide⟩
  have hlow : m'.Edge low top := ⟨by decide, by decide, by decide, app, by decide⟩
  have hcycle : Relation.TransGen m'.Edge top top := .tail (.tail (.single htop) hmiddle) hlow
  refine ⟨hm, hm', hn, hn', ?_, fun ht => (apart_iff_acyclic hm' hn').mp ht top hcycle⟩
  exact (apart_iff_acyclic hm hn).mp ⟨"base,view,app", t, ht, by decide, by decide⟩

end Model

end Layering
