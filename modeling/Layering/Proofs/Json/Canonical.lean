import Layering.Proofs.Json.Record
import Layering.Proofs.Results

namespace Layering.Json

/-- Values of which 64 bits hold every integer, containers are at most so deep, and keys of objects ascend. -/
inductive Canonical : Nat → Json → Prop
  | null {n : Nat} : Canonical n .null
  | bool {n : Nat} (b : Bool) : Canonical n (.bool b)
  | int {n : Nat} {i : Int} (hlow : -2 ^ 63 ≤ i) (hhigh : i < 2 ^ 64) : Canonical n (.int i)
  | float {n : Nat} (bits : UInt64) : Canonical n (.float bits)
  | str {n : Nat} (s : String) : Canonical n (.str s)
  | arr {n : Nat} {vs : List Json} (h : ∀ v ∈ vs, Canonical n v) : Canonical (n + 1) (.arr vs)
  | obj {n : Nat} {fs : List (String × Json)} (hk : (fs.map (·.1)).Pairwise (· < ·)) (h : ∀ f ∈ fs, Canonical n f.2) :
      Canonical (n + 1) (.obj fs)

inductive FloatFree : Json → Prop
  | null : FloatFree .null
  | bool (b : Bool) : FloatFree (.bool b)
  | int (i : Int) : FloatFree (.int i)
  | str (s : String) : FloatFree (.str s)
  | arr {vs : List Json} (h : ∀ v ∈ vs, FloatFree v) : FloatFree (.arr vs)
  | obj {fs : List (String × Json)} (h : ∀ f ∈ fs, FloatFree f.2) : FloatFree (.obj fs)

variable {n : Nat} {v : Json}

theorem Canonical.readable (h : Canonical n v) (hf : FloatFree v) : Readable n v := by
  induction h with
  | null => exact .null
  | bool b => exact .bool b
  | int hlow hhigh => exact .int hlow hhigh
  | float bits => cases hf
  | str s => exact .str s
  | arr _ ih =>
      cases hf with
      | arr hf => exact .arr fun v hv => ih v hv (hf v hv)
  | obj _ _ ih =>
      cases hf with
      | obj hf => exact .obj fun f hm => ih f hm (hf f hm)

theorem Canonical.sorted_eq (h : Canonical n v) : sorted v = v := by
  induction h with
  | null | bool | int | float | str => rfl
  | @arr _ vs _ ih =>
      rw [sorted, sortedItems_eq_map, List.map_congr_left ih, List.map_id']
  | obj hk _ ih => exact sorted_ascending hk ih

namespace Number

theorem significand_lt {m : Nat} (h : m < UInt64.size) (ds : List Char) : (significand m ds).1 < UInt64.size := by
  induction ds generalizing m with
  | nil => exact h
  | cons c cs ih =>
      rw [significand]
      split
      · next hlt => exact ih hlt
      · exact h

theorem canonical_signed (negative : Bool) (x : Float) : Canonical n (signed negative x) := .float _

theorem Parts.canonical_value {p : Parts} (h : p.value = some v) : Canonical n v := by
  have hlt : (significand 0 p.whole).1 < UInt64.size := significand_lt (by decide) p.whole
  have hsize : UInt64.size = 2 ^ 64 := rfl
  unfold Parts.value at h
  rcases hread : significand 0 p.whole with ⟨k, dropped⟩
  rw [hread] at hlt
  simp only [hread] at h
  split at h
  · split at h
    · obtain rfl := Option.some.inj h
      exact .int (by omega) (by omega)
    · split at h
      · obtain rfl := Option.some.inj h
        exact .int (by omega) (by omega)
      · obtain rfl := Option.some.inj h
        exact canonical_signed _ _
  · split at h
    all_goals
      split at h
      · split at h
        · obtain rfl := Option.some.inj h
          exact canonical_signed _ _
        · cases h
      · obtain ⟨x, -, rfl⟩ := Option.map_eq_some_iff.mp h
        exact canonical_signed _ _

theorem canonical_ofChars {cs : List Char} (h : ofChars cs = some v) : Canonical n v := by
  obtain ⟨p, -, hv⟩ := Option.bind_eq_some_iff.mp h
  exact Parts.canonical_value hv

end Number

namespace Token

def Canonical : Token → Prop
  | .scalar v => ∀ n, Json.Canonical n v
  | _ => True

variable {t : Token} {ts : List Token} {c : Char}

theorem canonical_ofWord {cs : List Char} (h : ofWord cs = some t) : t.Canonical := by
  unfold ofWord at h
  split at h
  · obtain rfl := Option.some.inj h
    exact fun n => .null
  · split at h
    · obtain rfl := Option.some.inj h
      exact fun n => .bool true
    · split at h
      · obtain rfl := Option.some.inj h
        exact fun n => .bool false
      · cases h

theorem canonical_ofMark (h : ofMark c = some t) : t.Canonical := by
  unfold ofMark at h
  split at h <;> cases h <;> trivial

namespace Scan

variable {s s' : Scan}

def Canonical (s : Scan) : Prop := ∀ t ∈ s.tokens, t.Canonical

theorem canonical_settle (hs : s.Canonical) (h : s.settle = some ts) : ∀ t ∈ ts, t.Canonical := by
  unfold settle at h
  split at h
  · obtain rfl := Option.some.inj h
    exact hs
  · obtain ⟨t, ht, rfl⟩ := Option.map_eq_some_iff.mp h
    exact List.forall_mem_cons.mpr ⟨canonical_ofWord ht, hs⟩
  · obtain ⟨v, hv, rfl⟩ := Option.map_eq_some_iff.mp h
    exact List.forall_mem_cons.mpr ⟨fun n => Number.canonical_ofChars hv, hs⟩
  · cases h

theorem canonical_begin (hts : ∀ t ∈ ts, t.Canonical) (h : begin ts c = some s) : s.Canonical := by
  unfold begin at h
  split at h
  · obtain rfl := Option.some.inj h
    exact hts
  · split at h
    · obtain rfl := Option.some.inj h
      exact hts
    · split at h
      · obtain rfl := Option.some.inj h
        exact hts
      · split at h
        · obtain rfl := Option.some.inj h
          exact hts
        · obtain ⟨t, ht, rfl⟩ := Option.map_eq_some_iff.mp h
          exact List.forall_mem_cons.mpr ⟨canonical_ofMark ht, hts⟩

theorem canonical_settle_begin (hs : s.Canonical) (h : (s.settle >>= (begin · c)) = some s') : s'.Canonical := by
  obtain ⟨ts, hts, h⟩ := Option.bind_eq_some_iff.mp h
  exact canonical_begin (canonical_settle hs hts) h

theorem canonical_step (hs : s.Canonical) (h : s.step c = some s') : s'.Canonical := by
  unfold step at h
  split at h
  · exact canonical_begin hs h
  · split at h
    · obtain rfl := Option.some.inj h
      exact hs
    · exact canonical_settle_begin hs h
  · split at h
    · obtain rfl := Option.some.inj h
      exact hs
    · exact canonical_settle_begin hs h
  · split at h
    · obtain rfl := Option.some.inj h
      exact List.forall_mem_cons.mpr ⟨fun n => .str _, hs⟩
    · split at h
      · obtain rfl := Option.some.inj h
        exact hs
      · split at h
        · cases h
        · obtain rfl := Option.some.inj h
          exact hs
  · split at h
    · obtain rfl := Option.some.inj h
      exact hs
    · obtain ⟨d, -, rfl⟩ := Option.map_eq_some_iff.mp h
      exact hs
  · obtain ⟨d, -, h⟩ := Option.bind_eq_some_iff.mp h
    dsimp only at h
    split at h
    · obtain rfl := Option.some.inj h
      exact hs
    · obtain ⟨mode, -, h⟩ := Option.bind_eq_some_iff.mp h
      obtain rfl := Option.some.inj h
      exact hs
  · split at h
    · obtain rfl := Option.some.inj h
      exact hs
    · split at h
      · obtain rfl := Option.some.inj h
        exact hs
      · cases h

end Scan

theorem canonical_scan {cs : List Char} (h : scan cs = some ts) : ∀ t ∈ ts, t.Canonical := by
  obtain ⟨s, hs, h⟩ := Option.bind_eq_some_iff.mp h
  obtain ⟨read, hread, h⟩ := Option.bind_eq_some_iff.mp h
  obtain rfl := Option.some.inj h
  have hstart : Scan.start.Canonical := nofun
  have hend := Option.foldlM_keeps (fun _ _ _ _ hs h => Scan.canonical_step hs h) hstart hs
  intro t ht
  exact Scan.canonical_settle hend hread t (List.mem_reverse.mp ht)

end Token

namespace Reader

variable {limit : Nat} {s s' : State} {outer : List Container} {fs : List (String × Json)}

structure Fields (n : Nat) (fs : List (String × Json)) : Prop where
  ascending : (fs.map (·.1)).Pairwise (· < ·)
  values : ∀ f ∈ fs, Canonical n f.2

theorem Fields.nil : Fields n [] := ⟨.nil, nofun⟩

theorem mem_insertField {key : String} {f : String × Json} (h : f ∈ insertField key v fs) : f = (key, v) ∨ f ∈ fs := by
  induction fs with
  | nil => exact .inl (List.mem_singleton.mp h)
  | cons g fs ih =>
      rw [insertField] at h
      split at h
      · rcases List.mem_cons.mp h with h | h
        · exact .inl h
        · exact .inr (List.mem_cons_of_mem g h)
      · split at h
        · rcases List.mem_cons.mp h with h | h
          · exact .inl h
          · exact .inr h
        · rcases List.mem_cons.mp h with h | h
          · exact .inr (h ▸ List.mem_cons_self)
          · exact (ih h).imp_right (List.mem_cons_of_mem g)

theorem ascending_insertField {key : String} (h : (fs.map (·.1)).Pairwise (· < ·)) :
    ((insertField key v fs).map (·.1)).Pairwise (· < ·) := by
  induction fs with
  | nil => exact List.pairwise_singleton _ _
  | cons g fs ih =>
      obtain ⟨hg, hfs⟩ := List.pairwise_cons.mp h
      rw [insertField]
      split
      · next he =>
          subst he
          exact h
      · next hne =>
          split
          · next hlt =>
              refine List.pairwise_cons.mpr ⟨fun k hk => ?_, h⟩
              rcases List.mem_cons.mp hk with rfl | hk
              · exact hlt
              · exact String.lt_trans hlt (hg k hk)
          · next hnlt =>
              have hgt : g.1 < key := by
                by_contra hle
                exact hne (String.le_antisymm (String.not_lt.mp hle) (String.not_lt.mp hnlt))
              refine List.pairwise_cons.mpr ⟨fun k hk => ?_, ih hfs⟩
              obtain ⟨f, hf, rfl⟩ := List.mem_map.mp hk
              rcases mem_insertField hf with rfl | hf
              · exact hgt
              · exact hg f.1 (List.mem_map_of_mem hf)

theorem Fields.insert (h : Fields n fs) (key : String) (hv : Canonical n v) : Fields n (insertField key v fs) := by
  refine ⟨ascending_insertField h.ascending, fun f hf => ?_⟩
  rcases mem_insertField hf with rfl | hf
  · exact hv
  · exact h.values f hf

def Container.Canonical (n : Nat) : Container → Prop
  | .array items => ∀ v ∈ items, Json.Canonical n v
  | .object fs | .field fs _ => Fields n fs

/-- Containers that are open, what they hold being in order; a value to be put into the innermost may be `n` deep. -/
inductive Open (limit : Nat) : Nat → List Container → Prop
  | nil : Open limit limit []
  | cons {n : Nat} {c : Container} {outer : List Container} (ho : Open limit (n + 1) outer) (hc : c.Canonical n) :
      Open limit n (c :: outer)

theorem Open.length (h : Open limit n outer) : n + outer.length = limit := by
  induction h with
  | nil => rfl
  | cons _ _ ih =>
      rw [List.length_cons]
      omega

def State.Canonical (limit : Nat) : State → Prop
  | .value outer => ∃ n, Open limit n outer
  | .firstItem outer | .firstKey outer => ∃ n, Open limit (n + 1) outer
  | .key fs outer | .colon fs _ outer => ∃ n, Open limit (n + 1) outer ∧ Fields n fs
  | .next inner outer => ∃ n, Open limit (n + 1) outer ∧ inner.Canonical n
  | .done v => Json.Canonical limit v

theorem canonical_deliver (ho : Open limit n outer) (hv : Canonical n v) (h : deliver v outer = some s) :
    s.Canonical limit := by
  cases ho with
  | nil =>
      obtain rfl := Option.some.inj h
      exact hv
  | @cons _ c outer ho hc =>
      cases c with
      | array items =>
          obtain rfl := Option.some.inj h
          exact ⟨n, ho, List.forall_mem_cons.mpr ⟨hv, hc⟩⟩
      | object fs => cases h
      | field fs key =>
          obtain rfl := Option.some.inj h
          exact ⟨n, ho, hc.insert key hv⟩

theorem Open.exists_room (ho : Open limit n outer) (h : outer.length < limit) : ∃ k, Open limit (k + 1) outer := by
  have hl := ho.length
  obtain ⟨k, rfl⟩ : ∃ k, n = k + 1 := ⟨n - 1, by omega⟩
  exact ⟨k, ho⟩

theorem canonical_begin {t : Token} (ho : Open limit n outer) (ht : t.Canonical) (h : begin limit outer t = some s) :
    s.Canonical limit := by
  unfold begin at h
  split at h
  · exact canonical_deliver ho (ht n) h
  · split at h
    · next hl =>
        obtain rfl := Option.some.inj h
        exact ho.exists_room hl
    · cases h
  · split at h
    · next hl =>
        obtain rfl := Option.some.inj h
        exact ho.exists_room hl
    · cases h
  · cases h

theorem canonical_step {t : Token} (hs : s.Canonical limit) (ht : t.Canonical) (h : step limit s t = some s') :
    s'.Canonical limit := by
  unfold step at h
  split at h
  · obtain ⟨n, ho⟩ := hs
    exact canonical_begin ho ht h
  · obtain ⟨n, ho⟩ := hs
    have hv : Json.Canonical (n + 1) (.arr []) := .arr nofun
    exact canonical_deliver ho hv h
  · obtain ⟨n, ho⟩ := hs
    have hc : (Container.array []).Canonical n := nofun
    exact canonical_begin (.cons ho hc) ht h
  · obtain ⟨n, ho⟩ := hs
    have hv : Json.Canonical (n + 1) (.obj []) := .obj .nil nofun
    exact canonical_deliver ho hv h
  · obtain ⟨n, ho⟩ := hs
    obtain rfl := Option.some.inj h
    exact ⟨n, ho, .nil⟩
  · obtain rfl := Option.some.inj h
    exact hs
  · obtain ⟨n, ho, hf⟩ := hs
    obtain rfl := Option.some.inj h
    exact ⟨n, .cons ho hf⟩
  · obtain ⟨n, ho, hi⟩ := hs
    obtain rfl := Option.some.inj h
    exact ⟨n, .cons ho hi⟩
  · obtain ⟨n, ho, hi⟩ := hs
    refine canonical_deliver ho (.arr fun v hv => ?_) h
    exact hi v (List.mem_reverse.mp hv)
  · obtain ⟨n, ho, hf⟩ := hs
    obtain rfl := Option.some.inj h
    exact ⟨n, ho, hf⟩
  · obtain ⟨n, ho, hf⟩ := hs
    exact canonical_deliver ho (.obj hf.ascending hf.values) h
  · cases h

end Reader

theorem canonical_of_parseTo {limit : Nat} {text : String} (h : parseTo limit text = some v) : Canonical limit v := by
  obtain ⟨ts, hts, h⟩ := Option.bind_eq_some_iff.mp h
  obtain ⟨s, hs, h⟩ := Option.bind_eq_some_iff.mp h
  have hstart : (Reader.State.value []).Canonical limit := ⟨limit, .nil⟩
  have hend := Option.foldlM_keeps (fun t ht _ _ hs h => Reader.canonical_step hs (Token.canonical_scan hts t ht) h)
    hstart hs
  split at h
  · obtain rfl := Option.some.inj h
    exact hend
  · cases h

end Layering.Json
