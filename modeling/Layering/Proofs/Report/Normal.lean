import Layering.Proofs.Json.Place
import Layering.Report.Normal

namespace Layering.Json

def Step.IsTime (s : Step) : Prop := s = .field "started_at" ∨ s = .field "finished_at"

instance (s : Step) : Decidable s.IsTime := inferInstanceAs (Decidable (_ ∨ _))

def toolVersion : List Step := [.field "tool", .field "version"]

def IsReport (v : Json) : Prop :=
  (∀ key ∈ ["schema", "tool", "verdict", "findings"], v.at? [.field key] ≠ none) ∧ v.at? toolVersion ≠ none

instance (v : Json) : Decidable v.IsReport := inferInstanceAs (Decidable (_ ∧ _))

/-- What stands at the place is marked, or in what is marked: under the key of a time, or in the version of a report. -/
def Hidden (v : Json) (place : List Step) : Prop := (∃ s ∈ place, s.IsTime) ∨ v.IsReport ∧ toolVersion <+: place

instance (v : Json) (place : List Step) : Decidable (v.Hidden place) := inferInstanceAs (Decidable (_ ∨ _))

/-- Nothing but what is under the keys of times tells the two values apart. -/
def SameButTimes (v w : Json) : Prop :=
  ∀ place, (∀ s ∈ place, ¬ s.IsTime) → (v.at? place).map shell = (w.at? place).map shell

variable {v w u : Json} {s : Step} {place : List Step} {key : String} {fs : List (String × Json)}

theorem markTimesItems_eq_map (vs : List Json) : markTimesItems vs = vs.map markTimes := by
  induction vs with
  | nil => rfl
  | cons v vs ih => rw [markTimesItems, ih, List.map_cons]

theorem markTimesFields_eq_map (fs : List (String × Json)) :
    markTimesFields fs = fs.map fun f => (f.1, if isTimeKey f.1 then timeMark else markTimes f.2) := by
  induction fs with
  | nil => rfl
  | cons f fs ih => rw [markTimesFields, ih, List.map_cons]

theorem isTimeKey_iff : isTimeKey key ↔ (Step.field key).IsTime := by
  simp [isTimeKey, Step.IsTime]

theorem lookup_markTimesFields (fs : List (String × Json)) (key : String) :
    (markTimesFields fs).lookup key = (fs.lookup key).map fun v => if isTimeKey key then timeMark else markTimes v := by
  rw [markTimesFields_eq_map, List.lookup_mapValues fun key v => if isTimeKey key then timeMark else markTimes v]

theorem shell_markTimes (v : Json) : (markTimes v).shell = v.shell := by
  cases v with
  | arr items =>
      simp only [markTimes, markTimesItems_eq_map, shell, List.map_map]
      rfl
  | obj fields => simp [markTimes, markTimesFields_eq_map, shell]
  | null | bool | int | float | str => simp [markTimes]

theorem markTimes_eq_str {text : String} : markTimes v = .str text ↔ v = .str text := by
  cases v with
  | arr | obj => simp [markTimes]
  | null | bool | int | float | str => simp [markTimes]

theorem step?_markTimes (v : Json) (hs : ¬ s.IsTime) : (markTimes v).step? s = (v.step? s).map markTimes := by
  cases v with
  | arr items => cases s <;> simp [markTimes, markTimesItems_eq_map, step?]
  | obj fields =>
      cases s with
      | item i => simp [markTimes, step?]
      | field key =>
          rw [← isTimeKey_iff] at hs
          simp [markTimes, step?, lookup_markTimesFields, hs]
  | null | bool | int | float | str => cases s <;> simp [markTimes, step?]

theorem step?_markTimes_time (v : Json) (hs : s.IsTime) : (markTimes v).step? s = (v.step? s).map fun _ => timeMark := by
  cases v with
  | arr items => rcases hs with rfl | rfl <;> simp [markTimes, step?]
  | obj fields => rcases hs with rfl | rfl <;> simp [markTimes, step?, lookup_markTimesFields, isTimeKey]
  | null | bool | int | float | str => rcases hs with rfl | rfl <;> simp [markTimes, step?]

theorem replace_eq_map (key : String) (value : Json) (fs : List (String × Json)) :
    replace key value fs = fs.map fun f => (f.1, if f.1 = key then value else f.2) := by
  refine List.map_congr_left fun f _ => ?_
  by_cases hf : f.1 = key <;> simp [hf]

theorem lookup_replace (key : String) (value : Json) (fs : List (String × Json)) (other : String) :
    (replace key value fs).lookup other = (fs.lookup other).map fun v => if other = key then value else v := by
  rw [replace_eq_map, List.lookup_mapValues fun other v => if other = key then value else v]

theorem shell_replace (key : String) (value : Json) (fs : List (String × Json)) :
    (Json.obj (replace key value fs)).shell = (Json.obj fs).shell := by
  simp [replace_eq_map, shell]

theorem isEnvelope_iff : isEnvelope fs ↔
    ∀ key ∈ ["schema", "tool", "verdict", "findings"], (Json.obj fs).at? [.field key] ≠ none := by
  simp [isEnvelope, at?, step?, Option.isSome_iff_ne_none]

theorem step?_replace_of_ne {value : Json} (hs : s ≠ .field key) :
    (Json.obj (replace key value fs)).step? s = (Json.obj fs).step? s := by
  cases s with
  | item i => rfl
  | field other =>
      have hother : other ≠ key := fun he => hs (congrArg Step.field he)
      simp [step?, lookup_replace, hother]

theorem at?_replace {value : Json}
    (h : ∀ more old, place = .field key :: more → fs.lookup key = some old →
      (value.at? more).map shell = (old.at? more).map shell) :
    ((Json.obj (replace key value fs)).at? place).map shell = ((Json.obj fs).at? place).map shell := by
  cases place with
  | nil => exact congrArg some (shell_replace ..)
  | cons s place =>
      rw [at?_cons, at?_cons]
      by_cases hs : s = .field key
      · subst hs
        rw [step?, step?, lookup_replace]
        cases hold : fs.lookup key with
        | none => rfl
        | some old => simpa using h place old rfl hold
      · rw [step?_replace_of_ne hs]

theorem at?_tool {tool : List (String × Json)} (ht : fs.lookup "tool" = some (.obj tool)) (place : List Step) :
    (Json.obj fs).at? (.field "tool" :: place) = (Json.obj tool).at? place := by
  rw [at?_cons, step?, ht, Option.bind_some]

theorem exists_tool (h : (Json.obj fs).at? toolVersion ≠ none) : ∃ tool, fs.lookup "tool" = some (.obj tool) := by
  rw [toolVersion, at?_cons, step?] at h
  cases ht : fs.lookup "tool" with
  | none => simp [ht] at h
  | some v =>
      cases v with
      | obj tool => exact ⟨tool, rfl⟩
      | null | bool | int | float | str | arr => simp [ht, at?, step?] at h

/-- Either there is a tool in what has the keys of a report, or there is nothing to mark. -/
theorem markVersion_cases (v : Json) :
    (∃ fields tool, v = .obj fields ∧ isEnvelope fields ∧ fields.lookup "tool" = some (.obj tool) ∧
      markVersion v = .obj (replace "tool" (.obj (replace "version" versionMark tool)) fields)) ∨
    ¬ v.IsReport ∧ markVersion v = v := by
  cases v with
  | obj fields =>
      rw [markVersion]
      split
      · next tool he ht => exact .inl ⟨fields, tool, rfl, he, ht, rfl⟩
      · next hno =>
          refine .inr ⟨fun h => ?_, rfl⟩
          obtain ⟨tool, ht⟩ := exists_tool h.2
          exact hno tool (isEnvelope_iff.mpr h.1) ht
  | null | bool | int | float | str | arr => exact .inr ⟨fun h => absurd rfl h.2, rfl⟩

theorem lookup_tool_replace {tool : List (String × Json)} (ht : fs.lookup "tool" = some (.obj tool)) (value : Json) :
    (replace "tool" value fs).lookup "tool" = some value := by
  simp [lookup_replace, ht]

theorem at?_markVersion (h : ¬ (v.IsReport ∧ toolVersion <+: place)) :
    ((markVersion v).at? place).map shell = (v.at? place).map shell := by
  rcases markVersion_cases v with ⟨fields, tool, rfl, he, ht, hv⟩ | ⟨-, hv⟩
  · rw [hv]
    refine at?_replace fun more old hplace hold => ?_
    obtain rfl := Option.some.inj (ht.symm.trans hold)
    refine at?_replace fun rest version hmore hversion => ?_
    subst hplace hmore
    have hreport : (Json.obj fields).IsReport := by
      refine ⟨isEnvelope_iff.mp he, ?_⟩
      rw [toolVersion, at?_tool ht]
      simp [at?, step?, hversion]
    exact absurd ⟨hreport, rest, rfl⟩ h
  · rw [hv]

theorem at?_toolVersion_markVersion (v : Json) :
    v.IsReport ∧ (markVersion v).at? toolVersion = some versionMark ∨
    ¬ v.IsReport ∧ (markVersion v).at? toolVersion = v.at? toolVersion := by
  rcases markVersion_cases v with ⟨fields, tool, rfl, he, ht, hv⟩ | ⟨hno, hv⟩
  · have hold : (Json.obj fields).at? toolVersion = tool.lookup "version" := by
      rw [toolVersion, at?_tool ht]
      simp [at?, step?]
    have hnew : (markVersion (.obj fields)).at? toolVersion = (tool.lookup "version").map fun _ => versionMark := by
      rw [hv, toolVersion, at?_tool (lookup_tool_replace ht _)]
      simp [at?, step?, lookup_replace]
    cases hversion : tool.lookup "version" with
    | none => exact .inr ⟨fun h => h.2 (hold.trans hversion), by rw [hnew, hold, hversion, Option.map_none]⟩
    | some u =>
        refine .inl ⟨⟨isEnvelope_iff.mp he, ?_⟩, by rw [hnew, hversion, Option.map_some]⟩
        rw [hold, hversion]
        nofun
  · exact .inr ⟨hno, by rw [hv]⟩

theorem at?_markTimes (v : Json) (h : ∀ s ∈ place, ¬ s.IsTime) : (markTimes v).at? place = (v.at? place).map markTimes := by
  induction place generalizing v with
  | nil => rfl
  | cons s place ih =>
      obtain ⟨hs, hplace⟩ := List.forall_mem_cons.mp h
      rw [at?_cons, at?_cons, step?_markTimes v hs]
      cases v.step? s with
      | none => rfl
      | some u => exact ih u hplace

theorem eq_timeMark_of_at? (hs : s.IsTime) (h : (markTimes v).at? (place ++ [s]) = some u) : u = timeMark := by
  induction place generalizing v with
  | nil =>
      rw [List.nil_append, at?_cons, step?_markTimes_time v hs] at h
      cases hv : v.step? s with
      | none => simp [hv] at h
      | some x =>
          rw [hv] at h
          exact (Option.some.inj h).symm
  | cons s' place ih =>
      rw [List.cons_append, at?_cons] at h
      obtain ⟨x, hx, hu⟩ := Option.bind_eq_some_iff.mp h
      by_cases hs' : s'.IsTime
      · -- Nothing is in a mark.
        rw [step?_markTimes_time v hs'] at hx
        obtain ⟨-, -, rfl⟩ := Option.map_eq_some_iff.mp hx
        cases place <;> simp [at?, step?, timeMark] at hu
      · rw [step?_markTimes v hs'] at hx
        obtain ⟨y, -, rfl⟩ := Option.map_eq_some_iff.mp hx
        exact ih hu

theorem at?_normalize (h : ¬ v.Hidden place) : ((normalize v).at? place).map shell = (v.at? place).map shell := by
  obtain ⟨htime, hversion⟩ := not_or.mp h
  rw [normalize, at?_markTimes _ fun s hs ht => htime ⟨s, hs, ht⟩, Option.map_map, ← at?_markVersion hversion]
  exact Option.map_congr fun u _ => shell_markTimes u

theorem keys_markTimes (v : Json) : (markTimes v).keys = v.keys := by
  rw [← keys_shell, shell_markTimes, keys_shell]

theorem markTimes_congr (hk : v.keys.Nodup) (hshell : v.shell = w.shell)
    (hsteps : ∀ s x y, ¬ s.IsTime → v.step? s = some x → w.step? s = some y → markTimes x = markTimes y) :
    markTimes v = markTimes w := by
  refine eq_of_steps (by rwa [keys_markTimes]) (by rw [shell_markTimes, shell_markTimes, hshell]) fun s => ?_
  rcases step?_of_shell hshell s with ⟨hv, hw⟩ | ⟨x, y, hv, hw⟩
  · by_cases hs : s.IsTime
    · rw [step?_markTimes_time v hs, step?_markTimes_time w hs, hv, hw]
    · rw [step?_markTimes v hs, step?_markTimes w hs, hv, hw]
  · by_cases hs : s.IsTime
    · rw [step?_markTimes_time v hs, step?_markTimes_time w hs, hv, hw, Option.map_some, Option.map_some]
    · rw [step?_markTimes v hs, step?_markTimes w hs, hv, hw, Option.map_some, Option.map_some, hsteps s x y hs hv hw]

theorem SameButTimes.shell_eq (h : SameButTimes v w) : v.shell = w.shell :=
  Option.some.inj (h [] (List.forall_mem_nil _))

theorem SameButTimes.step {x y : Json} (h : SameButTimes v w) (hs : ¬ s.IsTime) (hx : v.step? s = some x)
    (hy : w.step? s = some y) : SameButTimes x y := by
  intro place hplace
  have hat := h (s :: place) (List.forall_mem_cons.mpr ⟨hs, hplace⟩)
  rwa [at?_cons, at?_cons, hx, hy] at hat

theorem Keyed.markTimes_eq (hv : v.Keyed) (h : SameButTimes v w) : markTimes v = markTimes w := by
  induction hv generalizing w with
  | null | bool | int | float | str =>
      refine markTimes_congr List.nodup_nil h.shell_eq fun s x y _ hx => ?_
      cases s <;> cases hx
  | @arr vs _ ih =>
      refine markTimes_congr List.nodup_nil h.shell_eq fun s x y hs hx hy => ?_
      cases s with
      | item i => exact ih x (List.mem_of_getElem? hx) (h.step hs hx hy)
      | field => cases hx
  | @obj fs hk _ ih =>
      refine markTimes_congr hk h.shell_eq fun s x y hs hx hy => ?_
      cases s with
      | item => cases hx
      | field key => exact ih (key, x) (List.mem_of_lookup hx) (h.step hs hx hy)

theorem Keyed.replace {value : Json} (h : (Json.obj fs).Keyed) (hvalue : value.Keyed) :
    (Json.obj (replace key value fs)).Keyed := by
  obtain ⟨hk, h⟩ := keyed_obj_iff.mp h
  refine .obj (by simpa [replace_eq_map, Function.comp_def] using hk) fun f hf => ?_
  rw [replace_eq_map] at hf
  obtain ⟨e, he, rfl⟩ := List.mem_map.mp hf
  by_cases hkey : e.1 = key
  · simpa [hkey] using hvalue
  · simpa [hkey] using h e he

theorem Keyed.markVersion (h : v.Keyed) : (markVersion v).Keyed := by
  rcases markVersion_cases v with ⟨fields, tool, rfl, -, ht, hv⟩ | ⟨-, hv⟩
  · rw [hv]
    exact h.replace ((h.lookup ht).replace (.str _))
  · rwa [hv]

theorem not_hidden_root (v : Json) : ¬ v.Hidden [] := by
  simp [Hidden, toolVersion]

theorem not_hidden_tool (v : Json) : ¬ v.Hidden [.field "tool"] := by
  simp [Hidden, toolVersion, Step.IsTime]

theorem isReport_congr (hroot : v.shell = w.shell)
    (htool : (v.at? [.field "tool"]).map shell = (w.at? [.field "tool"]).map shell) : v.IsReport ↔ w.IsReport := by
  have hstep : ∀ {v w : Json}, v.shell = w.shell → ∀ s, v.at? [s] ≠ none ↔ w.at? [s] ≠ none := by
    intro v w h s
    rw [at?_singleton, at?_singleton]
    rcases step?_of_shell h s with ⟨hv, hw⟩ | ⟨x, y, hv, hw⟩ <;> simp [hv, hw]
  refine and_congr (forall₂_congr fun key _ => hstep hroot _) ?_
  have happend : ∀ u : Json, u.at? toolVersion = (u.at? [.field "tool"]).bind (·.at? [.field "version"]) :=
    fun u => at?_append u [_] [_]
  rw [happend, happend]
  cases hv : v.at? [.field "tool"] with
  | none =>
      rw [hv, Option.map_none] at htool
      rw [Option.map_eq_none_iff.mp htool.symm]
  | some x =>
      rw [hv, Option.map_some] at htool
      obtain ⟨y, hw, hy⟩ := Option.map_eq_some_iff.mp htool.symm
      rw [hw, Option.bind_some, Option.bind_some]
      exact hstep hy.symm _

theorem Keyed.normalize_eq (hv : v.Keyed)
    (h : ∀ place, ¬ v.Hidden place → (v.at? place).map shell = (w.at? place).map shell) : normalize v = normalize w := by
  have hreport : v.IsReport ↔ w.IsReport :=
    isReport_congr (Option.some.inj (h [] v.not_hidden_root)) (h _ v.not_hidden_tool)
  refine hv.markVersion.markTimes_eq fun place htime => ?_
  by_cases hversion : v.IsReport ∧ toolVersion <+: place
  · obtain ⟨hr, more, rfl⟩ := hversion
    obtain ⟨-, hvmark⟩ := (at?_toolVersion_markVersion v).resolve_right fun hno => hno.1 hr
    obtain ⟨-, hwmark⟩ := (at?_toolVersion_markVersion w).resolve_right fun hno => hno.1 (hreport.mp hr)
    rw [at?_append, at?_append, hvmark, hwmark]
  · have hplace : ¬ v.Hidden place := by
      rintro (⟨s, hs, ht⟩ | hversion')
      · exact htime s hs ht
      · exact hversion hversion'
    rw [at?_markVersion hversion, at?_markVersion (by rwa [← hreport]), h place hplace]

theorem normalize_eq_imp (h : normalize v = normalize w) (hplace : ¬ v.Hidden place) :
    (v.at? place).map shell = (w.at? place).map shell := by
  have hframe : ∀ {place}, ¬ v.Hidden place → ¬ w.Hidden place → (v.at? place).map shell = (w.at? place).map shell := by
    intro place hv hw
    rw [← at?_normalize hv, h, at?_normalize hw]
  have hreport : v.IsReport ↔ w.IsReport :=
    isReport_congr (Option.some.inj (hframe v.not_hidden_root w.not_hidden_root))
      (hframe v.not_hidden_tool w.not_hidden_tool)
  exact hframe hplace (by rwa [Hidden, ← hreport])

/-- In the normal form of a value all times are marked, and the version of a report, but no other version unless it was
the mark before; nothing else in it differs from the value. Where objects have each key once, as in whatever is read, a
normal form is its own, and two values have the same just if they differ nowhere but in what is marked. -/
theorem normalize_marks (v : Json) :
    (∀ place s u, s.IsTime → (normalize v).at? (place ++ [s]) = some u → u = timeMark) ∧
    ((normalize v).at? toolVersion = some versionMark ↔ v.IsReport ∨ v.at? toolVersion = some versionMark) ∧
    (∀ place, ¬ v.Hidden place → ((normalize v).at? place).map shell = (v.at? place).map shell) ∧
    (v.Keyed → normalize (normalize v) = normalize v ∧ ∀ w, normalize v = normalize w ↔
      ∀ place, ¬ v.Hidden place → (v.at? place).map shell = (w.at? place).map shell) := by
  refine ⟨fun place s u hs h => eq_timeMark_of_at? hs h, ?_, fun place h => at?_normalize h, fun hv => ⟨?_, fun w => ?_⟩⟩
  · have htimeless : ∀ s ∈ toolVersion, ¬ s.IsTime := by simp [toolVersion, Step.IsTime]
    rw [normalize, at?_markTimes _ htimeless]
    rcases at?_toolVersion_markVersion v with ⟨hr, hmark⟩ | ⟨hr, hsame⟩
    · rw [hmark]
      exact iff_of_true rfl (.inl hr)
    · rw [hsame, Option.map_eq_some_iff, or_iff_right hr]
      simp [versionMark, markTimes_eq_str]
  · exact (hv.normalize_eq fun place h => (at?_normalize h).symm).symm
  · exact ⟨fun h place hplace => normalize_eq_imp h hplace, hv.normalize_eq⟩

theorem normalize_marks_payload :
    let report (version payload time : String) : Json :=
      .obj [("findings", .arr [.obj [("started_at", .str time), ("tool", .obj [("version", .str payload)])]]),
        ("schema", .str "swcv.report.v1"), ("started_at", .str time),
        ("tool", .obj [("name", .str "swcv"), ("version", .str version)]), ("verdict", .str "pass")]
    let v := report "0.1.0" "4.16" "2025-01-01T00:00:00Z"
    let later := report "0.2.0" "4.16" "2026-01-01T00:00:00Z"
    let other := report "0.1.0" "4.17" "2025-01-01T00:00:00Z"
    let finding : List Step := [.field "findings", .item 0]
    let payload := finding ++ toolVersion
    v.Keyed ∧ Step.IsTime (.field "started_at") ∧ (normalize v).at? (finding ++ [.field "started_at"]) = some timeMark ∧
      v.IsReport ∧ (normalize v).at? toolVersion = some versionMark ∧ ¬ v.Hidden payload ∧
      ((normalize v).at? payload).map shell = some (.str "4.16") ∧ normalize (normalize v) = normalize v ∧
      normalize v = normalize later ∧ normalize v ≠ normalize other := by
  intro report v later other finding payload
  obtain ⟨htime, hversion, hframe, hkeyed⟩ := normalize_marks v
  have hv : v.Keyed := by simp [v, report]
  have hstarted : Step.IsTime (.field "started_at") := .inl rfl
  have hreport : v.IsReport := by decide
  have hpayload : ¬ v.Hidden payload := by decide
  obtain ⟨hagain, heq⟩ := hkeyed hv
  have hmark : (normalize v).at? (finding ++ [.field "started_at"]) = some timeMark := by
    obtain ⟨u, hu⟩ : ∃ u, (normalize v).at? (finding ++ [.field "started_at"]) = some u := ⟨_, rfl⟩
    rw [hu, htime finding _ u hstarted hu]
  have hother : normalize v ≠ normalize other := by
    intro h
    have hshell : some (Json.str "4.16") = some (.str "4.17") := (heq other).mp h payload hpayload
    simp at hshell
  exact ⟨hv, hstarted, hmark, hreport, hversion.mpr (.inl hreport), hpayload, hframe payload hpayload, hagain, rfl, hother⟩

end Layering.Json
