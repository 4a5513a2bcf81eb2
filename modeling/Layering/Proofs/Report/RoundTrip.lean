import Layering.Proofs.Json.Record
import Layering.Proofs.Report.Instant

namespace Layering

/-- What a finding adds is no deeper than a report can hold, and its keys are in order. -/
structure Finding.Plain (f : Finding) : Prop where
  readable : f.data.Readable (Json.nestingLimit - 3)
  sorted : f.data.sorted = f.data

theorem Severity.ofJson?_text (s : Severity) : Severity.ofJson? (.str s.text) = some s := by
  cases s <;> rfl

theorem Verdict.ofJson?_text (v : Verdict) : Verdict.ofJson? (.str v.text) = some v := by
  cases v <;> rfl

theorem Finding.Plain.ofJson?_toJson {f : Finding} (h : f.Plain) : Finding.ofJson? f.toJson.sorted = some f := by
  rw [Finding.ofJson?, Finding.toJson, Json.parts_record (by decide) rfl, Option.bind_eq_bind, Option.bind_some]
  simp [Finding.ofParts?, Severity.ofJson?_text, Json.getD_present, h.sorted]

theorem Summary.ofJson?_toJson (d : Summary) : Summary.ofJson? d.toJson.sorted = some d := by
  rw [Summary.ofJson?, Summary.toJson, Json.parts_record (by decide) rfl, Option.bind_eq_bind, Option.bind_some]
  simp [Summary.ofParts?, Json.asGroups?_order]

theorem Tool.ofJson?_toJson (t : Tool) : Tool.ofJson? t.toJson.sorted = some t := by
  rw [Tool.ofJson?, Tool.toJson, Json.parts_record (by decide) rfl, Option.bind_eq_bind, Option.bind_some]
  simp [Tool.ofParts?]

theorem Finding.Plain.readable_toJson {f : Finding} (h : f.Plain) : f.toJson.Readable (Json.nestingLimit - 2) := by
  refine Json.readable_record _ fun v hv => ?_
  simp only [List.mem_cons, Option.some.injEq, List.not_mem_nil, or_false] at hv
  rcases hv with rfl | rfl | rfl | rfl | hv | hv | hv
  · exact .str _
  · exact .str _
  · exact .str _
  · exact .str _
  · exact Json.readable_of_mem_map_str hv
  · exact Json.readable_of_mem_map_str hv
  · exact Json.eq_of_mem_present hv ▸ h.readable

theorem Summary.readable_toJson (d : Summary) : d.toJson.Readable 3 := by
  refine Json.readable_record _ fun v hv => ?_
  simp only [List.mem_cons, Option.some.injEq, List.not_mem_nil, or_false] at hv
  rcases hv with rfl | rfl | rfl | rfl | rfl | rfl | rfl | hv | rfl | rfl | hv
  · exact .str _
  · exact .str _
  · exact Json.readable_count _
  · exact Json.readable_count _
  · exact Json.readable_count _
  · exact Json.readable_count _
  · exact Json.readable_count _
  · exact Json.readable_of_mem_order hv
  · exact Json.readable_count _
  · exact Json.readable_count _
  · exact Json.readable_of_mem_map_str hv

theorem Tool.readable_toJson (t : Tool) : t.toJson.Readable 1 := by
  refine Json.readable_record _ fun v hv => ?_
  simp only [List.mem_cons, Option.some.injEq, List.not_mem_nil, or_false] at hv
  rcases hv with rfl | rfl <;> exact .str _

namespace Report

variable {r : Report}

theorem readable_toJson (h : ∀ f ∈ r.findings, f.Plain) : r.toJson.Readable Json.nestingLimit := by
  have hf : (Json.arr (r.findings.map Finding.toJson)).Readable (Json.nestingLimit - 1) := by
    refine .arr fun v hv => ?_
    obtain ⟨f, hf, rfl⟩ := List.mem_map.mp hv
    exact (h f hf).readable_toJson
  refine Json.readable_record _ fun v hv => ?_
  simp only [List.mem_cons, Option.some.injEq, List.not_mem_nil, or_false] at hv
  rcases hv with rfl | rfl | rfl | rfl | rfl | rfl | rfl
  · exact .str _
  · exact r.tool.readable_toJson.mono (by decide)
  · exact .str _
  · exact .str _
  · exact .str _
  · exact hf
  · exact r.data.readable_toJson.mono (by decide)

theorem mapM_ofJson? {fs : List Finding} (h : ∀ f ∈ fs, f.Plain) :
    ((fs.map Finding.toJson).map Json.sorted).mapM Finding.ofJson? = some fs := by
  induction fs with
  | nil => rfl
  | cons f fs ih =>
      rw [List.map_cons, List.map_cons, List.mapM_cons, (h f (by simp)).ofJson?_toJson,
        ih fun g hg => h g (List.mem_cons_of_mem f hg)]
      rfl

theorem ofJson?_toJson (h : ∀ f ∈ r.findings, f.Plain) : Report.ofJson? r.toJson.sorted = some r := by
  have hi : (Json.arr (r.findings.map Finding.toJson)).sorted = .arr ((r.findings.map Finding.toJson).map Json.sorted) := by
    rw [Json.sorted, Json.sortedItems_eq_map]
  have hf := mapM_ofJson? h
  rw [Report.ofJson?, Report.toJson, Json.parts_record (by decide) rfl, Option.bind_eq_bind, Option.bind_some]
  simp only [List.map_cons, List.map_nil, Option.map_some, hi, Report.ofParts?, Json.asItems?, Json.asInstant?]
  simp only [Json.sorted_str, Json.asText?_str, Option.bind_eq_bind, Option.bind_some, Instant.parse_text,
    Tool.ofJson?_toJson, Summary.ofJson?_toJson, Verdict.ofJson?_text, hf]
  rfl

theorem get?_schema (r : Report) : r.toJson.sorted.get? "schema" = some (.str r.schema) := by
  have hn : "schema" ∉ keys.tail := by decide
  rw [toJson, Json.sorted, Json.get?, Json.lookup_sortedFields]
  exact congrArg (fun v => (Option.map Json.sorted v).or none) (Json.lookup_record_head hn _ _)

theorem read_write (hs : r.schema = reportSchema) (h : ∀ f ∈ r.findings, f.Plain) : Report.read r.write = .ok r := by
  have hp := Json.parse_pretty (readable_toJson h)
  have ho := ofJson?_toJson h
  simp [read, write, hp, get?_schema, Json.asString?, hs, ho]

end Report

end Layering
