import Layering.Command.Line
import Layering.Proofs.Loading

theorem String.fromUTF8?_toUTF8 (text : String) : String.fromUTF8? text.toUTF8 = some text := by
  have hv : text.toUTF8.IsValidUTF8 := text.isValidUTF8
  rw [String.fromUTF8?, dif_pos hv]
  rfl

namespace Layering

namespace Workspace

variable {w w' : Workspace} {p : Path}

def HasReport (w : Workspace) (p : Path) (r : Report) : Prop :=
  ∃ content text, w.find p = .ok (.file content) ∧ String.fromUTF8? content = some text ∧ Report.read text = .ok r

theorem hasReport_of_find {r : Report} (hs : r.schema = reportSchema) (hf : ∀ f ∈ r.findings, f.Plain)
    (h : w.find p = .ok (.file r.write.toUTF8)) : w.HasReport p r :=
  ⟨_, _, h, String.fromUTF8?_toUTF8 _, Report.read_write hs hf⟩

end Workspace

namespace Verdict

variable {v : Verdict}

end Verdict

namespace CheckCommand

variable (c : CheckCommand)

variable {c} {w : Workspace} {r : Resolved} {m : Model} {t : RankTable}

variable {o : Outcome} {w' : Workspace}

theorem plain_ofRuntimeError (now : Instant) (archive message : String) :
    ∀ f ∈ (Report.ofRuntimeError now archive message).findings, f.Plain := by
  intro f hf
  obtain rfl := List.mem_singleton.mp hf
  exact ⟨.null, by simp [Json.sorted]⟩

end CheckCommand

namespace CommandLine

end CommandLine

end Layering
