import Layering.Command.Basic
import Layering.Proofs.Disk.Tree

namespace Layering.Workspace

open Disk

/-- A directory to put files into: the one that one is in, or one that is there. -/
def Open (w : Workspace) (p : Path) : Prop := p.isEmpty ∨ w.find p = .ok .directory

abbrev perform {α : Type} (w : Workspace) (x : ExceptT Failure (StateM Workspace) α) : Except Failure α × Workspace :=
  x.run.run w

/-- The text is saved in a file of this name, with the directories that it is in. -/
def Saves (w : Workspace) (p : Path) (text : String) (w' : Workspace) : Prop :=
  ∃ w₁, w.perform (makeParent p) = (.ok (), w₁) ∧ w₁.write p text.toUTF8 = .ok w'

variable {w w' w'' : Workspace} {p : Path} {text : String}

/-- How making a directory ends: nothing is lost, after success it is there, and where it was there is success. -/
structure Makes (p : Path) (w : Workspace) (r : Except OsError Unit) (w' : Workspace) : Prop where
  grows : Grows w w'
  opened : r = .ok () → w'.Open p
  kept : w.Open p → r = .ok ()

section Run

variable {α β : Type} {x : StateM Workspace α} {f : α → StateM Workspace β} {a : α}

theorem run_bind (h : x.run w = (a, w')) : (x >>= f).run w = (f a).run w' := by
  rw [StateT.run_bind, h]
  rfl

theorem run_change_ok {f : Workspace → Except OsError Workspace} (h : f w = .ok w') :
    (change f).run w = (.ok (), w') := by
  have hg : (get : StateM Workspace Workspace).run w = (w, w) := rfl
  rw [change, run_bind hg, h]
  rfl

theorem run_change_error {f : Workspace → Except OsError Workspace} {e : OsError} (h : f w = .error e) :
    (change f).run w = (.error e, w) := by
  have hg : (get : StateM Workspace Workspace).run w = (w, w) := rfl
  rw [change, run_bind hg, h]
  rfl

section Failing

variable {y : ExceptT Failure (StateM Workspace) α} {g : α → ExceptT Failure (StateM Workspace) β} {e : Failure}

theorem perform_bind_ok (h : w.perform y = (.ok a, w')) : w.perform (y >>= g) = w'.perform (g a) := by
  change (ExceptT.bindCont g =<< y.run).run w = _
  exact run_bind h

theorem perform_bind_error (h : w.perform y = (.error e, w')) : w.perform (y >>= g) = (.error e, w') := by
  change (ExceptT.bindCont g =<< y.run).run w = _
  exact run_bind h

theorem perform_during (activity : String) {r : Except Failure α} (h : w.perform y = (r, w')) :
    w.perform (during activity y) = (doing activity r, w') := by
  change (doing activity <$> y.run).run w = _
  rw [StateT.run_map, show y.run.run w = (r, w') from h]
  rfl

theorem perform_orOsError {x : StateM Workspace (Except OsError α)} {r : Except OsError α} (h : x.run w = (r, w')) :
    w.perform (orOsError x) = (r.mapError fun e => ⟨[], .read (.os e)⟩, w') := by
  change (Except.mapError _ <$> x).run w = _
  rw [StateT.run_map, h]
  rfl

theorem perform_orReadError {x : StateM Workspace (Except ReadError α)} {r : Except ReadError α}
    (h : x.run w = (r, w')) : w.perform (orReadError x) = (r.mapError fun e => ⟨[], .read e⟩, w') := by
  change (Except.mapError _ <$> x).run w = _
  rw [StateT.run_map, h]
  rfl

end Failing

end Run

theorem run_isDirectory (p : Path) (w : Workspace) : ∃ b, (Disk.isDirectory p : StateM Workspace Bool).run w = (b, w) ∧
    (b = true ↔ w.find p = .ok .directory) := by
  have hf : (Disk.find p : StateM Workspace _).run w = (w.find p, w) := rfl
  rw [Disk.isDirectory, run_bind hf]
  cases w.find p with
  | error e => exact ⟨false, rfl, by simp⟩
  | ok i =>
      cases i with
      | file c => exact ⟨false, rfl, by simp⟩
      | directory => exact ⟨true, rfl, by simp⟩

variable {r : Except OsError Unit}

theorem ensureDirectory_makes (hp : p.isEmpty = false)
    (h : (ensureDirectory p : StateM Workspace _).run w = (r, w')) : Makes p w r w' := by
  cases hm : w.makeDirectory p with
  | ok w₁ =>
      have hr : (Disk.makeDirectory p : StateM Workspace _).run w = (.ok (), w₁) := run_change_ok hm
      rw [ensureDirectory, run_bind hr] at h
      obtain ⟨rfl, rfl⟩ := Prod.mk.inj h
      exact ⟨.of_makeDirectory hm, fun _ => .inr (find_makeDirectory hm), fun _ => rfl⟩
  | error e =>
      have hr : (Disk.makeDirectory p : StateM Workspace _).run w = (.error e, w) := run_change_error hm
      obtain ⟨b, hb, hd⟩ := run_isDirectory p w
      rw [ensureDirectory, run_bind hr, run_bind hb] at h
      obtain ⟨rfl, rfl⟩ := Prod.mk.inj h
      refine ⟨.refl w, fun ho => ?_, fun ho => ?_⟩
      · cases b with
        | false => cases ho
        | true => exact .inr (hd.mp rfl)
      · have hdir : w.find p = .ok .directory := ho.resolve_left (by simp [hp])
        rw [if_pos (hd.mpr hdir)]

theorem makeFrom_makes (hp : p.isEmpty = false) {above : List Path} (ha : ∀ q ∈ above, q.isEmpty = false)
    (h : (makeFrom p above : StateM Workspace _).run w = (r, w')) : Makes p w r w' := by
  induction above generalizing p w r w' with
  | nil => exact ensureDirectory_makes hp h
  | cons parent above ih =>
      obtain ⟨r₁, w₁, h₁⟩ : ∃ r₁ w₁, (ensureDirectory p : StateM Workspace _).run w = (r₁, w₁) := ⟨_, _, rfl⟩
      have hm := ensureDirectory_makes hp h₁
      rw [makeFrom, run_bind h₁] at h
      by_cases hn : r₁ = .error .notFound
      · subst hn
        have hk : ¬ w.Open p := fun ho => nomatch hm.kept ho
        obtain ⟨r₂, w₂, h₂⟩ : ∃ r₂ w₂, (makeFrom parent above : StateM Workspace _).run w₁ = (r₂, w₂) := ⟨_, _, rfl⟩
        have hm₂ := ih (ha parent (by simp)) (fun q hq => ha q (by simp [hq])) h₂
        rw [run_bind h₂] at h
        cases r₂ with
        | ok u =>
            have hm₃ := ensureDirectory_makes hp h
            exact ⟨(hm.grows.trans hm₂.grows).trans hm₃.grows, hm₃.opened, fun ho => absurd ho hk⟩
        | error e =>
            obtain ⟨rfl, rfl⟩ := Prod.mk.inj h
            exact ⟨hm.grows.trans hm₂.grows, fun ho => (nomatch ho), fun ho => absurd ho hk⟩
      · have hr : (r₁, w₁) = (r, w') := by
          rw [← h]
          split
          · exact absurd rfl hn
          · rfl
        obtain ⟨rfl, rfl⟩ := Prod.mk.inj hr
        exact hm

theorem ancestors_nonempty (p : Path) (n : Nat) : ∀ q ∈ p.ancestors n, q.isEmpty = false := by
  induction n generalizing p with
  | zero => simp [Path.ancestors]
  | succ n ih =>
      rw [Path.ancestors]
      split
      · next parent _ =>
          split
          · simp
          · next he =>
              intro q hq
              rcases List.mem_cons.mp hq with rfl | hq
              · simpa using he
              · exact ih parent q hq
      · simp

theorem makeDirectories_makes (h : (makeDirectories p : StateM Workspace _).run w = (r, w')) : Makes p w r w' := by
  rw [makeDirectories] at h
  by_cases he : p.isEmpty
  · rw [if_pos he] at h
    obtain ⟨rfl, rfl⟩ := Prod.mk.inj h
    exact ⟨.refl w, fun _ => .inl he, fun _ => rfl⟩
  · rw [if_neg he] at h
    exact makeFrom_makes (by simpa using he) (ancestors_nonempty p _) h

theorem perform_makeParent (p : Path) (w : Workspace) : ∃ r w', w.perform (makeParent p) = (r, w') ∧ Grows w w' ∧
    (r = .ok () → ∀ dir ∈ p.parent?, w'.Open dir) ∧ ((∀ dir ∈ p.parent?, w.Open dir) → r = .ok ()) := by
  rw [makeParent]
  cases hp : p.parent? with
  | none => exact ⟨.ok (), w, rfl, .refl w, by simp, by simp⟩
  | some dir =>
      obtain ⟨r, w', h⟩ : ∃ r w', (makeDirectories dir : StateM Workspace _).run w = (r, w') := ⟨_, _, rfl⟩
      have hm := makeDirectories_makes h
      refine ⟨_, w', perform_during _ (perform_orOsError h), hm.grows, fun hr => ?_, fun ho => ?_⟩
      · have hr : r = .ok () := Except.mapError_eq_ok.mp (Except.mapError_eq_ok.mp hr)
        simpa using hm.opened hr
      · rw [hm.kept (ho dir rfl)]
        rfl

theorem Saves.parts (h : Saves w p text w') :
    ∃ w₁, Grows w w₁ ∧ (∀ dir ∈ p.parent?, w₁.Open dir) ∧ w₁.write p text.toUTF8 = .ok w' := by
  obtain ⟨w₁, h₁, hw⟩ := h
  obtain ⟨r, w₂, h₂, hg, ho, -⟩ := perform_makeParent p w
  obtain ⟨rfl, rfl⟩ := Prod.mk.inj (h₁.symm.trans h₂)
  exact ⟨w₁, hg, ho rfl, hw⟩

theorem Saves.within (h : Saves w p text w') : Within w w' := by
  obtain ⟨w₁, hg, -, hw⟩ := h.parts
  exact hg.within.trans (.of_write hw)

theorem Saves.find (h : Saves w p text w') : w'.find p = .ok (.file text.toUTF8) := by
  obtain ⟨w₁, -, -, hw⟩ := h.parts
  exact find_write hw

theorem Saves.item? (h : Saves w p text w') {l : Location} {i : Item} (hl : l ≠ w.locate p) (hi : w.item? l = some i) :
    w'.item? l = some i := by
  obtain ⟨w₁, hg, -, hw⟩ := h.parts
  rw [item?_write hw, if_neg (by rwa [hg.within.locate]), hg.item l i hi]

theorem Saves.other (h : Saves w p text w') (text' : String) : ∃ w'', Saves w p text' w'' := by
  obtain ⟨w₁, h₁, hw⟩ := h
  obtain ⟨w₂, hw₂⟩ := write_other hw text'.toUTF8
  exact ⟨w₂, w₁, h₁, hw₂⟩

theorem Saves.again (h : Saves w p text w') (hw : Within w' w'') (text' : String) : ∃ w₃, Saves w'' p text' w₃ := by
  obtain ⟨w₁, -, hopen, hwrite⟩ := h.parts
  obtain ⟨r, w₃, h₃, hg, -, hkept⟩ := perform_makeParent p w''
  have hwithin := (Within.of_write hwrite).trans hw
  -- the parent is a directory already, so that nothing is in the way of the write
  obtain rfl : r = .ok () := hkept fun dir hd => (hopen dir hd).imp_right hwithin.find_directory
  obtain ⟨w₄, hw₄⟩ := write_again hwrite (hw.trans hg.within) text'.toUTF8
  exact ⟨w₄, w₃, h₃, hw₄⟩

end Layering.Workspace
