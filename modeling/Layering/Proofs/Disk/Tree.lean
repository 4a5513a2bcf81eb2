import Layering.Disk.Workspace
import Layering.Proofs.Lines
import Layering.Proofs.Lists
import Layering.Proofs.Results

namespace Layering.Workspace

def walk (l : Location) (piece : List Char) : Location :=
  if Path.isIdle piece then l else if piece = ['.', '.'] then l.dropLast else l ++ [piece]

def Fits (piece : List Char) : Prop :=
  Path.isIdle piece ∨ piece = ['.', '.'] ∨ (String.ofList piece).utf8ByteSize ≤ 255

def locate (w : Workspace) (p : Path) : Location := p.pieces.foldl walk (if p.isAbsolute then [] else w.here)

/-- What is in `w` is in `w'`: directories as they were, files with any content. -/
structure Within (w w' : Workspace) : Prop where
  here : w'.here = w.here
  directory : ∀ l, w.item? l = some .directory → w'.item? l = some .directory
  file : ∀ l c, w.item? l = some (.file c) → ∃ c', w'.item? l = some (.file c')

structure Grows (w w' : Workspace) : Prop where
  here : w'.here = w.here
  item : ∀ l i, w.item? l = some i → w'.item? l = some i

variable {w w' w'' : Workspace} {l l' : Location} {p : Path} {i : Item} {piece : List Char} {ps : List (List Char)}

theorem Within.refl (w : Workspace) : Within w w := ⟨rfl, fun _ h => h, fun _ c h => ⟨c, h⟩⟩

theorem Within.trans (h : Within w w') (h' : Within w' w'') : Within w w'' := by
  refine ⟨h'.here.trans h.here, fun l hl => h'.directory l (h.directory l hl), fun l c hl => ?_⟩
  obtain ⟨c', hc⟩ := h.file l c hl
  exact h'.file l c' hc

theorem Grows.refl (w : Workspace) : Grows w w := ⟨rfl, fun _ _ h => h⟩

theorem Grows.trans (h : Grows w w') (h' : Grows w' w'') : Grows w w'' :=
  ⟨h'.here.trans h.here, fun l i hl => h'.item l i (h.item l i hl)⟩

theorem Grows.within (h : Grows w w') : Within w w' :=
  ⟨h.here, fun l hl => h.item l _ hl, fun l c hl => ⟨c, h.item l _ hl⟩⟩

theorem item?_put (hl : l ≠ []) (l' : Location) :
    (w.put l i).item? l' = if l' = l then some i else w.item? l' := by
  unfold item? put
  by_cases hr : l' = []
  · have hne : l' ≠ l := fun he => hl (he ▸ hr)
    rw [if_pos hr, if_neg hne, if_pos hr]
  · simp only [hr, if_false, List.lookup_cons_eq_if]
    by_cases he : l' = l
    · rw [if_pos he, if_pos he]
    · rw [if_neg he, if_neg he, List.lookup_filter_ne he]

theorem grows_put (hl : w.item? l = none) : Grows w (w.put l i) := by
  have hne : l ≠ [] := by
    rintro rfl
    cases hl
  refine ⟨rfl, fun l' j hj => ?_⟩
  rw [item?_put hne, if_neg, hj]
  rintro rfl
  rw [hl] at hj
  cases hj

theorem within_put_file {c : ByteArray} (hl : w.item? l ≠ some .directory) : Within w (w.put l (.file c)) := by
  have hne : l ≠ [] := by
    rintro rfl
    exact hl rfl
  refine ⟨rfl, fun l' hd => ?_, fun l' c' hf => ?_⟩
  · rw [item?_put hne, if_neg, hd]
    rintro rfl
    exact hl hd
  · rw [item?_put hne]
    split
    · exact ⟨c, rfl⟩
    · exact ⟨c', hf⟩

theorem enter_eq_ok : w.enter l = .ok () ↔ w.item? l = some .directory := by
  rw [enter]
  split <;> simp_all

theorem follow_eq_ok : w.follow l piece = .ok l' ↔ w.item? l = some .directory ∧ Fits piece ∧ walk l piece = l' := by
  rw [← enter_eq_ok]
  cases hw : w.enter l with
  | error e => simp [follow, hw, bind, Except.bind]
  | ok u =>
      rw [walk, Fits]
      by_cases hi : Path.isIdle piece
      · have hf : w.follow l piece = .ok l := by simp [follow, hw, hi, bind, Except.bind, pure, Except.pure]
        simp [hf, hi]
      · by_cases hd : piece = ['.', '.']
        · have hf : w.follow l piece = .ok l.dropLast := by
            rw [follow, hw]
            simp only [bind, Except.bind, if_neg hi, if_pos hd]
            rfl
          rw [hf, if_neg hi, if_pos hd, Except.ok.injEq]
          exact ⟨fun h => ⟨rfl, .inr (.inl hd), h⟩, fun h => h.2.2⟩
        · have hf : w.follow l piece =
              if 255 < (String.ofList piece).utf8ByteSize then .error .nameTooLong else .ok (l ++ [piece]) := by
            rw [follow, hw]
            simp only [bind, Except.bind, if_neg hi, if_neg hd]
            rfl
          rw [hf, if_neg hi, if_neg hd]
          split
          · simp only [reduceCtorEq, hi, hd, false_or, true_and, false_iff, not_and]
            omega
          · rw [Except.ok.injEq]
            exact ⟨fun h => ⟨rfl, .inr (.inr (by omega)), h⟩, fun h => h.2.2⟩

theorem follow_mono (h : Within w w') (hf : w.follow l piece = .ok l') : w'.follow l piece = .ok l' := by
  obtain ⟨hd, hp⟩ := follow_eq_ok.mp hf
  exact follow_eq_ok.mpr ⟨h.directory l hd, hp⟩

theorem foldlM_follow_mono (h : Within w w') (hf : ps.foldlM w.follow l = .ok l') :
    ps.foldlM w'.follow l = .ok l' := by
  induction ps generalizing l with
  | nil => exact hf
  | cons piece ps ih =>
      rw [List.foldlM_cons] at hf ⊢
      cases hs : w.follow l piece with
      | error e => rw [hs] at hf; cases hf
      | ok m =>
          rw [hs] at hf
          rw [follow_mono h hs]
          exact ih hf

theorem foldlM_follow_walk (hf : ps.foldlM w.follow l = .ok l') : l' = ps.foldl walk l := by
  induction ps generalizing l with
  | nil => exact (Except.ok.inj hf).symm
  | cons piece ps ih =>
      rw [List.foldlM_cons] at hf
      cases hs : w.follow l piece with
      | error e => rw [hs] at hf; cases hf
      | ok m =>
          rw [hs] at hf
          obtain rfl := (follow_eq_ok.mp hs).2.2
          exact ih hf

structure Usable (p : Path) : Prop where
  nonempty : p.isEmpty = false
  noZero : '\x00' ∉ p.toList
  short : p.utf8ByteSize < 4096

theorem followAll_eq_ok : w.followAll p ps = .ok l ↔
    Usable p ∧ ps.foldlM w.follow (if p.isAbsolute then [] else w.here) = .ok l := by
  rw [followAll]
  by_cases he : p.isEmpty
  · have hn : ¬ Usable p := fun h => by simp [h.nonempty] at he
    simp only [he, if_true, Except.throw_bind_eq_ok, hn, false_and]
  by_cases hz : '\x00' ∈ p.toList
  · have hn : ¬ Usable p := fun h => h.noZero hz
    simp only [he, hz, if_true, if_false, Except.throw_bind_eq_ok, hn, false_and, Bool.false_eq_true]
  by_cases hs : 4096 ≤ p.utf8ByteSize
  · have hn : ¬ Usable p := fun h => by have := h.short; omega
    simp only [he, hz, hs, if_true, if_false, Except.throw_bind_eq_ok, hn, false_and, Bool.false_eq_true]
  have hu : Usable p := ⟨by simpa using he, hz, by omega⟩
  simp only [he, hz, hs, hu, if_false, true_and, Bool.false_eq_true]

theorem followAll_append : w.followAll p (ps ++ [piece]) = w.followAll p ps >>= (w.follow · piece) := by
  unfold followAll
  by_cases he : p.isEmpty
  · simp [he, throw, throwThe, MonadExceptOf.throw, bind, Except.bind]
  by_cases hz : '\x00' ∈ p.toList
  · simp [he, hz, throw, throwThe, MonadExceptOf.throw, bind, Except.bind]
  by_cases hs : 4096 ≤ p.utf8ByteSize
  · simp [he, hz, hs, throw, throwThe, MonadExceptOf.throw, bind, Except.bind]
  · simp [he, hz, hs, List.foldlM_append]

theorem followAll_mono (h : Within w w') (hf : w.followAll p ps = .ok l) : w'.followAll p ps = .ok l := by
  obtain ⟨hu, hf⟩ := followAll_eq_ok.mp hf
  rw [← h.here] at hf
  exact followAll_eq_ok.mpr ⟨hu, foldlM_follow_mono h hf⟩

/-- A place is where all pieces of the path lead, of which the last one is a name. -/
theorem place_eq_ok {e : OsError} : w.place p e = .ok l ↔ w.followAll p (backwards p).reverse = .ok l ∧
    ∃ name before, backwards p = name :: before ∧ ¬ (Path.isIdle name ∨ name = ['.', '.']) := by
  rw [place]
  cases hb : backwards p with
  | nil =>
      simp only [reduceCtorEq, false_and, exists_const, and_false, iff_false]
      split <;> simp
  | cons name before =>
      have hf : w.followAll p (name :: before).reverse = w.followAll p before.reverse >>= (w.follow · name) := by
        rw [List.reverse_cons, followAll_append]
      simp only [hf, Except.bind_eq_ok]
      constructor
      · rintro ⟨dir, hd, l', hl, hr⟩
        split at hr
        · exact (Except.throw_bind_eq_ok.mp hr).elim
        · next hn =>
            obtain rfl := Except.pure_eq_ok.mp hr
            exact ⟨⟨dir, hd, hl⟩, name, before, rfl, hn⟩
      · rintro ⟨⟨dir, hd, hl⟩, name', before', he, hn⟩
        obtain ⟨rfl, rfl⟩ := List.cons.inj he
        exact ⟨dir, hd, l, hl, by rw [if_neg hn]; rfl⟩

theorem place_mono {e : OsError} (h : Within w w') (hp : w.place p e = .ok l) : w'.place p e = .ok l := by
  obtain ⟨hf, hn⟩ := place_eq_ok.mp hp
  exact place_eq_ok.mpr ⟨followAll_mono h hf, hn⟩

theorem write_eq_ok {c : ByteArray} : w.write p c = .ok w' ↔ ∃ l, w.place p .isADirectory = .ok l ∧
    p.toList.getLast? ≠ some '/' ∧ w.item? l ≠ some .directory ∧ w.put l (.file c) = w' := by
  have hdir (l : Location) : w.isDirectory l = true ↔ w.item? l = some .directory := by
    rw [isDirectory]
    split <;> simp_all
  simp only [write, Except.bind_eq_ok]
  refine exists_congr fun l => and_congr_right fun _ => ?_
  split
  · next h =>
      rw [hdir] at h
      simp only [Except.throw_bind_eq_ok, false_iff, not_and]
      exact fun h1 h2 => absurd h (not_or.mpr ⟨h1, h2⟩)
  · next h =>
      rw [hdir, not_or] at h
      rw [Except.pure_eq_ok]
      exact ⟨fun he => ⟨h.1, h.2, he⟩, fun he => he.2.2⟩

theorem makeDirectory_eq_ok : w.makeDirectory p = .ok w' ↔
    ∃ l, w.place p .alreadyExists = .ok l ∧ w.item? l = none ∧ w.put l .directory = w' := by
  simp only [makeDirectory, Except.bind_eq_ok]
  refine exists_congr fun l => and_congr_right fun _ => ?_
  cases w.item? l with
  | none => simp [pure, Except.pure]
  | some i => simp [throw, throwThe, MonadExceptOf.throw]

theorem find_eq_ok : w.find p = .ok i ↔ ∃ l, w.followAll p p.pieces = .ok l ∧ w.item? l = some i := by
  simp only [find, Except.bind_eq_ok]
  refine exists_congr fun l => and_congr_right fun _ => ?_
  cases w.item? l with
  | none => simp [throw, throwThe, MonadExceptOf.throw]
  | some j => simp [pure, Except.pure]

theorem pieces_eq (p : Path) : ∃ k, p.pieces = (backwards p).reverse ++ List.replicate k [] :=
  List.eq_dropWhile_append_replicate (fun _ h => List.isEmpty_iff.mp h) p.pieces

theorem pieces_eq_backwards (hu : Usable p) (hs : p.toList.getLast? ≠ some '/') : p.pieces = (backwards p).reverse := by
  have hne : p.toList ≠ [] := by
    intro he
    have hn := hu.nonempty
    simp [← String.toList_eq_nil_iff, he] at hn
  obtain ⟨cs, c, hc⟩ : ∃ cs c, p.toList = cs ++ [c] := ⟨_, _, (List.dropLast_concat_getLast hne).symm⟩
  have hlast : c ≠ '/' := by
    rintro rfl
    exact hs (by simp [hc])
  obtain ⟨init, last, -, hp⟩ := List.splitOn_concat hlast cs
  rw [backwards, Path.pieces, hc, hp]
  simp

theorem foldlM_follow_idle (hl : w.item? l = some .directory) (k : Nat) :
    (List.replicate k []).foldlM w.follow l = .ok l := by
  induction k with
  | zero => rfl
  | succ k ih =>
      have hf : w.follow l [] = .ok l := follow_eq_ok.mpr ⟨hl, .inl rfl, rfl⟩
      rw [List.replicate_succ, List.foldlM_cons, hf]
      exact ih

theorem foldl_walk_replicate (l : Location) (k : Nat) : (List.replicate k []).foldl walk l = l := by
  induction k with
  | zero => rfl
  | succ k ih => exact ih

theorem locate_eq (hf : w.followAll p (backwards p).reverse = .ok l) : w.locate p = l := by
  obtain ⟨k, hk⟩ := pieces_eq p
  rw [locate, hk, List.foldl_append, foldl_walk_replicate]
  exact (foldlM_follow_walk (followAll_eq_ok.mp hf).2).symm

theorem Within.locate (h : Within w w') (p : Path) : w'.locate p = w.locate p := by
  rw [Workspace.locate, Workspace.locate, h.here]

theorem Within.of_write {c : ByteArray} (h : w.write p c = .ok w') : Within w w' := by
  obtain ⟨l, -, -, hd, rfl⟩ := write_eq_ok.mp h
  exact within_put_file hd

theorem Grows.of_makeDirectory (h : w.makeDirectory p = .ok w') : Grows w w' := by
  obtain ⟨l, -, hn, rfl⟩ := makeDirectory_eq_ok.mp h
  exact grows_put hn

theorem item?_write {c : ByteArray} (h : w.write p c = .ok w') (l : Location) :
    w'.item? l = if l = w.locate p then some (.file c) else w.item? l := by
  obtain ⟨l', hp, -, hd, rfl⟩ := write_eq_ok.mp h
  have hr : l' ≠ [] := by
    rintro rfl
    exact hd rfl
  rw [item?_put hr, locate_eq (place_eq_ok.mp hp).1]

theorem find_write {c : ByteArray} (h : w.write p c = .ok w') : w'.find p = .ok (.file c) := by
  obtain ⟨l, hp, hs, hd, -⟩ := write_eq_ok.mp h
  have hf := (place_eq_ok.mp hp).1
  refine find_eq_ok.mpr ⟨l, ?_, ?_⟩
  · rw [pieces_eq_backwards (followAll_eq_ok.mp hf).1 hs]
    exact followAll_mono (.of_write h) hf
  · rw [item?_write h, locate_eq hf, if_pos rfl]

theorem find_makeDirectory (h : w.makeDirectory p = .ok w') : w'.find p = .ok .directory := by
  obtain ⟨l, hp, hn, rfl⟩ := makeDirectory_eq_ok.mp h
  have hl : (w.put l .directory).item? l = some .directory := by
    have hr : l ≠ [] := by
      rintro rfl
      cases hn
    rw [item?_put hr, if_pos rfl]
  have hf := followAll_mono (Grows.of_makeDirectory h).within (place_eq_ok.mp hp).1
  obtain ⟨hu, hf⟩ := followAll_eq_ok.mp hf
  obtain ⟨k, hk⟩ := pieces_eq p
  refine find_eq_ok.mpr ⟨l, followAll_eq_ok.mpr ⟨hu, ?_⟩, hl⟩
  rw [hk, List.foldlM_append, hf]
  exact foldlM_follow_idle hl k

/-- What is found under a path is found there later, if it was not changed. -/
theorem Within.find (h : Within w w') (hf : w.find p = .ok i) (hi : w'.item? (w.locate p) = some i) :
    w'.find p = .ok i := by
  obtain ⟨l, hl, -⟩ := find_eq_ok.mp hf
  have hloc : w.locate p = l := (foldlM_follow_walk (followAll_eq_ok.mp hl).2).symm
  exact find_eq_ok.mpr ⟨l, followAll_mono h hl, hloc ▸ hi⟩

theorem item?_locate (hf : w.find p = .ok i) : w.item? (w.locate p) = some i := by
  obtain ⟨l, hl, hi⟩ := find_eq_ok.mp hf
  have hloc : w.locate p = l := (foldlM_follow_walk (followAll_eq_ok.mp hl).2).symm
  rw [hloc, hi]

theorem Within.find_directory (h : Within w w') (hf : w.find p = .ok .directory) : w'.find p = .ok .directory :=
  h.find hf (h.directory _ (item?_locate hf))

theorem write_again {c : ByteArray} (h : w.write p c = .ok w') (hw : Within w' w'') (c' : ByteArray) :
    ∃ w₃, w''.write p c' = .ok w₃ := by
  obtain ⟨l, hp, hs, hd, -⟩ := write_eq_ok.mp h
  have hl : w'.item? l = some (.file c) := by
    rw [item?_write h, locate_eq (place_eq_ok.mp hp).1, if_pos rfl]
  obtain ⟨c₂, hc⟩ := hw.file l c hl
  refine ⟨_, write_eq_ok.mpr ⟨l, place_mono ((Within.of_write h).trans hw) hp, hs, ?_, rfl⟩⟩
  rw [hc]
  simp

theorem write_other {c : ByteArray} (h : w.write p c = .ok w') (c' : ByteArray) : ∃ w₂, w.write p c' = .ok w₂ := by
  obtain ⟨l, hp, hs, hd, -⟩ := write_eq_ok.mp h
  exact ⟨_, write_eq_ok.mpr ⟨l, hp, hs, hd, rfl⟩⟩

end Layering.Workspace
