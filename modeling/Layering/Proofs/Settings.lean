import Layering.Proofs.Results
import Layering.Settings.Basic

namespace Layering

section

variable {α : Type} {activity : String} {x : Except Failure α}

theorem doing_eq_ok {a : α} : doing activity x = .ok a ↔ x = .ok a := Except.mapError_eq_ok

theorem doing_eq_error {e : Failure} :
    doing activity x = .error e ↔ ∃ cause, x = .error cause ∧ cause.within activity = e := Except.mapError_eq_error

end

theorem Mode.parse_eq_ok {text : String} {mode : Mode} : Mode.parse text = .ok mode ↔ mode.text = text := by
  constructor
  · intro h
    unfold Mode.parse at h
    split at h
    · obtain rfl := Except.ok.inj h
      rfl
    · obtain rfl := Except.ok.inj h
      rfl
    · cases h
  · rintro rfl
    cases mode <;> rfl

theorem Mode.parse_eq_error {text : String} {e : Failure} :
    Mode.parse text = .error e ↔ (text ≠ "first" ∧ text ≠ "all") ∧ e = ⟨[], .unknownMode text⟩ := by
  constructor
  · intro h
    unfold Mode.parse at h
    split at h
    · cases h
    · cases h
    case h_3 hfirst hall => exact ⟨⟨hfirst, hall⟩, (Except.error.inj h).symm⟩
  · rintro ⟨⟨hfirst, hall⟩, rfl⟩
    simp only [Mode.parse]

/-- What a path stands for in a directory: for itself if it is absolute or the directory is not named, else for what
follows the directory after a slash, which the directory may end in. -/
inductive Path.Joined (dir path : Path) : Path → Prop
  | alone (h : path.toList.head? = some '/' ∨ dir = "") : Joined dir path path
  | behind (h : ¬ (path.toList.head? = some '/' ∨ dir = "")) (hd : dir.toList.getLast? = some '/') :
      Joined dir path (dir ++ path)
  | apart (h : ¬ (path.toList.head? = some '/' ∨ dir = "")) (hd : dir.toList.getLast? ≠ some '/') :
      Joined dir path (dir ++ "/" ++ path)

theorem Path.join_eq_iff {dir path full : Path} : dir.join path = full ↔ Joined dir path full := by
  have halone : path.isAbsolute ∨ dir.isEmpty ↔ path.toList.head? = some '/' ∨ dir = "" := by
    simp [isAbsolute]
  simp only [join, halone]
  constructor
  · rintro rfl
    split
    · next h => exact .alone h
    · next h =>
        split
        · next hd => exact .behind h hd
        · next hd => exact .apart h hd
  · intro h
    cases h with
    | alone h => rw [if_pos h]
    | behind h hd => rw [if_neg h, if_pos hd]
    | apart h hd => rw [if_neg h, if_neg hd]

namespace Choices

variable {c file other given : Choices} {dir : Path} {e : Failure} {mode : Option String} {order : Option OrderSource}
  {r : Resolved}

def KnownMode (mode : Option String) : Prop := mode = .none ∨ mode = some "first" ∨ mode = some "all"

def Conflicts (c : Choices) : Prop := c.order ≠ .none ∧ c.orderFile ≠ .none

inductive Names (c : Choices) : Option OrderSource → Prop
  | inline {text : String} (h : c.order = some text) (hf : c.orderFile = .none) : Names c (some (.inline text))
  | file {path : Path} (h : c.order = .none) (hf : c.orderFile = some path) : Names c (some (.file path))
  | none (h : c.order = .none) (hf : c.orderFile = .none) : Names c .none

theorem Names.not_conflicts (h : c.Names order) : ¬ c.Conflicts := by
  rintro ⟨ho, hf⟩
  cases h with
  | inline _ hn => exact hf hn
  | file hn _ => exact ho hn
  | none hn _ => exact ho hn

theorem orderSource_eq_ok : c.orderSource = .ok order ↔ c.Names order := by
  constructor
  · intro h
    unfold orderSource at h
    split at h
    · cases h
    case h_2 ho hf =>
      obtain rfl := Except.ok.inj h
      exact .inline ho hf
    case h_3 ho hf =>
      obtain rfl := Except.ok.inj h
      exact .file ho hf
    case h_4 ho hf =>
      obtain rfl := Except.ok.inj h
      exact .none ho hf
  · intro h
    cases h with
    | inline ho hf => simp only [orderSource, ho, hf]
    | file ho hf => simp only [orderSource, ho, hf]
    | none ho hf => simp only [orderSource, ho, hf]

theorem orderSource_eq_error : c.orderSource = .error e ↔ c.Conflicts ∧ e = ⟨[], .conflictingOrders⟩ := by
  unfold orderSource Conflicts
  split <;> simp_all [eq_comm]

/-- The order in force: one given on the command line stands before the file's, but does not excuse a conflict there.
A path in the file begins in the directory of the file, one on the command line stands as it is. -/
inductive Orders (file : Choices) (dir : Path) (given : Choices) : Option OrderSource → Prop
  | given {source : OrderSource} (hg : given.Names (some source)) (h : ¬ file.Conflicts) :
      Orders file dir given (some source)
  | inline {text : String} (hg : given.Names .none) (h : file.Names (some (.inline text))) :
      Orders file dir given (some (.inline text))
  | file {path full : Path} (hg : given.Names .none) (h : file.Names (some (.file path))) (hj : dir.Joined path full) :
      Orders file dir given (some (.file full))
  | none (hg : given.Names .none) (h : file.Names .none) : Orders file dir given .none

structure Resolves (file : Choices) (dir : Path) (given : Choices) (r : Resolved) : Prop where
  mode : r.policy.mode.text = (given.mode.or file.mode).getD "first"
  maxFindings : r.policy.maxFindings = ((given.maxFindings.or file.maxFindings).map (·.toNat)).getD 200
  order : Orders file dir given r.order

/-- Why choices are refused: for the mode in force, then for the command line's orders, then for the file's. -/
inductive Refused (file given : Choices) : Failure → Prop
  | mode {text : String} (h : given.mode.or file.mode = some text) (hm : text ≠ "first" ∧ text ≠ "all") :
      Refused file given ⟨[], .unknownMode text⟩
  | given (hm : KnownMode (given.mode.or file.mode)) (h : given.Conflicts) :
      Refused file given ⟨["invalid command line order"], .conflictingOrders⟩
  | file (hm : KnownMode (given.mode.or file.mode)) (hg : ¬ given.Conflicts) (h : file.Conflicts) :
      Refused file given ⟨["invalid config order"], .conflictingOrders⟩

/-- Files that differ at most in what is given on the command line too, and of which both name an order twice or neither
does. -/
structure HiddenBy (given file other : Choices) : Prop where
  mode : given.mode = .none → file.mode = other.mode
  maxFindings : given.maxFindings = .none → file.maxFindings = other.maxFindings
  order : given.order = .none → given.orderFile = .none → file.order = other.order ∧ file.orderFile = other.orderFile
  conflicts : file.Conflicts ↔ other.Conflicts

def readMode (mode : Option String) : Except Failure Mode := (mode.map Mode.parse).getD (.ok Policy.default.mode)

theorem readMode_eq_ok {m : Mode} : readMode mode = .ok m ↔ m.text = mode.getD "first" := by
  cases mode with
  | none => cases m <;> simp [readMode, Policy.default, Mode.text]
  | some text => exact Mode.parse_eq_ok

theorem readMode_eq_error : readMode mode = .error e ↔
    ∃ text, mode = some text ∧ (text ≠ "first" ∧ text ≠ "all") ∧ e = ⟨[], .unknownMode text⟩ := by
  cases mode with
  | none => simp [readMode]
  | some text => simpa [readMode] using Mode.parse_eq_error

theorem knownMode_iff : KnownMode mode ↔ ∃ m, readMode mode = .ok m := by
  simp only [readMode_eq_ok]
  constructor
  · rintro (rfl | rfl | rfl)
    · exact ⟨.first, rfl⟩
    · exact ⟨.first, rfl⟩
    · exact ⟨.all, rfl⟩
  · rintro ⟨m, hm⟩
    cases mode with
    | none => exact .inl rfl
    | some text =>
        obtain rfl : m.text = text := hm
        cases m with
        | first => exact .inr (.inl rfl)
        | all => exact .inr (.inr rfl)

theorem exists_names (h : ¬ c.Conflicts) : ∃ order, c.Names order := by
  rcases ho : c.orderSource with e | order
  · exact absurd (orderSource_eq_error.mp ho).1 h
  · exact ⟨order, orderSource_eq_ok.mp ho⟩

theorem conflicts_relativeTo : (c.relativeTo dir).Conflicts ↔ c.Conflicts := by
  simp [Conflicts, relativeTo]

theorem exists_names_relativeTo (dir : Path) (h : ¬ c.Conflicts) : ∃ order, (c.relativeTo dir).Names order :=
  exists_names (conflicts_relativeTo.not.mpr h)

theorem orders_iff : Orders file dir given order ↔ ∃ chosen, given.Names chosen ∧
    ∃ configured, (file.relativeTo dir).Names configured ∧ chosen.or configured = order := by
  constructor
  · intro h
    cases h with
    | given hg h =>
        obtain ⟨configured, hc⟩ := exists_names_relativeTo dir h
        exact ⟨_, hg, configured, hc, rfl⟩
    | inline hg h =>
        obtain ⟨ho, hf⟩ := h
        exact ⟨_, hg, _, .inline ho (Option.map_eq_none_iff.mpr hf), rfl⟩
    | file hg h hj =>
        obtain ⟨⟩ | ⟨ho, hf⟩ := h
        exact ⟨_, hg, _, .file ho (Option.map_eq_some_iff.mpr ⟨_, hf, Path.join_eq_iff.mpr hj⟩), rfl⟩
    | none hg h =>
        obtain ⟨⟩ | ⟨⟩ | ⟨ho, hf⟩ := h
        exact ⟨_, hg, _, .none ho (Option.map_eq_none_iff.mpr hf), rfl⟩
  · rintro ⟨_ | source, hg, configured, hc, rfl⟩
    · cases hc with
      | inline ho hf => exact .inline hg (.inline ho (Option.map_eq_none_iff.mp hf))
      | file ho hf =>
          obtain ⟨path, hp, hj⟩ := Option.map_eq_some_iff.mp hf
          exact .file hg (.file ho hp) (Path.join_eq_iff.mp hj)
      | none ho hf => exact .none hg (.none ho (Option.map_eq_none_iff.mp hf))
    · exact .given hg (conflicts_relativeTo.not.mp hc.not_conflicts)

theorem resolve_eq_ok : file.resolve dir given = .ok r ↔ Resolves file dir given r := by
  simp only [resolve, Except.bind_eq_ok, doing_eq_ok, Except.pure_eq_ok, orderSource_eq_ok]
  constructor
  · rintro ⟨m, hm, chosen, hg, configured, hc, rfl⟩
    exact ⟨readMode_eq_ok.mp hm, rfl, orders_iff.mpr ⟨chosen, hg, configured, hc, rfl⟩⟩
  · rintro ⟨hm, hmax, horder⟩
    obtain ⟨chosen, hg, configured, hc, hor⟩ := orders_iff.mp horder
    refine ⟨r.policy.mode, readMode_eq_ok.mpr hm, chosen, hg, configured, hc, ?_⟩
    obtain ⟨⟨m, maxFindings⟩, order⟩ := r
    obtain rfl : maxFindings = _ := hmax
    obtain rfl : chosen.or configured = order := hor
    rfl

theorem resolve_eq_error : file.resolve dir given = .error e ↔ Refused file given e := by
  simp only [resolve, Except.bind_eq_error, doing_eq_ok, doing_eq_error, orderSource_eq_ok, orderSource_eq_error,
    conflicts_relativeTo]
  constructor
  · rintro (hm | ⟨m, hm, ⟨_, ⟨hg, rfl⟩, rfl⟩ | ⟨chosen, hg, ⟨_, ⟨hf, rfl⟩, rfl⟩ | ⟨_, _, h⟩⟩⟩)
    · obtain ⟨text, ht, hu, rfl⟩ := readMode_eq_error.mp hm
      exact .mode ht hu
    · exact .given (knownMode_iff.mpr ⟨m, hm⟩) hg
    · exact .file (knownMode_iff.mpr ⟨m, hm⟩) hg.not_conflicts hf
    · cases h
  · intro h
    cases h with
    | mode h hu => exact .inl (readMode_eq_error.mpr ⟨_, h, hu, rfl⟩)
    | given hm h =>
        obtain ⟨m, hm⟩ := knownMode_iff.mp hm
        exact .inr ⟨m, hm, .inl ⟨_, ⟨h, rfl⟩, rfl⟩⟩
    | file hm hg h =>
        obtain ⟨m, hm⟩ := knownMode_iff.mp hm
        obtain ⟨chosen, hc⟩ := exists_names hg
        exact .inr ⟨m, hm, .inr ⟨chosen, hc, .inl ⟨_, ⟨h, rfl⟩, rfl⟩⟩⟩

theorem Orders.not_conflicts (h : Orders file dir given order) : ¬ given.Conflicts ∧ ¬ file.Conflicts := by
  cases h with
  | given hg h => exact ⟨hg.not_conflicts, h⟩
  | inline hg h => exact ⟨hg.not_conflicts, h.not_conflicts⟩
  | file hg h _ => exact ⟨hg.not_conflicts, h.not_conflicts⟩
  | none hg h => exact ⟨hg.not_conflicts, h.not_conflicts⟩

theorem exists_resolves_iff :
    (∃ r, Resolves file dir given r) ↔ KnownMode (given.mode.or file.mode) ∧ ¬ given.Conflicts ∧ ¬ file.Conflicts := by
  constructor
  · rintro ⟨r, h⟩
    exact ⟨knownMode_iff.mpr ⟨_, readMode_eq_ok.mpr h.mode⟩, h.order.not_conflicts⟩
  · rintro ⟨hm, hg, hf⟩
    obtain ⟨m, hm⟩ := knownMode_iff.mp hm
    obtain ⟨chosen, hg⟩ := exists_names hg
    obtain ⟨configured, hc⟩ := exists_names_relativeTo dir hf
    exact ⟨⟨⟨m, _⟩, chosen.or configured⟩, readMode_eq_ok.mp hm, rfl, orders_iff.mpr ⟨_, hg, _, hc, rfl⟩⟩

namespace HiddenBy

variable (h : HiddenBy given file other)

include h

theorem or_mode : given.mode.or file.mode = given.mode.or other.mode := by
  cases hg : given.mode with
  | none => exact congrArg _ (h.mode hg)
  | some => rfl

theorem or_maxFindings : given.maxFindings.or file.maxFindings = given.maxFindings.or other.maxFindings := by
  cases hg : given.maxFindings with
  | none => exact congrArg _ (h.maxFindings hg)
  | some => rfl

theorem names (hg : given.Names .none) (hf : file.Names order) : other.Names order := by
  obtain ⟨⟩ | ⟨⟩ | ⟨hgo, hgf⟩ := hg
  obtain ⟨hsame, hsamef⟩ := h.order hgo hgf
  cases hf with
  | inline ho hn => exact .inline (hsame ▸ ho) (hsamef ▸ hn)
  | file ho hn => exact .file (hsame ▸ ho) (hsamef ▸ hn)
  | none ho hn => exact .none (hsame ▸ ho) (hsamef ▸ hn)

theorem orders (ho : Orders file dir given order) : Orders other dir given order := by
  cases ho with
  | given hg hf => exact .given hg (h.conflicts.not.mp hf)
  | inline hg hf => exact .inline hg (h.names hg hf)
  | file hg hf hj => exact .file hg (h.names hg hf) hj
  | none hg hf => exact .none hg (h.names hg hf)

theorem resolves (hr : Resolves file dir given r) : Resolves other dir given r :=
  ⟨h.or_mode ▸ hr.mode, h.or_maxFindings ▸ hr.maxFindings, h.orders hr.order⟩

theorem refused (he : Refused file given e) : Refused other given e := by
  cases he with
  | mode hm hu => exact .mode (h.or_mode ▸ hm) hu
  | given hm hg => exact .given (h.or_mode ▸ hm) hg
  | file hm hg hf => exact .file (h.or_mode ▸ hm) hg (h.conflicts.mp hf)

theorem resolve_eq : other.resolve dir given = file.resolve dir given := by
  cases hf : file.resolve dir given with
  | ok r => exact resolve_eq_ok.mpr (h.resolves (resolve_eq_ok.mp hf))
  | error e => exact resolve_eq_error.mpr (h.refused (resolve_eq_error.mp hf))

end HiddenBy

end Choices

namespace Settings

open Choices

/-- When choices are accepted and what then prevails, why they are refused otherwise, and what in the file cannot change
either. -/
theorem resolve_outcomes (file : Settings) (dir : Path) (given : Choices) :
    ((∃ r, file.resolve dir given = .ok r) ↔
      KnownMode (given.mode.or file.mode) ∧ ¬ given.Conflicts ∧ ¬ file.Conflicts) ∧
    (∀ r, file.resolve dir given = .ok r ↔ Resolves file.toChoices dir given r) ∧
    (∀ e, file.resolve dir given = .error e ↔ Refused file.toChoices given e) ∧
    ∀ other : Settings, HiddenBy given file.toChoices other.toChoices →
      other.resolve dir given = file.resolve dir given := by
  refine ⟨?_, fun r => resolve_eq_ok, fun e => resolve_eq_error, fun other h => h.resolve_eq⟩
  simp only [resolve_eq_ok]
  exact exists_resolves_iff

/-- What the command line hides of a file, an unknown mode among it; two orders in the file it does not hide. Where it
names no order, the file's is in the directory of the file, unless its path is absolute. -/
theorem resolve_outcomes_hidden :
    let given : Choices := ⟨some "base,view", none, some "all", none⟩
    let file : Settings := ⟨⟨none, some "order.txt", some "some", some 5⟩, none⟩
    let other : Settings := ⟨⟨some "view,base", none, some "first", some 5⟩, some settingsSchema⟩
    let double : Settings := ⟨⟨some "view,base", some "order.txt", none, none⟩, none⟩
    let late : Choices := ⟨none, none, some "all", none⟩
    let fixed : Settings := ⟨⟨none, some "/etc/order.txt", none, some 5⟩, none⟩
    let own : Choices := ⟨none, some "order.txt", none, none⟩
    HiddenBy given file.toChoices other.toChoices ∧
      file.resolve "conf" given = .ok ⟨⟨.all, 5⟩, some (.inline "base,view")⟩ ∧
      other.resolve "conf" given = .ok ⟨⟨.all, 5⟩, some (.inline "base,view")⟩ ∧
      double.resolve "conf" given = .error ⟨["invalid config order"], .conflictingOrders⟩ ∧
      file.resolve "conf" late = .ok ⟨⟨.all, 5⟩, some (.file "conf/order.txt")⟩ ∧
      fixed.resolve "conf" late = .ok ⟨⟨.all, 5⟩, some (.file "/etc/order.txt")⟩ ∧
      fixed.resolve "conf" own = .ok ⟨⟨.first, 5⟩, some (.file "order.txt")⟩ := by
  intro given file other double late fixed own
  have h : HiddenBy given file.toChoices other.toChoices :=
    ⟨nofun, fun _ => rfl, nofun, by simp [Conflicts, file, other]⟩
  obtain ⟨-, hok, -, hsame⟩ := resolve_outcomes file "conf" given
  have hfile : file.resolve "conf" given = .ok ⟨⟨.all, 5⟩, some (.inline "base,view")⟩ :=
    (hok _).mpr ⟨rfl, rfl, .given (.inline rfl rfl) (by simp [Conflicts, file])⟩
  obtain ⟨-, -, herror, -⟩ := resolve_outcomes double "conf" given
  have hdouble : double.resolve "conf" given = .error ⟨["invalid config order"], .conflictingOrders⟩ :=
    (herror _).mpr (.file (.inr (.inr rfl)) (by simp [Conflicts, given]) (by simp [Conflicts, double]))
  have hjoined : file.resolve "conf" late = .ok ⟨⟨.all, 5⟩, some (.file "conf/order.txt")⟩ := by
    refine ((resolve_outcomes file "conf" late).2.1 _).mpr ⟨rfl, rfl, .file (.none rfl rfl) (.file rfl rfl) ?_⟩
    exact .apart (by decide) (by decide)
  have habsolute : fixed.resolve "conf" late = .ok ⟨⟨.all, 5⟩, some (.file "/etc/order.txt")⟩ := by
    refine ((resolve_outcomes fixed "conf" late).2.1 _).mpr ⟨rfl, rfl, .file (.none rfl rfl) (.file rfl rfl) ?_⟩
    exact .alone (.inl (by decide))
  have hown : fixed.resolve "conf" own = .ok ⟨⟨.first, 5⟩, some (.file "order.txt")⟩ :=
    ((resolve_outcomes fixed "conf" own).2.1 _).mpr
      ⟨rfl, rfl, .given (.file rfl rfl) (by simp [Conflicts, fixed])⟩
  exact ⟨h, hfile, (hsame other h).trans hfile, hdouble, hjoined, habsolute, hown⟩

end Settings

end Layering
