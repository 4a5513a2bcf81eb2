import Layering.Report.Markdown
import Layering.Proofs.Groups
import Layering.Proofs.Lines

namespace Layering.Markdown

/-- How many bars divide cells, which are those without a backslash before them; `before` is what stands before the
characters. -/
def bars (before : Char) : List Char → Nat
  | [] => 0
  | c :: cs => bars c cs + if c = '|' ∧ before ≠ '\\' then 1 else 0

def unescape : List Char → List Char
  | '\\' :: '|' :: cs => '|' :: unescape cs
  | c :: cs => c :: unescape cs
  | [] => []

def emptyMark : List Char := "_(empty)_".toList

def readItem (chars : List Char) : String := .ofList (unescape (chars.dropWhile (· = ' ')).tail.dropLast)

def names (cell : List Char) : List String := if cell = emptyMark then [] else (cell.splitOn ',').map readItem

/-- A row that shows the names of a group: a line of two cells, which no bar in a name divides. -/
structure Shows (rank : Nat) (group : List String) (row : List Char) : Prop where
  cells : ∃ cell, row = s!"| {rank} | ".toList ++ cell ++ " |".toList ∧ names cell = group
  bars : bars '\n' row = 3
  line : ∀ c ∈ row, isBlank c → c = ' '
  marked : emptyMark <:+: row ↔ group = []

variable {cs : List Char} {c : Char} {name : String} {group : List String} {rank : Nat}

def escaped (c : Char) : List Char := if c = '|' then ['\\', '|'] else [c]

def item (name : String) : List Char := '`' :: ((escapeCell name).toList ++ ['`'])

theorem toList_escapeCell (name : String) : (escapeCell name).toList = name.toList.flatMap escaped :=
  String.toList_ofList

theorem head?_escaped (cs : List Char) : (cs.flatMap escaped).head? ≠ some '|' := by
  cases cs with
  | nil => simp
  | cons c cs => by_cases hc : c = '|' <;> simp [escaped, hc]

theorem unescape_cons (h : cs.head? ≠ some '|') : unescape (c :: cs) = c :: unescape cs := by
  rw [unescape]
  rintro cs' - rfl
  exact h rfl

/-- A backslash is a part of the name, also in front of an escaped bar. -/
theorem unescape_escapeCell (name : String) : unescape (escapeCell name).toList = name.toList := by
  rw [toList_escapeCell]
  induction name.toList with
  | nil => rfl
  | cons c cs ih =>
      rw [List.flatMap_cons, escaped]
      by_cases hc : c = '|'
      · rw [if_pos hc, List.cons_append, List.singleton_append, unescape, ih, hc]
      · rw [if_neg hc, List.singleton_append, unescape_cons (head?_escaped cs), ih]

theorem mem_item (h : c ∈ item name) : c = '`' ∨ c = '\\' ∨ c ∈ name.toList := by
  simp only [item, toList_escapeCell, List.mem_cons, List.mem_append, List.mem_flatMap, List.not_mem_nil,
    or_false] at h
  rcases h with hc | ⟨d, hd, hc⟩ | hc
  · exact .inl hc
  · have hcd : c = '\\' ∨ c = d := by
      by_cases hb : d = '|'
      · simpa [escaped, hb] using hc
      · exact .inr (by simpa [escaped, hb] using hc)
    exact .inr (hcd.imp_right fun hcd : c = d => hcd ▸ hd)
  · exact .inl hc

theorem readItem_item (name : String) : readItem (item name) = name := by
  simp [readItem, item, unescape_escapeCell]

theorem readItem_blank (cs : List Char) : readItem (' ' :: cs) = readItem cs := by
  simp [readItem]

theorem toList_cell (h : group ≠ []) : (cell group).toList = [',', ' '].intercalate (group.map item) := by
  have hitem : ∀ name : String, (s!"`{escapeCell name}`").toList = item name := by
    intro name
    change ("`" ++ escapeCell name ++ "`").toList = item name
    simp [item]
  rw [cell, if_neg (by simpa using h), String.toList_intercalate, List.map_map]
  exact congrArg (List.intercalate [',', ' ']) (List.map_congr_left fun name _ => hitem name)

theorem intercalate_comma_blank (l : List Char) (ls : List (List Char)) :
    [',', ' '].intercalate (l :: ls) = [','].intercalate (l :: ls.map (' ' :: ·)) := by
  induction ls generalizing l with
  | nil => rfl
  | cons l' ls ih =>
      rw [List.intercalate_cons_cons, ih, List.map_cons, List.intercalate_cons_cons]
      cases ls <;> simp [List.intercalate]

theorem comma_not_mem_item (h : IsName name) : ',' ∉ item name := by
  intro hc
  rcases mem_item hc with hc | hc | hc
  · cases hc
  · cases hc
  · exact (h.2 _ hc).1 rfl

theorem names_cell (h : ∀ name ∈ group, IsName name) : names (cell group).toList = group := by
  cases group with
  | nil => rfl
  | cons name group =>
      have hc := toList_cell (List.cons_ne_nil name group)
      rw [List.map_cons, intercalate_comma_blank, List.map_map] at hc
      have hhead : (cell (name :: group)).toList.head? = some '`' := by
        rw [hc]
        cases group <;> rfl
      have hmark : (cell (name :: group)).toList ≠ emptyMark := by
        intro he
        rw [he] at hhead
        exact absurd hhead (by decide)
      have hcomma : ∀ l ∈ item name :: group.map ((' ' :: ·) ∘ item), ',' ∉ l := by
        intro l hl
        rcases List.mem_cons.mp hl with rfl | hl
        · exact comma_not_mem_item (h name List.mem_cons_self)
        · obtain ⟨other, ho, rfl⟩ := List.mem_map.mp hl
          simpa using comma_not_mem_item (h other (List.mem_cons_of_mem _ ho))
      rw [names, if_neg hmark, hc, List.splitOn_intercalate ',' hcomma (List.cons_ne_nil _ _), List.map_cons,
        readItem_item, List.map_map]
      have hread : readItem ∘ (' ' :: ·) ∘ item = id := by
        funext other
        rw [Function.comp_apply, Function.comp_apply, readItem_blank, readItem_item, id]
      rw [hread, List.map_id]

def rowLine (rank : Nat) (group : List String) : List Char :=
  s!"| {rank} | ".toList ++ (cell group).toList ++ " |".toList

theorem toList_row (rank : Nat) (group : List String) : (row rank group).toList = rowLine rank group ++ ['\n'] := by
  change ("| " ++ toString rank ++ " | " ++ cell group ++ " |\n").toList =
    ("| " ++ toString rank ++ " | ").toList ++ _ ++ _ ++ _
  simp

theorem bars_append (b : Char) (cs ds : List Char) : bars b (cs ++ ds) = bars b cs + bars (cs.getLastD b) ds := by
  induction cs generalizing b with
  | nil => simp [bars]
  | cons c cs ih =>
      rw [List.cons_append, bars, bars, ih, List.getLastD_cons]
      omega

theorem bars_of_not_mem (h : '|' ∉ cs) (b : Char) : bars b cs = 0 := by
  induction cs generalizing b with
  | nil => rfl
  | cons c cs ih =>
      obtain ⟨hc, hcs⟩ := List.ne_and_not_mem_of_not_mem_cons h
      simp [bars, ih hcs, hc.symm]

theorem bars_escaped (b : Char) (cs : List Char) : bars b (cs.flatMap escaped) = 0 := by
  induction cs generalizing b with
  | nil => rfl
  | cons c cs ih => by_cases hc : c = '|' <;> simp [escaped, bars, hc, ih]

theorem bars_item (b : Char) (name : String) : bars b (item name) = 0 := by
  rw [item, bars, toList_escapeCell, bars_append, bars_escaped]
  simp [bars]

theorem bars_cell (b : Char) (group : List String) : bars b (cell group).toList = 0 := by
  cases group with
  | nil => exact bars_of_not_mem (by decide) b
  | cons name group =>
      rw [toList_cell (List.cons_ne_nil _ _), List.map_cons]
      induction group generalizing name b with
      | nil => rw [List.map_nil, List.intercalate_singleton, bars_item]
      | cons other group ih =>
          rw [List.map_cons, List.intercalate_cons_cons, bars_append, bars_append, bars_item, ih]
          simp [bars]

theorem toList_rankCell (rank : Nat) :
    s!"| {rank} | ".toList = "| ".toList ++ (toString rank).toList ++ " | ".toList := by
  change ("| " ++ toString rank ++ " | ").toList = _
  rw [String.toList_append, String.toList_append]

theorem bars_rowLine (rank : Nat) (group : List String) : bars '\n' (rowLine rank group) = 3 := by
  have hdigits : ∀ b, bars b (toString rank).toList = 0 :=
    bars_of_not_mem fun h => absurd (isDigit_of_mem_toString h) (by decide)
  rw [rowLine, toList_rankCell, bars_append, bars_append, bars_append, bars_append, hdigits, bars_cell]
  simp [bars]

theorem mem_cell (hg : group ≠ []) (h : c ∈ (cell group).toList) :
    c ∈ [',', ' '] ∨ ∃ name ∈ group, c ∈ item name := by
  rw [toList_cell hg] at h
  clear hg
  induction group with
  | nil => exact absurd h List.not_mem_nil
  | cons name group ih =>
      cases group with
      | nil =>
          rw [List.map_singleton, List.intercalate_singleton] at h
          exact .inr ⟨name, List.mem_cons_self, h⟩
      | cons other group =>
          rw [List.map_cons, List.map_cons, List.intercalate_cons_cons, List.mem_append, List.mem_append] at h
          rcases h with (h | h) | h
          · exact .inr ⟨name, List.mem_cons_self, h⟩
          · exact .inl h
          · refine (ih h).imp_right ?_
            rintro ⟨n, hn, h⟩
            exact ⟨n, List.mem_cons_of_mem _ hn, h⟩

/-- A character that neither ends a line nor opens the mark of an empty group. -/
def Plain (c : Char) : Prop := (isBlank c → c = ' ') ∧ c ≠ '('

instance (c : Char) : Decidable (Plain c) := inferInstanceAs (Decidable (_ ∧ _))

theorem plain_of_isDigit (h : c.isDigit) : Plain c := by
  simp only [Char.isDigit, Bool.and_eq_true, decide_eq_true_eq, UInt32.le_iff_toNat_le] at h
  refine ⟨fun hb => ?_, ?_⟩
  · have hval : 48 ≤ c.toNat ∧ c.toNat ≤ 57 := h
    simp only [isBlank, Bool.or_eq_true, Bool.and_eq_true, decide_eq_true_eq, beq_iff_eq] at hb
    omega
  · rintro rfl
    exact absurd h (by decide)

theorem plain_of_mem_cell (h : ∀ name ∈ group, IsName name) (hg : group ≠ []) :
    ∀ c ∈ (cell group).toList, Plain c := by
  intro c hc
  rcases mem_cell hg hc with hc | ⟨name, hn, hc⟩
  · rcases List.mem_pair.mp hc with rfl | rfl
    · decide
    · decide
  · rcases mem_item hc with rfl | rfl | hc
    · decide
    · decide
    · obtain ⟨-, hopen, -, hblank⟩ := (h name hn).2 c hc
      exact ⟨fun hb => absurd hb (by simp [hblank]), hopen⟩

theorem forall_mem_rowLine {P : Char → Prop} (hplain : ∀ c, Plain c → P c) (hcell : ∀ c ∈ (cell group).toList, P c) :
    ∀ c ∈ rowLine rank group, P c := by
  have hblank : P ' ' := hplain _ (by decide)
  have hbar : P '|' := hplain _ (by decide)
  rw [rowLine, toList_rankCell]
  simp only [List.forall_mem_append]
  refine ⟨⟨⟨⟨?_, fun c hc => hplain c (plain_of_isDigit (isDigit_of_mem_toString hc))⟩, ?_⟩, hcell⟩, ?_⟩
  all_goals simp [hblank, hbar]

theorem shows_rowLine (h : ∀ name ∈ group, IsName name) : Shows rank group (rowLine rank group) where
  cells := ⟨(cell group).toList, rfl, names_cell h⟩
  bars := bars_rowLine rank group
  line := by
    refine forall_mem_rowLine (fun _ => And.left) fun c hc => ?_
    by_cases hg : group = []
    · subst hg
      have hmark : emptyMark.all (!isBlank ·) := by decide
      exact fun hb => absurd hb (by simpa using List.all_eq_true.mp hmark c hc)
    · exact (plain_of_mem_cell h hg c hc).1
  marked := by
    constructor
    · intro hmark
      by_contra hg
      have hopen : '(' ∈ rowLine rank group := hmark.subset (by decide : '(' ∈ emptyMark)
      exact (forall_mem_rowLine (fun _ => id) (plain_of_mem_cell h hg) _ hopen).2 rfl
    · rintro rfl
      exact ⟨_, _, rfl⟩

theorem newline_not_mem_rowLine (h : ∀ name ∈ group, IsName name) : '\n' ∉ rowLine rank group := fun hc =>
  absurd ((shows_rowLine h).line _ hc (by decide)) (by decide)

theorem rowLine_ne_nil (rank : Nat) (group : List String) : rowLine rank group ≠ [] := by
  simp [rowLine]

theorem rowLine_inj {group' : List String} (h : ∀ name ∈ group, IsName name) (h' : ∀ name ∈ group', IsName name)
    (he : rowLine rank group = rowLine rank group') : group = group' := by
  have hcell : (cell group).toList = (cell group').toList :=
    List.append_cancel_left (List.append_cancel_right he)
  rw [← names_cell h, hcell, names_cell h']

end Layering.Markdown
