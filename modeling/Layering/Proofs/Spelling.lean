import Layering.Proofs.Groups

namespace Layering

def groupText (names : List String) : String := "(" ++ ",".intercalate names ++ ")"

def orderText (below : List (List String)) (top : List String) : String :=
  String.join (below.map fun g => groupText g ++ ",") ++ groupText top

/-- How a group can stand in an order text: not at all without names, a single name as it is, and names in parentheses. -/
inductive GroupText : List String → String → Prop
  | empty : GroupText [] ""
  | bare (name : String) : GroupText [name] name
  | grouped (names : List String) : GroupText names (groupText names)

/-- The second text is the first one with blanks put in, at any place. -/
inductive Blanked : List Char → List Char → Prop
  | nil : Blanked [] []
  | keep (c : Char) {cs ds : List Char} (h : Blanked cs ds) : Blanked (c :: cs) (c :: ds)
  | blank {c : Char} (hc : isBlank c) {cs ds : List Char} (h : Blanked cs ds) : Blanked cs (c :: ds)

theorem Blanked.refl (cs : List Char) : Blanked cs cs := by
  induction cs with
  | nil => exact .nil
  | cons c cs ih => exact .keep c ih

theorem blanked_filter (cs : List Char) : Blanked (cs.filter (!isBlank ·)) cs := by
  induction cs with
  | nil => exact .nil
  | cons c cs ih =>
      cases hc : isBlank c with
      | true => simpa [hc] using ih.blank hc
      | false => simpa [hc] using ih.keep c

namespace RankTable

variable (t : RankTable)

def enter (names : List String) : RankTable := names.foldl add t

def enterLayers (below : List (List String)) : RankTable := below.foldl (fun t g => (t.enter g).openGroup) t

@[simp] theorem enter_cons (name : String) (names : List String) :
    t.enter (name :: names) = (t.add name).enter names := rfl

@[simp] theorem enterLayers_cons (g : List String) (below : List (List String)) :
    t.enterLayers (g :: below) = (t.enter g).openGroup.enterLayers below := rfl

theorem enter_of_nodup (names : List String) (h : (t.top ++ names).Nodup) :
    (t.enter names).below = t.below ∧ (t.enter names).top = t.top ++ names := by
  induction names generalizing t with
  | nil => exact ⟨rfl, (List.append_nil _).symm⟩
  | cons name names ih =>
      have hm : name ∉ t.top := fun hm => (List.nodup_append.mp h).2.2 name hm name (by simp) rfl
      have htop : (t.add name).top = t.top ++ [name] := by simp [add, hm]
      have hn : ((t.add name).top ++ names).Nodup := by simpa [htop] using h
      obtain ⟨hb, ht⟩ := ih (t.add name) hn
      exact ⟨hb, by simpa [htop] using ht⟩

theorem enterLayers_of_nodup (below : List (List String)) (ht : t.top = []) (h : ∀ g ∈ below, g.Nodup) :
    (t.enterLayers below).below = t.below ++ below ∧ (t.enterLayers below).top = [] := by
  induction below generalizing t with
  | nil => exact ⟨(List.append_nil _).symm, ht⟩
  | cons g below ih =>
      have hg : (t.top ++ g).Nodup := by simpa [ht] using h g (by simp)
      obtain ⟨hb, htop⟩ := t.enter_of_nodup g hg
      have hopen : (t.enter g).openGroup.below = t.below ++ [g] := by simp [openGroup, hb, htop, ht]
      obtain ⟨hb', ht'⟩ := ih (t.enter g).openGroup rfl fun g' hg' => h g' (by simp [hg'])
      exact ⟨by simpa [hopen] using hb', ht'⟩

end RankTable

namespace OrderScan

/-- From `s` the characters lead to `s'`, wherever they stand in a text. -/
def Reads (cs : List Char) (s s' : OrderScan) : Prop :=
  ∀ n, cs.foldlM step { s with position := n } = .ok { s' with position := n + cs.length }

variable {cs ds : List Char} {s s' s'' : OrderScan} {names : List String}

theorem reads_nil (s : OrderScan) : Reads [] s s := fun _ => rfl

theorem Reads.append (h : Reads cs s s') (h' : Reads ds s' s'') : Reads (cs ++ ds) s s'' := by
  intro n
  rw [List.foldlM_append, h n, List.length_append, ← Nat.add_assoc]
  exact h' (n + cs.length)

/-- Nothing but the next position depends on the position. -/
theorem step_at {c : Char} (h : s.step c = .ok s') (n : Nat) :
    { s with position := n }.step c = .ok { s' with position := n + 1 } := by
  unfold step at h ⊢
  dsimp only at h ⊢
  split_ifs at h ⊢ <;> cases h <;> rfl

theorem reads_of_foldlM (h : cs.foldlM step s = .ok s') : Reads cs s s' := by
  induction cs generalizing s with
  | nil => exact Except.ok.inj h ▸ reads_nil s
  | cons c cs ih =>
      rw [List.foldlM_cons, Except.bind_eq_ok] at h
      obtain ⟨next, hc, hcs⟩ := h
      intro n
      rw [List.foldlM_cons, step_at hc n, List.length_cons, Nat.add_comm cs.length, ← Nat.add_assoc]
      exact ih hcs (n + 1)

theorem Reads.cons {c : Char} (h : Reads (c :: cs) s s') : ∃ next, Reads [c] s next ∧ Reads cs next s' := by
  have hz := h 0
  rw [List.foldlM_cons, Except.bind_eq_ok] at hz
  obtain ⟨next, hc, hcs⟩ := hz
  have hfirst : Reads [c] { s with position := 0 } next := reads_of_foldlM (by rw [List.foldlM_cons, hc]; rfl)
  have hrest : Reads cs next { s' with position := 0 + (c :: cs).length } := reads_of_foldlM hcs
  exact ⟨next, hfirst, hrest⟩

theorem reads_blank {c : Char} (hc : isBlank c) (s : OrderScan) : Reads [c] s s := by
  have hcomma : c ≠ ',' := by rintro rfl; revert hc; decide
  have hopen : c ≠ '(' := by rintro rfl; revert hc; decide
  have hclose : c ≠ ')' := by rintro rfl; revert hc; decide
  intro n
  simp [step, hcomma, hopen, hclose, hc]

theorem Reads.blanked (h : Reads cs s s') (hb : Blanked cs ds) : Reads ds s s' := by
  induction hb generalizing s with
  | nil => exact h
  | keep c _ ih =>
      obtain ⟨next, hc, hcs⟩ := h.cons
      exact hc.append (ih hcs)
  | blank hc _ ih => exact (reads_blank hc s).append (ih h)

theorem reads_name (h : ∀ c ∈ cs, IsNameChar c) : Reads cs s { s with name := cs.reverse ++ s.name } := by
  induction cs generalizing s with
  | nil => exact reads_nil s
  | cons c cs ih =>
      obtain ⟨hcomma, hopen, hclose, hblank⟩ := h c (by simp)
      have hc : Reads [c] s { s with name := c :: s.name } := by
        intro n
        simp [step, hcomma, hopen, hclose, hblank]
      have hcs := hc.append (ih fun d hd => h d (by simp [hd]))
      simpa using hcs

theorem reads_comma (hn : s.name ≠ []) :
    Reads [','] s { s with table := if s.grouped then s.endName else s.endName.openGroup, name := [] } := by
  intro n
  simp [step, endName, hn]

theorem reads_opening (s : OrderScan) : Reads ['('] s { s with grouped := true } := fun _ => rfl

theorem reads_closing (s : OrderScan) : Reads [')'] s { s with grouped := false } := fun _ => rfl

theorem Reads.parse {text : String} (h : Reads text.toList .start s) :
    RankTable.parse text = if s.grouped then .error .parenthesesMismatch else .ok s.endName := by
  have hs : text.toList.foldlM step .start = .ok { s with position := 0 + text.toList.length } := h 0
  rw [RankTable.parse, hs]
  rfl

theorem endName_name {name : String} (h : name ≠ "") (t : RankTable) (grouped : Bool) (n : Nat) :
    endName ⟨t, name.toList.reverse, grouped, n⟩ = t.add name := by
  simp [endName, h]

theorem reads_names (h : ∀ name ∈ names, IsName name) (t : RankTable) :
    ∃ s', Reads (",".intercalate names).toList ⟨t, [], true, 0⟩ s' ∧ s'.grouped = true ∧
      s'.endName = t.enter names ∧ (names ≠ [] → s'.name ≠ []) := by
  induction names generalizing t with
  | nil => exact ⟨_, reads_nil _, rfl, rfl, fun hn => absurd rfl hn⟩
  | cons name names ih =>
      obtain ⟨hne, hchars⟩ := h name (by simp)
      have hname : Reads name.toList ⟨t, [], true, 0⟩ ⟨t, name.toList.reverse, true, 0⟩ := by
        simpa using reads_name (s := ⟨t, [], true, 0⟩) hchars
      have hnamed : name.toList.reverse ≠ [] := by simpa using hne
      cases names with
      | nil => exact ⟨_, by simpa using hname, rfl, endName_name hne t true 0, fun _ => hnamed⟩
      | cons other names =>
          have hcomma : Reads [','] ⟨t, name.toList.reverse, true, 0⟩ ⟨t.add name, [], true, 0⟩ := by
            simpa [endName_name hne] using reads_comma (s := ⟨t, name.toList.reverse, true, 0⟩) hnamed
          obtain ⟨s', hs, hg, he, hn⟩ := ih (fun name hname => h name (by simp [hname])) (t.add name)
          refine ⟨s', ?_, hg, he, fun _ => hn (by simp)⟩
          simpa using (hname.append hcomma).append hs

theorem reads_groupText {text : String} (hg : GroupText names text) (h : ∀ name ∈ names, IsName name) (t : RankTable) :
    ∃ s', Reads text.toList ⟨t, [], false, 0⟩ s' ∧ s'.grouped = false ∧ s'.endName = t.enter names ∧
      (names ≠ [] → s'.name ≠ []) := by
  cases hg with
  | empty => exact ⟨_, reads_nil _, rfl, rfl, fun hn => absurd rfl hn⟩
  | bare =>
      obtain ⟨hne, hchars⟩ := h text (by simp)
      refine ⟨⟨t, text.toList.reverse, false, 0⟩, ?_, rfl, endName_name hne t false 0, fun _ => by simpa using hne⟩
      simpa using reads_name (s := ⟨t, [], false, 0⟩) hchars
  | grouped =>
      obtain ⟨s', hs, -, he, hn⟩ := reads_names h t
      refine ⟨{ s' with grouped := false }, ?_, rfl, he, hn⟩
      simpa [groupText] using ((reads_opening ⟨t, [], false, 0⟩).append hs).append (reads_closing s')

theorem reads_layer {text : String} (hg : GroupText names text) (h : ∀ name ∈ names, IsName name) (hne : names ≠ [])
    (t : RankTable) : Reads (text ++ ",").toList ⟨t, [], false, 0⟩ ⟨(t.enter names).openGroup, [], false, 0⟩ := by
  obtain ⟨s', hs, hgrouped, he, hn⟩ := reads_groupText hg h t
  have hcomma := hs.append (reads_comma (hn hne))
  intro n
  simpa [hgrouped, he] using hcomma n

theorem reads_layers {below : List (List String)} {texts : List String} (hg : List.Forall₂ GroupText below texts)
    (h : ∀ g ∈ below, g ≠ [] ∧ ∀ name ∈ g, IsName name) (t : RankTable) :
    Reads (String.join (texts.map (· ++ ","))).toList ⟨t, [], false, 0⟩ ⟨t.enterLayers below, [], false, 0⟩ := by
  induction hg generalizing t with
  | nil => exact reads_nil _
  | @cons g text below texts hg _ ih =>
      obtain ⟨hne, hnames⟩ := h g (by simp)
      have hbelow := ih (fun g' hg' => h g' (by simp [hg'])) (t.enter g).openGroup
      simpa using (reads_layer hg hnames hne t).append hbelow

end OrderScan

theorem intercalate_concat (texts : List String) (last : String) :
    ",".intercalate (texts ++ [last]) = String.join (texts.map (· ++ ",")) ++ last := by
  induction texts with
  | nil => simp
  | cons text texts ih =>
      have hcons : ∀ rest : List String, rest ≠ [] →
          ",".intercalate (text :: rest) = text ++ "," ++ ",".intercalate rest := by
        intro rest hr
        cases rest with
        | nil => exact absurd rfl hr
        | cons other rest => simp
      rw [List.cons_append, hcons _ (by simp), ih, List.map_cons, String.join_cons]
      simp only [String.append_assoc]

namespace RankTable

variable {below : List (List String)} {top : List String}

theorem exists_parse_layers {text : String} {texts : List String} {last : String}
    (hb : ∀ g ∈ below, g ≠ []) (h : ∀ g ∈ below ++ [top], g.Nodup ∧ ∀ name ∈ g, IsName name)
    (hg : List.Forall₂ GroupText below texts) (hlast : GroupText top last)
    (htext : Blanked (String.join (texts.map (· ++ ",")) ++ last).toList text.toList) :
    ∃ t, parse text = .ok t ∧ t.groups = below ++ [top] := by
  have htop := h top (by simp)
  have hbelow : ∀ g ∈ below, g.Nodup ∧ ∀ name ∈ g, IsName name := fun g hg => h g (by simp [hg])
  obtain ⟨s, hs, hgrouped, he, -⟩ := OrderScan.reads_groupText hlast htop.2 (empty.enterLayers below)
  have hlayers := OrderScan.reads_layers hg (fun g hg => ⟨hb g hg, (hbelow g hg).2⟩) empty
  have hread := hlayers.append hs
  rw [← String.toList_append] at hread
  refine ⟨s.endName, by rw [(hread.blanked htext).parse, hgrouped]; rfl, ?_⟩
  obtain ⟨hlow, hempty⟩ := empty.enterLayers_of_nodup below rfl fun g hg => (hbelow g hg).1
  obtain ⟨hlow', htop'⟩ := (empty.enterLayers below).enter_of_nodup top (by simpa [hempty] using htop.1)
  rw [he, groups, hlow', hlow, htop', hempty]
  rfl

theorem exists_parse_orderText (hb : ∀ g ∈ below, g ≠ [])
    (h : ∀ g ∈ below ++ [top], g.Nodup ∧ ∀ name ∈ g, IsName name) :
    ∃ t, parse (orderText below top) = .ok t ∧ t.groups = below ++ [top] := by
  have hg : List.Forall₂ GroupText below (below.map groupText) :=
    List.forall₂_map_right_iff.mpr (List.forall₂_same.mpr fun g _ => .grouped g)
  refine exists_parse_layers hb h hg (.grouped top) ?_
  rw [List.map_map]
  exact .refl _

/-- However the groups of a table are written, the single names in parentheses or bare, and whatever blanks are put in
anywhere, the table is read back. -/
theorem parse_respelled {text again : String} {t : RankTable} {texts : List String} (ht : parse text = .ok t)
    (hg : List.Forall₂ GroupText t.groups texts) (hb : Blanked (",".intercalate texts).toList again.toList) :
    parse again = .ok t := by
  have hc := (scanned_of_parse ht).consistent
  obtain ⟨lows, last, hlows, hlast, rfl⟩ := List.forall₂_concat_left_iff.mp hg
  rw [intercalate_concat] at hb
  have hgroups : ∀ g ∈ t.below ++ [t.top], g.Nodup ∧ ∀ name ∈ g, IsName name := fun g hg => ⟨hc.nodup g hg, hc.named g hg⟩
  obtain ⟨t', ht', hg'⟩ := exists_parse_layers hc.filled hgroups hlows hlast hb
  rw [ht', (scanned_of_parse ht').consistent.eq_of_groups hc hg']

theorem parse_respelled_twice :
    let t : RankTable := ⟨[["core", "b"], ["core"], ["d"]], [], [("core", 1), ("b", 0), ("d", 2)]⟩
    parse "(core,b,core),core,(d)," = .ok t ∧
      List.Forall₂ GroupText t.groups ["(core,b)", "(core)", "d", ""] ∧
      Blanked (",".intercalate ["(core,b)", "(core)", "d", ""]).toList "(co re,\tb ) ,\u3000(core),d,\n".toList ∧
      parse "(co re,\tb ) ,\u3000(core),d,\n" = .ok t := by
  intro t
  have ht : parse "(core,b,core),core,(d)," = .ok t := by decide
  have hg : List.Forall₂ GroupText t.groups ["(core,b)", "(core)", "d", ""] :=
    .cons (.grouped ["core", "b"]) (.cons (.grouped ["core"]) (.cons (.bare "d") (.cons .empty .nil)))
  have hb : Blanked (",".intercalate ["(core,b)", "(core)", "d", ""]).toList
      "(co re,\tb ) ,\u3000(core),d,\n".toList := by
    have hlayout : (",".intercalate ["(core,b)", "(core)", "d", ""]).toList =
        "(co re,\tb ) ,\u3000(core),d,\n".toList.filter (!isBlank ·) := by decide
    rw [hlayout]
    exact blanked_filter _
  exact ⟨ht, hg, hb, parse_respelled ht hg hb⟩

end RankTable

end Layering
