import Layering.Json.Reader
import Layering.Proofs.Json.Scan

namespace Layering.Json

open Token Scan

namespace Writer

structure Layout.Spaced (l : Layout) : Prop where
  line : ∀ depth, ∀ c ∈ l.line depth, isSpace c
  gap : ∀ c ∈ l.gap, isSpace c

theorem pretty_spaced : pretty.Spaced := by
  refine ⟨fun depth c hc => ?_, fun c hc => ?_⟩
  · simp only [pretty, List.mem_cons, List.mem_replicate] at hc
    rcases hc with rfl | ⟨-, rfl⟩ <;> rfl
  · obtain rfl := List.mem_singleton.mp hc
    rfl

variable {l : Layout} {s : Scan} {ts : List Token} {depth : Nat} {rest : List Char}

/-- The text of a value, wherever it stands, is scanned as the tokens of the value. -/
def Scans (l : Layout) (v : Json) : Prop :=
  ∀ depth ts, ∃ s, Ends s ((tokens v).reverse ++ ts) ∧
    ∀ rest, (value l depth v ++ rest).foldlM Scan.step ⟨ts, .blank⟩ = rest.foldlM Scan.step s

theorem Layout.Spaced.foldlM_items (hl : l.Spaced) (depth : Nat) {vs : List Json} (hv : ∀ v ∈ vs, Scans l v)
    (hs : s.Ends ts) (rest : List Char) :
    (items l depth vs ++ rest).foldlM Scan.step s =
      rest.foldlM Scan.step ⟨(itemTokens vs).reverse ++ ts, .blank⟩ := by
  induction vs generalizing s ts with
  | nil =>
      have hc := hs.foldlM_mark (rfl : ofMark ']' = some .closeArray) (hl.line depth) rest
      simpa [Writer.items, itemTokens] using hc
  | cons v vs ih =>
      have hc := hs.foldlM_spaced (rfl : ofMark ',' = some .comma) (hl.line (depth + 1))
        (value l (depth + 1) v ++ (Writer.items l depth vs ++ rest))
      obtain ⟨s', he, hf⟩ := hv v (by simp) (depth + 1) (.comma :: ts)
      have hi := ih (fun w hw => hv w (by simp [hw])) he
      rw [hf, hi] at hc
      simpa [Writer.items, itemTokens] using hc

theorem Layout.Spaced.foldlM_member (hl : l.Spaced) {v : Json} (hv : Scans l v) (depth : Nat) (key : String)
    (ts : List Token) :
    ∃ s, Ends s ((tokens v).reverse ++ .colon :: .scalar (.str key) :: ts) ∧
      ∀ rest, (string key ++ ':' :: (l.gap ++ (value l depth v ++ rest))).foldlM Scan.step ⟨ts, .blank⟩ =
        rest.foldlM Scan.step s := by
  obtain ⟨s, he, hf⟩ := hv depth (.colon :: .scalar (.str key) :: ts)
  refine ⟨s, he, fun rest => ?_⟩
  have hc := (Ends.blank (.scalar (.str key) :: ts)).foldlM_spaced (rfl : ofMark ':' = some .colon) hl.gap
    (value l depth v ++ rest)
  rw [foldlM_string, ← hf, ← hc]

theorem Layout.Spaced.foldlM_fields (hl : l.Spaced) (depth : Nat) {fs : List (String × Json)}
    (hv : ∀ f ∈ fs, Scans l f.2) (hs : s.Ends ts) (rest : List Char) :
    (fields l depth fs ++ rest).foldlM Scan.step s =
      rest.foldlM Scan.step ⟨(fieldTokens fs).reverse ++ ts, .blank⟩ := by
  induction fs generalizing s ts with
  | nil =>
      have hc := hs.foldlM_mark (rfl : ofMark '}' = some .closeObject) (hl.line depth) rest
      simpa [Writer.fields, fieldTokens] using hc
  | cons f fs ih =>
      have hc := hs.foldlM_spaced (rfl : ofMark ',' = some .comma) (hl.line (depth + 1))
        (string f.1 ++ ':' :: (l.gap ++ (value l (depth + 1) f.2 ++ (Writer.fields l depth fs ++ rest))))
      obtain ⟨s', he, hf⟩ := hl.foldlM_member (hv f (by simp)) (depth + 1) f.1 (.comma :: ts)
      have hi := ih (fun g hg => hv g (by simp [hg])) he
      rw [hf, hi] at hc
      simpa [Writer.fields, fieldTokens] using hc

theorem Layout.Spaced.scans (hl : l.Spaced) {n : Nat} {v : Json} (hv : Readable n v) : Scans l v := by
  induction hv with
  | null =>
      intro depth ts
      exact ⟨⟨ts, .word ['l', 'l', 'u', 'n']⟩, .word rfl, fun rest => rfl⟩
  | bool b =>
      intro depth ts
      cases b with
      | true => exact ⟨⟨ts, .word ['e', 'u', 'r', 't']⟩, .word rfl, fun rest => rfl⟩
      | false => exact ⟨⟨ts, .word ['e', 's', 'l', 'a', 'f']⟩, .word rfl, fun rest => rfl⟩
  | @int _ i hlow hhigh =>
      intro depth ts
      have hn : Number.ofChars (toString i).toList.reverse.reverse = some (.int i) := by
        rw [List.reverse_reverse]
        exact Number.ofChars_toString hlow hhigh
      refine ⟨_, .number hn, fun rest => ?_⟩
      rw [Writer.value, List.foldlM_append, foldlM_int]
      rfl
  | str text =>
      intro depth ts
      exact ⟨⟨.scalar (.str text) :: ts, .blank⟩, .blank _, fun rest => foldlM_string text rest⟩
  | @arr _ vs h ih =>
      intro depth ts
      cases vs with
      | nil => exact ⟨⟨.closeArray :: .openArray :: ts, .blank⟩, .blank _, fun rest => rfl⟩
      | cons v vs =>
          obtain ⟨s, he, hf⟩ := ih v (by simp) (depth + 1) (.openArray :: ts)
          refine ⟨⟨(itemTokens vs).reverse ++ ((tokens v).reverse ++ .openArray :: ts), .blank⟩, ?_, fun rest => ?_⟩
          · simpa [tokens] using Ends.blank _
          · have hc := (Ends.blank ts).foldlM_spaced (rfl : ofMark '[' = some .openArray) (hl.line (depth + 1))
              (value l (depth + 1) v ++ (items l depth vs ++ rest))
            rw [hf, hl.foldlM_items depth (fun w hw => ih w (by simp [hw])) he] at hc
            simpa [Writer.value] using hc
  | @obj _ fs h ih =>
      intro depth ts
      cases fs with
      | nil => exact ⟨⟨.closeObject :: .openObject :: ts, .blank⟩, .blank _, fun rest => rfl⟩
      | cons f fs =>
          obtain ⟨s, he, hf⟩ := hl.foldlM_member (ih f (by simp)) (depth + 1) f.1 (.openObject :: ts)
          refine ⟨⟨(fieldTokens fs).reverse ++
            ((tokens f.2).reverse ++ .colon :: .scalar (.str f.1) :: .openObject :: ts), .blank⟩, ?_, fun rest => ?_⟩
          · simpa [tokens] using Ends.blank _
          · have hc := (Ends.blank ts).foldlM_spaced (rfl : ofMark '{' = some .openObject) (hl.line (depth + 1))
              (string f.1 ++ ':' :: (l.gap ++ (value l (depth + 1) f.2 ++ (fields l depth fs ++ rest))))
            rw [hf, hl.foldlM_fields depth (fun g hg => ih g (by simp [hg])) he] at hc
            simpa [Writer.value] using hc

theorem Layout.Spaced.scan_value (hl : l.Spaced) {n : Nat} {v : Json} (hv : Readable n v) (depth : Nat) :
    Token.scan (value l depth v) = some (tokens v) := by
  obtain ⟨s, he, hf⟩ := hl.scans hv depth []
  have hf' := hf []
  rw [List.append_nil] at hf'
  simp [Token.scan, Scan.start, hf', he.settle]

end Writer

mutual

/-- The keys of every object in order, each with the last of its values. -/
def sorted : Json → Json
  | .arr vs => .arr (sortedItems vs)
  | .obj fs => .obj (sortedFields [] fs)
  | v => v

def sortedItems : List Json → List Json
  | [] => []
  | v :: vs => sorted v :: sortedItems vs

def sortedFields (read : List (String × Json)) : List (String × Json) → List (String × Json)
  | [] => read
  | f :: fs => sortedFields (insertField f.1 (sorted f.2) read) fs

end

namespace Reader

/-- A value is expected, to be put into these containers. -/
def Awaits (limit : Nat) (s : State) (outer : List Container) : Prop :=
  ∀ t, t ≠ .closeArray → step limit s t = begin limit outer t

variable {limit n : Nat} {s : State} {outer : List Container}

theorem awaits_value : Awaits limit (.value outer) outer := fun _ _ => rfl

theorem awaits_firstItem : Awaits limit (.firstItem outer) (.array [] :: outer) := by
  intro t ht
  cases t with
  | closeArray => exact absurd rfl ht
  | _ => rfl

theorem Awaits.scalar (hs : Awaits limit s outer) (v : Json) : step limit s (.scalar v) = deliver v outer := by
  rw [hs _ (by simp)]
  rfl

theorem Awaits.openArray (hs : Awaits limit s outer) (h : outer.length < limit) :
    step limit s .openArray = some (.firstItem outer) := by
  rw [hs _ (by simp)]
  simp [begin, h]

theorem Awaits.openObject (hs : Awaits limit s outer) (h : outer.length < limit) :
    step limit s .openObject = some (.firstKey outer) := by
  rw [hs _ (by simp)]
  simp [begin, h]

/-- The tokens of a value, of this depth, are read as the value with its keys in order. -/
def Reads (limit n : Nat) (v : Json) : Prop :=
  ∀ s outer, Awaits limit s outer → outer.length + n ≤ limit → ∀ rest,
    (tokens v ++ rest).foldlM (step limit) s = deliver (sorted v) outer >>= (rest.foldlM (step limit) ·)

theorem reads_scalar {v : Json} (ht : tokens v = [.scalar v]) (hv : sorted v = v) : Reads limit n v := by
  intro s outer hs _ rest
  rw [ht, hv, List.singleton_append, List.foldlM_cons, hs.scalar]

theorem foldlM_itemTokens {vs : List Json} (hv : ∀ v ∈ vs, Reads limit n v) (hn : outer.length + (n + 1) ≤ limit)
    (read : List Json) (rest : List Token) :
    (itemTokens vs ++ rest).foldlM (step limit) (.next (.array read) outer) =
      deliver (.arr (read.reverse ++ sortedItems vs)) outer >>= (rest.foldlM (step limit) ·) := by
  induction vs generalizing read with
  | nil => simp [itemTokens, sortedItems, step]
  | cons v vs ih =>
      have hlen : (Container.array read :: outer).length + n ≤ limit := by
        rw [List.length_cons]
        omega
      have hr := hv v (by simp) (.value (.array read :: outer)) _ awaits_value hlen (itemTokens vs ++ rest)
      have hi := ih (fun w hw => hv w (by simp [hw])) (sorted v :: read)
      have hstep : step limit (.next (.array read) outer) .comma = some (.value (.array read :: outer)) := rfl
      rw [itemTokens, List.cons_append, List.append_assoc, List.foldlM_cons, hstep]
      refine hr.trans ?_
      simpa [deliver, sortedItems] using hi

theorem foldlM_member {v : Json} (hv : Reads limit n v) (hn : outer.length + (n + 1) ≤ limit)
    (read : List (String × Json)) (key : String) (rest : List Token) :
    (.colon :: (tokens v ++ rest)).foldlM (step limit) (.colon read key outer) =
      rest.foldlM (step limit) (.next (.object (insertField key (sorted v) read)) outer) := by
  have hlen : (Container.field read key :: outer).length + n ≤ limit := by
    rw [List.length_cons]
    omega
  have hr := hv (.value (.field read key :: outer)) _ awaits_value hlen rest
  rw [List.foldlM_cons, step]
  exact hr

theorem foldlM_fieldTokens {fs : List (String × Json)} (hv : ∀ f ∈ fs, Reads limit n f.2)
    (hn : outer.length + (n + 1) ≤ limit) (read : List (String × Json)) (rest : List Token) :
    (fieldTokens fs ++ rest).foldlM (step limit) (.next (.object read) outer) =
      deliver (.obj (sortedFields read fs)) outer >>= (rest.foldlM (step limit) ·) := by
  induction fs generalizing read with
  | nil => simp [fieldTokens, sortedFields, step]
  | cons f fs ih =>
      have hm := foldlM_member (hv f (by simp)) hn read f.1 (fieldTokens fs ++ rest)
      rw [ih fun g hg => hv g (by simp [hg])] at hm
      rw [sortedFields, ← hm]
      simp [fieldTokens, step]

theorem reads {v : Json} (hv : Readable n v) : Reads limit n v := by
  induction hv with
  | null => exact reads_scalar rfl rfl
  | bool b => exact reads_scalar rfl rfl
  | int hlow hhigh => exact reads_scalar rfl rfl
  | str text => exact reads_scalar rfl rfl
  | @arr n vs h ih =>
      intro s outer hs hn rest
      have ho := hs.openArray (by omega)
      cases vs with
      | nil =>
          change (Token.openArray :: .closeArray :: rest).foldlM (step limit) s = _
          rw [List.foldlM_cons, ho]
          rfl
      | cons v vs =>
          have hlen : (Container.array [] :: outer).length + n ≤ limit := by
            rw [List.length_cons]
            omega
          have hr := ih v (by simp) _ _ awaits_firstItem hlen (itemTokens vs ++ rest)
          have hvs : ∀ w ∈ vs, Reads limit n w := fun w hw => ih w (by simp [hw])
          have hi := foldlM_itemTokens hvs hn [sorted v] rest
          rw [tokens, List.cons_append, List.append_assoc, List.foldlM_cons, ho]
          refine hr.trans ?_
          simpa [deliver, sorted, sortedItems] using hi
  | @obj n fs h ih =>
      intro s outer hs hn rest
      have ho := hs.openObject (by omega)
      cases fs with
      | nil =>
          change (Token.openObject :: .closeObject :: rest).foldlM (step limit) s = _
          rw [List.foldlM_cons, ho]
          rfl
      | cons f fs =>
          have hm := foldlM_member (ih f (by simp)) hn [] f.1 (fieldTokens fs ++ rest)
          rw [foldlM_fieldTokens (fun g hg => ih g (by simp [hg])) hn] at hm
          have hkey : step limit (.firstKey outer) (.scalar (.str f.1)) = some (.colon [] f.1 outer) := rfl
          rw [tokens, List.cons_append, List.cons_append, List.cons_append, List.append_assoc, List.foldlM_cons, ho,
            Option.bind_eq_bind, Option.bind_some, List.foldlM_cons, hkey]
          exact hm

end Reader

theorem parseTo_value {l : Writer.Layout} (hl : l.Spaced) {limit : Nat} {v : Json} (hv : Readable limit v) :
    parseTo limit (.ofList (Writer.value l 0 v)) = some (sorted v) := by
  have hs := hl.scan_value hv 0
  have hr := Reader.reads hv (.value []) [] Reader.awaits_value (Nat.le_of_eq (Nat.zero_add limit)) []
  simp only [List.append_nil, Reader.deliver, Option.bind_eq_bind, Option.bind_some, List.foldlM_nil] at hr
  simp [parseTo, hs, hr]

theorem parse_pretty {v : Json} (hv : Readable nestingLimit v) : parse v.pretty = some (sorted v) :=
  parseTo_value Writer.pretty_spaced hv

end Layering.Json
