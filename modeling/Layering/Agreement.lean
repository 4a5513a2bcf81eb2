import Layering.Violation

namespace Layering

/-- An order is the same table or the same error from its text and from its bytes, and every name in the table has a
rank. -/
def RankTable.readersAgree (text : String) : Bool :=
  match parse text, ofBytes text.toUTF8 with
  | .ok a, .ok b => a == b && a.groups.all fun group => group.all fun name => (a.rank name).isSome
  | .error a, .error b => a.message == b.message
  | _, _ => false

namespace Model

def modesAgree (m : Model) (t : RankTable) : Bool :=
  match m.validate t .first, m.validate t .all with
  | .ok first, .ok all => first.head? == all.head?
  | .error a, .error b => a == b
  | _, _ => false

variable {m : Model} {t : RankTable} {p : Package} {low : Nat}

theorem scanDependencies_first (reported ds : List Symbol) :
    m.scanDependencies t .first p low reported ds = (m.scanDependencies t .all p low reported ds).take 1 := by
  induction ds generalizing reported with
  | nil => rfl
  | cons d ds ih =>
      unfold scanDependencies
      cases m.resolve d with
      | external => exact ih reported
      | internal owner =>
          dsimp only
          cases t.rank owner.name with
          | none => exact ih reported
          | some high =>
              by_cases hd : high ≤ low ∨ d ∈ reported
              · simpa only [hd, if_true] using ih reported
              · simp [hd]

theorem scanPackages_first (ps : List Package) :
    m.scanPackages t .first ps = (m.scanPackages t .all ps).take 1 := by
  induction ps with
  | nil => rfl
  | cons p ps ih =>
      unfold scanPackages
      cases t.rank p.name with
      | none => exact ih
      | some low =>
          simp only [scanDependencies_first]
          cases hs : m.scanDependencies t .all p low [] p.dependencies with
          | nil => simpa using ih
          | cons v vs => simp

theorem validate_first (m : Model) (t : RankTable) : m.validate t .first = (m.validate t .all).map (·.take 1) := by
  rw [validate, validate, scanPackages_first]
  cases m.complete t <;> rfl

theorem modesAgree_eq_true (m : Model) (t : RankTable) : m.modesAgree t = true := by
  rw [modesAgree, validate_first]
  cases m.validate t .all with
  | error e => simp [Except.map]
  | ok all => simp [Except.map, List.head?_take]

end Model

end Layering
