import Layering.Proofs.Json.Canonical
import Layering.Proofs.Lists

namespace Layering.Json

/-- A step into a value: to an item of an array, or to what an object has under a key. -/
inductive Step where
  | item (i : Nat)
  | field (key : String)
  deriving DecidableEq

def step? : Json → Step → Option Json
  | arr items, .item i => items[i]?
  | obj fields, .field key => fields.lookup key
  | _, _ => none

def at? (v : Json) (place : List Step) : Option Json := place.foldlM step? v

/-- A value apart from the values in it: of an array there remains its length, of an object its keys. -/
def shell : Json → Json
  | arr items => arr (items.map fun _ => null)
  | obj fields => obj (fields.map fun f => (f.1, null))
  | v => v

def keys : Json → List String
  | obj fields => fields.map (·.1)
  | _ => []

inductive Keyed : Json → Prop
  | null : Keyed .null
  | bool (b : Bool) : Keyed (.bool b)
  | int (i : Int) : Keyed (.int i)
  | float (bits : UInt64) : Keyed (.float bits)
  | str (s : String) : Keyed (.str s)
  | arr {vs : List Json} (h : ∀ v ∈ vs, Keyed v) : Keyed (.arr vs)
  | obj {fs : List (String × Json)} (hk : (fs.map (·.1)).Nodup) (h : ∀ f ∈ fs, Keyed f.2) : Keyed (.obj fs)

variable {n : Nat} {v w u : Json} {s : Step} {key : String} {fs : List (String × Json)}

theorem Canonical.keyed (h : Canonical n v) : v.Keyed := by
  induction h with
  | null => exact .null
  | bool b => exact .bool b
  | int => exact .int _
  | float bits => exact .float bits
  | str s => exact .str s
  | arr _ ih => exact .arr ih
  | obj hk _ ih => exact .obj (hk.imp fun hlt he => absurd (he ▸ hlt) (String.lt_irrefl _)) ih

theorem keyed_of_parse {text : String} (h : parse text = some v) : v.Keyed :=
  (canonical_of_parseTo h).keyed

@[simp] theorem keyed_str (text : String) : (Json.str text).Keyed := .str text

@[simp] theorem keyed_arr_iff {vs : List Json} : (Json.arr vs).Keyed ↔ ∀ v ∈ vs, v.Keyed :=
  ⟨fun h => by cases h; assumption, .arr⟩

@[simp] theorem keyed_obj_iff : (Json.obj fs).Keyed ↔ (fs.map (·.1)).Nodup ∧ ∀ f ∈ fs, f.2.Keyed :=
  ⟨fun h => by cases h; exact ⟨‹_›, ‹_›⟩, fun h => .obj h.1 h.2⟩

theorem Keyed.lookup (h : (Json.obj fs).Keyed) (hu : fs.lookup key = some u) : u.Keyed :=
  (keyed_obj_iff.mp h).2 _ (List.mem_of_lookup hu)

theorem at?_cons (v : Json) (s : Step) (place : List Step) : v.at? (s :: place) = (v.step? s).bind (·.at? place) :=
  List.foldlM_cons

theorem at?_append (v : Json) (place more : List Step) : v.at? (place ++ more) = (v.at? place).bind (·.at? more) :=
  List.foldlM_append

theorem at?_singleton (v : Json) (s : Step) : v.at? [s] = v.step? s := by
  rw [at?_cons]
  exact Option.bind_fun_some (v.step? s)

theorem step?_shell (v : Json) (s : Step) : v.shell.step? s = (v.step? s).map fun _ => .null := by
  cases v with
  | arr items =>
      cases s with
      | item i => exact List.getElem?_map
      | field key => rfl
  | obj fields =>
      cases s with
      | item i => rfl
      | field key => exact List.lookup_mapValues (fun _ _ => Json.null) fields key
  | null | bool | int | float | str => cases s <;> rfl

theorem keys_shell (v : Json) : v.shell.keys = v.keys := by
  cases v with
  | obj fields => exact List.map_map
  | null | bool | int | float | str | arr => rfl

/-- The same steps lead into all values of one shell. -/
theorem step?_of_shell (h : v.shell = w.shell) (s : Step) :
    v.step? s = none ∧ w.step? s = none ∨ ∃ x y, v.step? s = some x ∧ w.step? s = some y := by
  have hs := step?_shell v s
  rw [h, step?_shell] at hs
  cases hv : v.step? s <;> cases hw : w.step? s <;> simp [hv, hw] at hs ⊢

theorem eq_of_steps (hk : v.keys.Nodup) (hshell : v.shell = w.shell) (hsteps : ∀ s, v.step? s = w.step? s) : v = w := by
  have hkeys : v.keys = w.keys := by rw [← keys_shell, hshell, keys_shell]
  cases v with
  | arr items =>
      cases w with
      | arr items' => exact congrArg _ (List.ext_getElem? fun i => hsteps (.item i))
      | null | bool | int | float | str | obj => cases hshell
  | obj fields =>
      cases w with
      | obj fields' => exact congrArg _ (List.eq_of_lookup_eq hkeys hk fun key => hsteps (.field key))
      | null | bool | int | float | str | arr => cases hshell
  | null | bool | int | float | str =>
      cases w with
      | arr | obj => cases hshell
      | null | bool | int | float | str => exact hshell

end Layering.Json
