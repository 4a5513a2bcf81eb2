import Mathlib.Data.List.Basic
import Mathlib.Data.List.Forall2

namespace Except

variable {ε ε' α β : Type}

theorem bind_eq_ok {x : Except ε α} {f : α → Except ε β} {b : β} :
    x >>= f = .ok b ↔ ∃ a, x = .ok a ∧ f a = .ok b := by
  cases x with
  | error e => simp [bind, Except.bind]
  | ok a => simp [bind, Except.bind]

theorem throw_bind_eq_ok {e : ε} {f : α → Except ε β} {b : β} : (throw e : Except ε α) >>= f = .ok b ↔ False := by
  simp [bind, Except.bind, throw, throwThe, MonadExceptOf.throw]

theorem pure_eq_ok {a b : α} : (pure a : Except ε α) = .ok b ↔ a = b := by
  simp [pure, Except.pure]

theorem mapError_eq_ok {f : ε → ε'} {x : Except ε α} {a : α} : x.mapError f = .ok a ↔ x = .ok a := by
  cases x <;> simp [Except.mapError]

theorem bind_eq_error {x : Except ε α} {f : α → Except ε β} {e : ε} :
    x >>= f = .error e ↔ x = .error e ∨ ∃ a, x = .ok a ∧ f a = .error e := by
  cases x with
  | error e' => simp [bind, Except.bind]
  | ok a => simp [bind, Except.bind]

theorem mapError_eq_error {f : ε → ε'} {x : Except ε α} {e' : ε'} :
    x.mapError f = .error e' ↔ ∃ e, x = .error e ∧ f e = e' := by
  cases x <;> simp [Except.mapError]

variable {f : α → Except ε β}

theorem mapM_eq_ok {as : List α} {bs : List β} :
    as.mapM f = .ok bs ↔ List.Forall₂ (fun a b => f a = .ok b) as bs := by
  induction as generalizing bs with
  | nil => simp [pure, Except.pure, eq_comm]
  | cons a as ih =>
      simp only [List.mapM_cons, bind_eq_ok, pure_eq_ok, ih, List.forall₂_cons_left_iff]
      constructor
      · rintro ⟨b, hb, bs, hbs, rfl⟩
        exact ⟨b, bs, hb, hbs, rfl⟩
      · rintro ⟨b, bs, hb, hbs, rfl⟩
        exact ⟨b, hb, bs, hbs, rfl⟩

theorem mapM_eq_error {as : List α} {e : ε} : as.mapM f = .error e ↔
    ∃ before a after, as = before ++ a :: after ∧ (∀ b ∈ before, ∃ y, f b = .ok y) ∧ f a = .error e := by
  induction as with
  | nil => simp [pure, Except.pure]
  | cons a as ih =>
      rw [List.mapM_cons, bind_eq_error]
      constructor
      · rintro (ha | ⟨b, hb, he⟩)
        · exact ⟨[], a, as, rfl, nofun, ha⟩
        · rcases bind_eq_error.mp he with he | ⟨bs, -, he⟩
          · obtain ⟨before, a', after, rfl, hbefore, ha'⟩ := ih.mp he
            exact ⟨a :: before, a', after, rfl, List.forall_mem_cons.mpr ⟨⟨b, hb⟩, hbefore⟩, ha'⟩
          · cases he
      · rintro ⟨before, a', after, hl, hbefore, ha'⟩
        cases before with
        | nil =>
            obtain ⟨rfl, rfl⟩ := List.cons.inj hl
            exact .inl ha'
        | cons b before =>
            obtain ⟨rfl, rfl⟩ := List.cons.inj hl
            obtain ⟨⟨y, hy⟩, hbefore⟩ := List.forall_mem_cons.mp hbefore
            exact .inr ⟨y, hy, bind_eq_error.mpr (.inl (ih.mpr ⟨before, a', after, rfl, hbefore, ha'⟩))⟩

/-- Both succeed, with related results, or both fail, the second with the error of the first changed by `g`. -/
inductive Corresponds (g : ε → ε') (R : α → β → Prop) : Except ε α → Except ε' β → Prop
  | ok {a : α} {b : β} (h : R a b) : Corresponds g R (.ok a) (.ok b)
  | error (e : ε) : Corresponds g R (.error e) (.error (g e))

theorem Corresponds.of_ok {g : ε → ε'} {R : α → β → Prop} {a : α} {x : Except ε' β} (h : Corresponds g R (.ok a) x) :
    ∃ b, x = .ok b ∧ R a b := by
  cases h with
  | ok h => exact ⟨_, rfl, h⟩

theorem Corresponds.of_error {g : ε → ε'} {R : α → β → Prop} {e : ε} {x : Except ε' β}
    (h : Corresponds g R (.error e) x) : x = .error (g e) := by
  cases h with
  | error => rfl

theorem Corresponds.bind {α' β' : Type} {g : ε → ε'} {R : α → α' → Prop} {S : β → β' → Prop} {x : Except ε α}
    {x' : Except ε' α'} {f : α → Except ε β} {f' : α' → Except ε' β'} (h : Corresponds g R x x')
    (hf : ∀ a a', R a a' → Corresponds g S (f a) (f' a')) : Corresponds g S (x >>= f) (x' >>= f') := by
  cases h with
  | ok h => exact hf _ _ h
  | error e => exact .error e

theorem Corresponds.foldlM {σ σ' : Type} {g : ε → ε'} {R : σ → σ' → Prop} {f : σ → α → Except ε σ}
    {f' : σ' → α → Except ε' σ'} (hstep : ∀ a s s', R s s' → Corresponds g R (f s a) (f' s' a)) {as : List α} {s : σ}
    {s' : σ'} (h : R s s') : Corresponds g R (as.foldlM f s) (as.foldlM f' s') := by
  induction as generalizing s s' with
  | nil => exact .ok h
  | cons a as ih =>
      rw [List.foldlM_cons, List.foldlM_cons]
      exact (hstep a s s' h).bind fun _ _ => ih

end Except

namespace Option

variable {σ α β : Type}

theorem foldlM_keeps {f : σ → α → Option σ} {P : σ → Prop} {as : List α}
    (hstep : ∀ a ∈ as, ∀ s s', P s → f s a = some s' → P s') {s s' : σ} (hs : P s) (h : as.foldlM f s = some s') :
    P s' := by
  induction as generalizing s with
  | nil =>
      obtain rfl := Option.some.inj h
      exact hs
  | cons a as ih =>
      rw [List.foldlM_cons] at h
      obtain ⟨s₁, h₁, h⟩ := Option.bind_eq_some_iff.mp h
      exact ih (fun b hb => hstep b (List.mem_cons_of_mem a hb)) (hstep a List.mem_cons_self s s₁ hs h₁) h

theorem exists_of_mem_mapM {f : α → Option β} {as : List α} {bs : List β} {b : β} (h : as.mapM f = some bs)
    (hb : b ∈ bs) : ∃ a ∈ as, f a = some b := by
  induction as generalizing bs with
  | nil =>
      obtain rfl := Option.some.inj h
      cases hb
  | cons a as ih =>
      rw [List.mapM_cons] at h
      obtain ⟨c, hc, h⟩ := Option.bind_eq_some_iff.mp h
      obtain ⟨cs, hcs, h⟩ := Option.bind_eq_some_iff.mp h
      obtain rfl := Option.some.inj h
      rcases List.mem_cons.mp hb with rfl | hb
      · exact ⟨a, List.mem_cons_self, hc⟩
      · obtain ⟨a', ha', hf⟩ := ih hcs hb
        exact ⟨a', List.mem_cons_of_mem a ha', hf⟩

end Option
