import Kanban.Failure

/-!
# Chains of checks

An operation is a chain of checks that ends in a result.  It succeeds exactly when every check of
the chain does (`bind_eq_ok`), so that a success can be taken apart link by link, and fails with the
first check that fails (`bind_eq_error`).  A failure that no check can have is not one of the chain
(`Avoids.bind`).  Two chains whose checks agree one by one end alike (`Agree.bind`).
-/

namespace Kanban

theorem bind_eq_ok {ε α β : Type} {x : Except ε α} {f : α → Except ε β} {b : β} :
    x >>= f = .ok b ↔ ∃ a, x = .ok a ∧ f a = .ok b := by
  cases x <;> simp [bind, Except.bind]

/-- A chain fails with the first check that does. -/
theorem bind_eq_error {ε α β : Type} {x : Except ε α} {f : α → Except ε β} {e : ε} :
    x >>= f = .error e ↔ x = .error e ∨ ∃ a, x = .ok a ∧ f a = .error e := by
  cases x <;> simp [bind, Except.bind]

theorem exists_of_isOk {ε α : Type} {x : Except ε α} (h : x.isOk = true) : ∃ a, x = .ok a := by
  cases x with
  | ok a => exact ⟨a, rfl⟩
  | error e => cases h

theorem toOption_eq_some {ε α : Type} {x : Except ε α} {a : α} :
    x.toOption = some a ↔ x = .ok a := by
  cases x with
  | ok b => simp [Except.toOption]
  | error e => simp [Except.toOption]

theorem map_eq_ok {ε α β : Type} {x : Except ε α} {f : α → β} {b : β} :
    x.map f = .ok b ↔ ∃ a, x = .ok a ∧ f a = b := by
  cases x <;> simp [Except.map]

/-- A renewed value is the old one, or the check made it of the new one. -/
theorem renewed_eq_ok {α β : Type} {new : Option α} {old y : β} {check : α → Except Failure β} :
    renewed new old check = .ok y ↔
      (new = none ∧ old = y) ∨ ∃ x, new = some x ∧ check x = .ok y := by
  cases new <;> simp [renewed]

/-! ### Failures of a kind -/

/-- The chain does not end in a failure of the kind. -/
def Avoids {ε α : Type} (P : ε → Prop) (x : Except ε α) : Prop := ∀ e, x = .error e → ¬ P e

namespace Avoids

variable {ε α β : Type} {P : ε → Prop}

theorem ok (a : α) : Avoids P (.ok a) := fun _ h => by cases h

theorem error {e : ε} (h : ¬ P e) : Avoids P (.error e : Except ε α) :=
  fun _ he => Except.error.inj he ▸ h

theorem bind {x : Except ε α} {f : α → Except ε β} (hx : Avoids P x)
    (hf : ∀ a, x = .ok a → Avoids P (f a)) :
    Avoids P (x >>= f) := by
  intro e he
  rcases bind_eq_error.1 he with h | ⟨a, ha, h⟩
  · exact hx e h
  · exact hf a ha e h

theorem map {x : Except ε α} {f : α → β} (hx : Avoids P x) : Avoids P (x.map f) := by
  cases x with
  | ok a => exact ok (f a)
  | error e => exact error (hx e rfl)

theorem renewed {P : Failure → Prop} {new : Option α} {old : β} {check : α → Except Failure β}
    (h : ∀ x, new = some x → Avoids P (check x)) : Avoids P (Kanban.renewed new old check) := by
  cases new with
  | none => exact ok old
  | some x => exact h x rfl

end Avoids

/-! ### Two chains -/

/-- Two chains end alike: in the same failure, or in results that are related. -/
inductive Agree {ε α β : Type} (R : α → β → Prop) : Except ε α → Except ε β → Prop
  | ok {a : α} {b : β} (h : R a b) : Agree R (.ok a) (.ok b)
  | error (e : ε) : Agree R (.error e) (.error e)

namespace Agree

variable {ε α β γ δ : Type} {R : α → β → Prop} {Q : γ → δ → Prop}

theorem of_eq {x y : Except ε α} (h : y = x) : Agree (· = ·) x y := by
  subst h
  cases y with
  | ok a => exact .ok rfl
  | error e => exact .error e

theorem eq {x y : Except ε α} (h : Agree (· = ·) x y) : x = y := by
  cases h with
  | ok h => rw [h]
  | error e => rfl

theorem mono {R' : α → β → Prop} {x : Except ε α} {y : Except ε β} (h : Agree R x y)
    (hR : ∀ a b, R a b → R' a b) :
    Agree R' x y := by
  cases h with
  | ok h => exact .ok (hR _ _ h)
  | error e => exact .error e

/-- What is made of the results alike is the same. -/
theorem map_eq {f : α → γ} {g : β → γ} {x : Except ε α} {y : Except ε β}
    (h : Agree (fun a b => g b = f a) x y) :
    y.map g = x.map f := by
  cases h with
  | ok h => exact congrArg Except.ok h
  | error e => rfl

theorem bind {x : Except ε α} {y : Except ε β} {f : α → Except ε γ} {g : β → Except ε δ}
    (h : Agree R x y) (hnext : ∀ a b, x = .ok a → y = .ok b → R a b → Agree Q (f a) (g b)) :
    Agree Q (x >>= f) (y >>= g) := by
  cases h with
  | ok h => exact hnext _ _ rfl rfl h
  | error e => exact .error e

theorem bind_eq {x y : Except ε α} {f : α → Except ε γ} {g : α → Except ε δ} (h : y = x)
    (hnext : ∀ a, x = .ok a → Agree Q (f a) (g a)) : Agree Q (x >>= f) (y >>= g) := by
  subst h
  cases y with
  | ok a => exact hnext a rfl
  | error e => exact .error e

end Agree

end Kanban
