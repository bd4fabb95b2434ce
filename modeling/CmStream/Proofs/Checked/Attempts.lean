import CmStream.Checked.Number

/-!
# Attempts that are defined

`Matches` says that an attempt is defined and comes out as a plain computation does: with the same
error, or with a value that the given relation joins to the other's. It goes through sequences, so
that an attempt is shown to be defined part by part, along with what it comes to.
-/

namespace CmStream

namespace Checked

variable {ε ε' α β γ δ : Type}

/-- The attempt is defined, and comes out as the computation does. -/
def Matches (R : α → β → Prop) (attempt : Attempt ε α) : Except ε β → Prop
  | .ok b => ∃ a, attempt.run = some (.ok a) ∧ R a b
  | .error error => attempt.run = some (.error error)

namespace Matches

variable {R : α → β → Prop} {S : γ → δ → Prop} {x : Attempt ε α} {y : Except ε β}
  {f : α → Attempt ε γ} {g : β → Except ε δ}

theorem pure {a : α} {b : β} (h : R a b) : Matches R (pure a : Attempt ε α) (.ok b) := ⟨a, rfl, h⟩

theorem throw (error : ε) : Matches R (throw error) (.error error) := by
  rfl

theorem bind_of_ok (h : Matches R x y)
    (hnext : ∀ a b, y = .ok b → R a b → Matches S (f a) (g b)) : Matches S (x >>= f) (y >>= g) := by
  cases y with
  | ok b =>
    obtain ⟨a, hrun, hab⟩ := h
    have hbind : (x >>= f).run = (f a).run := by
      rw [ExceptT.run_bind, hrun]
      rfl
    have hgoal := hnext a b rfl hab
    show Matches S (x >>= f) (g b)
    unfold Matches at hgoal ⊢
    rw [hbind]
    exact hgoal
  | error error =>
    have hrun : x.run = some (.error error) := h
    show (x >>= f).run = some (.error error)
    rw [ExceptT.run_bind, hrun]
    rfl

theorem bind (h : Matches R x y) (hnext : ∀ a b, R a b → Matches S (f a) (g b)) :
    Matches S (x >>= f) (y >>= g) :=
  h.bind_of_ok fun a b _ => hnext a b

/-- The computation may keep more than the attempt does. -/
theorem keep {T : α → δ → Prop} {g : β → δ} (h : Matches R x y) (hkeep : ∀ a b, R a b → T a (g b)) :
    Matches T x (y >>= fun b => .ok (g b)) := by
  cases y with
  | ok b =>
    obtain ⟨a, hrun, hab⟩ := h
    exact ⟨a, hrun, hkeep a b hab⟩
  | error error => exact h

/-- What is made of the one value is joined to what is made of the other. -/
theorem map {T : γ → δ → Prop} {f : α → γ} {g : β → δ} (h : Matches R x y)
    (hjoin : ∀ a b, R a b → T (f a) (g b)) :
    Matches T (x >>= fun a => Pure.pure (f a)) (y.map g) := by
  cases y with
  | ok b =>
    obtain ⟨a, hrun, hab⟩ := h
    refine ⟨f a, ?_, hjoin a b hab⟩
    rw [ExceptT.run_bind, hrun]
    rfl
  | error error =>
    have hrun : x.run = some (.error error) := h
    show (x >>= fun a => Pure.pure (f a)).run = some (.error error)
    rw [ExceptT.run_bind, hrun]
    rfl

/-- An operation that is defined goes on with its result. -/
theorem step {z : Except ε δ} {operation : Option α} {a : α} (hdefined : operation = some a)
    (h : Matches S (f a) z) : Matches S ((liftM operation : Attempt ε α) >>= f) z := by
  subst hdefined
  exact h

/-- An attempt that is known to come out well goes on with its value. -/
theorem after {z : Except ε δ} {a : α} (hrun : x.run = some (.ok a)) (h : Matches S (f a) z) :
    Matches S (x >>= f) z :=
  bind (R := fun value _ => value = a) (y := .ok a) (g := fun _ => z) ⟨a, hrun, rfl⟩
    fun _ _ hvalue => hvalue ▸ h

theorem run_adapt (x : Attempt ε α) (convert : ε → ε') :
    (x.adapt convert).run = x.run.map (Except.mapError convert) := rfl

theorem adapt_ok {a : α} (hrun : x.run = some (.ok a)) (convert : ε → ε') :
    (x.adapt convert).run = some (.ok a) := by
  rw [run_adapt, hrun]
  rfl

theorem last {operation : Option α} {a : α} {b : β} (hdefined : operation = some a) (h : R a b) :
    Matches R (liftM operation : Attempt ε α) (.ok b) := by
  subst hdefined
  exact Matches.pure h

/-- A check that the one makes on its way and the other at its end. -/
theorem guard {f : Unit → Attempt ε γ} {z : Except ε δ} {c : Prop} [Decidable c] (error : ε)
    (h : ¬ c → Matches S (f ()) z) :
    Matches S (if c then MonadExcept.throw error >>= f else f ())
      (if c then .error error else z) := by
  by_cases hc : c
  · rw [if_pos hc, if_pos hc]
    rfl
  · rw [if_neg hc, if_neg hc]
    exact h hc

/-- A check that both make, and fail alike. -/
theorem check {f : Unit → Attempt ε γ} {g : Unit → Except ε δ} {c : Prop} [Decidable c] (error : ε)
    (h : ¬ c → Matches S (f ()) (g ())) :
    Matches S (if c then MonadExcept.throw error >>= f else f ())
      (if c then MonadExcept.throw error >>= g else g ()) :=
  guard error h

theorem ite {x' : Attempt ε α} {y' : Except ε β} {c : Prop} [Decidable c]
    (h : c → Matches R x y) (h' : ¬ c → Matches R x' y') :
    Matches R (if c then x else x') (if c then y else y') := by
  by_cases hc : c
  · rw [if_pos hc, if_pos hc]
    exact h hc
  · rw [if_neg hc, if_neg hc]
    exact h' hc

theorem mapError (h : Matches R x y) (convert : ε → ε') :
    Matches R (x.adapt convert) (y.mapError convert) := by
  cases y with
  | ok b =>
    obtain ⟨a, hrun, hab⟩ := h
    exact ⟨a, adapt_ok hrun convert, hab⟩
  | error error =>
    have hrun : x.run = some (.error error) := h
    show (x.adapt convert).run = some (.error (convert error))
    rw [run_adapt, hrun]
    rfl

theorem of_run {y : Except ε α} (h : x.run = some y) : Matches Eq x y := by
  cases y with
  | ok b => exact ⟨b, h, rfl⟩
  | error error => exact h

theorem run_eq {y : Except ε α} (h : Matches Eq x y) : x.run = some y := by
  cases y with
  | ok b =>
    obtain ⟨a, hrun, rfl⟩ := h
    exact hrun
  | error error => exact h

end Matches

end Checked

end CmStream
