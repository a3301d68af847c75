import Mathlib.Logic.Basic

/-!
# Calls that return or throw

A member function that mutates its object and may throw is a computation in `EStateM ε σ`: a
thrown exception carries its `what()` text, and the object keeps the state it had at the throw,
since the code rolls nothing back. `stateAfter` is the state a call leaves either way.

`Keeps P x` says that a call started in a state satisfying `P` leaves one, whether it returns
or throws. It composes through `>>=` (`Keeps.bind`), so an invariant of a call built from smaller
calls follows from one lemma per smaller call.
-/

set_option autoImplicit false

namespace FindataEngine

variable {ε σ α β : Type}

/-- The state a call leaves, whether it returned or threw. -/
def stateAfter (x : EStateM ε σ α) (s : σ) : σ :=
  match x.run s with
  | .ok _ s' => s'
  | .error _ s' => s'

/-- A read that succeeded hands its value on. -/
theorem some_bind_eq (a : α) (f : α → Option β) : (some a >>= f) = f a := rfl

theorem run_pure (a : α) (s : σ) : (pure a : EStateM ε σ α).run s = .ok a s := rfl

theorem run_bind (x : EStateM ε σ α) (f : α → EStateM ε σ β) (s : σ) :
    (x >>= f).run s = match x.run s with
      | .ok a s' => (f a).run s'
      | .error e s' => .error e s' := by
  show EStateM.bind x f s = _
  unfold EStateM.bind EStateM.run
  cases x s <;> rfl

theorem run_get_bind (f : σ → EStateM ε σ α) (s : σ) :
    (get >>= f : EStateM ε σ α).run s = (f s).run s := rfl

theorem run_tryCatch (x : EStateM ε σ α) (handle : ε → EStateM ε σ α) (s : σ) :
    (tryCatch x handle : EStateM ε σ α).run s =
      match x.run s with
      | .ok a s' => .ok a s'
      | .error e s' => (handle e).run s' := by
  show EStateM.tryCatch x handle s = _
  unfold EStateM.tryCatch EStateM.run
  cases x s <;> rfl

/-- Whatever the call returns or throws, the state it leaves satisfies `P` if the state it found
did. -/
def Keeps (P : σ → Prop) (x : EStateM ε σ α) : Prop :=
  ∀ s, P s → P (stateAfter x s)

section Keeps

variable {P : σ → Prop}

theorem keeps_pure (a : α) : Keeps P (pure a : EStateM ε σ α) := fun _ h => h

theorem keeps_of_run {x : EStateM ε σ α}
    (h : ∀ s, P s → ∃ s', P s' ∧ ((∃ a, x.run s = .ok a s') ∨ ∃ e, x.run s = .error e s')) :
    Keeps P x := by
  intro s hs
  obtain ⟨s', hs', ⟨a, hx⟩ | ⟨e, hx⟩⟩ := h s hs <;> simpa [stateAfter, hx] using hs'

theorem Keeps.bind {x : EStateM ε σ α} {f : α → EStateM ε σ β} (hx : Keeps P x)
    (hf : ∀ a, Keeps P (f a)) : Keeps P (x >>= f) := by
  intro s hs
  have h := hx s hs
  unfold stateAfter at h ⊢
  rw [run_bind]
  cases hxs : x.run s with
  | ok a s' => rw [hxs] at h; exact hf a s' h
  | error e s' => rw [hxs] at h; exact h

theorem keeps_get_bind {f : σ → EStateM ε σ α} (hf : ∀ s, Keeps P (f s)) :
    Keeps P (get >>= f) :=
  fun s hs => hf s s hs

/-- A call that reads the state first keeps `P` when its rest keeps `P` from every state it can
have read. -/
theorem keeps_get_bind_of {f : σ → EStateM ε σ α} (hf : ∀ s, P s → Keeps P (f s)) :
    Keeps P (get >>= f) :=
  fun s hs => hf s hs s hs

theorem keeps_modify {f : σ → σ} (hf : ∀ s, P s → P (f s)) :
    Keeps P (modify f : EStateM ε σ PUnit) :=
  fun s hs => hf s hs

theorem keeps_ite {c : Prop} [Decidable c] {x y : EStateM ε σ α} (hx : Keeps P x)
    (hy : Keeps P y) : Keeps P (if c then x else y) := by
  split
  · exact hx
  · exact hy

end Keeps

end FindataEngine
