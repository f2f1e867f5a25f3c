import AtomHeap.Fault
/-!
# How a computation ends

`Ends x starved post` is the specification of a computation that can end the run: it gives a value
with `post`, or it ends the run for want of memory, and then `starved` holds. No other fault arises.
With `starved` false it always gives a value.
-/

namespace AtomHeap

variable {α β : Type} {x : Except Fault α} {starved starved' : Prop} {P Q : α → Prop}

/-- A computation that gave a value gave one at each step. -/
theorem bind_eq_ok_iff {f : α → Except Fault β} {b : β} : x >>= f = .ok b ↔ ∃ a, x = .ok a ∧ f a = .ok b := by
  cases x with
  | error e =>
    constructor
    · rintro ⟨⟩
    · rintro ⟨a, ⟨⟩, -⟩
  | ok a =>
    constructor
    · intro h
      exact ⟨a, rfl, h⟩
    · rintro ⟨a', ⟨⟩, h⟩
      exact h

/-- A computation on a state that gave a value gave one at each step. -/
theorem state_bind_eq_ok_iff {σ : Type} {x : StateT σ (Except Fault) α} {f : α → StateT σ (Except Fault) β}
    {s s' : σ} {b : β} :
    (x >>= f) s = .ok (b, s') ↔ ∃ a s₁, x s = .ok (a, s₁) ∧ f a s₁ = .ok (b, s') := by
  have h : (x >>= f) s = x s >>= fun p => f p.1 p.2 := rfl
  rw [h, bind_eq_ok_iff, Prod.exists]

/-- A value with `post`, or no memory where `starved` allows that, and nothing else. -/
def Ends (x : Except Fault α) (starved : Prop) (post : α → Prop) : Prop :=
  (∃ a, x = .ok a ∧ post a) ∨ (x = .error .exhausted ∧ starved)

namespace Ends

theorem ok {a : α} (h : P a) : Ends (.ok a) starved P := .inl ⟨a, rfl, h⟩

theorem bind {R : β → Prop} {f : α → Except Fault β} (hx : Ends x starved P)
    (hf : ∀ a, P a → Ends (f a) starved R) : Ends (x >>= f) starved R := by
  rcases hx with ⟨a, rfl, ha⟩ | ⟨rfl, hs⟩
  · exact hf a ha
  · exact .inr ⟨rfl, hs⟩

theorem mono (hx : Ends x starved P) (h : ∀ a, P a → Q a) : Ends x starved Q := by
  rcases hx with ⟨a, rfl, ha⟩ | hx
  · exact .ok (h a ha)
  · exact .inr hx

theorem starve (hx : Ends x starved P) (h : starved → starved') : Ends x starved' P := by
  rcases hx with hx | ⟨rfl, hs⟩
  · exact .inl hx
  · exact .inr ⟨rfl, h hs⟩

/-- What two specifications say holds together. -/
theorem and (hx : Ends x starved P) (hx' : Ends x starved' Q) : Ends x (starved ∧ starved') fun a => P a ∧ Q a := by
  rcases hx with ⟨a, rfl, hP⟩ | ⟨rfl, hs⟩
  · rcases hx' with ⟨b, hb, hQ⟩ | ⟨hb, -⟩
    · cases hb
      exact .ok ⟨hP, hQ⟩
    · cases hb
  · rcases hx' with ⟨b, hb, -⟩ | ⟨-, hs'⟩
    · cases hb
    · exact .inr ⟨rfl, hs, hs'⟩

/-- The value is the one that the computation gives. -/
theorem and_eq (hx : Ends x starved P) : Ends x starved fun a => x = .ok a ∧ P a := by
  rcases hx with ⟨a, ha, hP⟩ | hx
  · exact .inl ⟨a, ha, ha, hP⟩
  · exact .inr hx

/-- What holds of the value, where there is one. -/
theorem post_of_ok {a : α} (hx : Ends x starved P) (h : x = .ok a) : P a := by
  rcases hx with ⟨b, hb, hP⟩ | ⟨he, _⟩
  · rw [hb, Except.ok.injEq] at h
    exact h ▸ hP
  · rw [he] at h
    cases h

theorem exists_ok (hx : Ends x False P) : ∃ a, x = .ok a ∧ P a := by
  rcases hx with hx | ⟨_, hs⟩
  · exact hx
  · exact hs.elim

end Ends

end AtomHeap
