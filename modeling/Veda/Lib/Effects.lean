set_option autoImplicit false

/-!
# Programs with a state and errors

A program that stops with an error leaves the state in which it stopped. A property of the state that
each step of a program keeps is kept by the program, whether it answers or stops.

## Main definitions

* `Lib.endState` — the state in which a program ends, with an answer or an error.
* `Lib.Keeps` — a program keeps a property of the state.

## Main results

* `Lib.run_bind_ok` — what it means that one program after another answers.
* `Lib.Keeps.bind` — one program after another.
-/

namespace Veda.Lib

section Runs

variable {ε σ α β : Type}

/-- The state in which a program ends. -/
def endState : EStateM.Result ε σ α → σ
  | .ok _ s => s
  | .error _ s => s

@[simp] theorem endState_ok (a : α) (s : σ) :
    endState (EStateM.Result.ok a s : EStateM.Result ε σ α) = s := rfl

@[simp] theorem endState_error (e : ε) (s : σ) :
    endState (EStateM.Result.error e s : EStateM.Result ε σ α) = s := rfl

theorem run_bind_ok {x : EStateM ε σ α} {f : α → EStateM ε σ β} {s s' : σ} {b : β} :
    (x >>= f) s = .ok b s' ↔ ∃ a s₁, x s = .ok a s₁ ∧ f a s₁ = .ok b s' := by
  change EStateM.bind x f s = _ ↔ _
  unfold EStateM.bind
  cases x s with
  | ok a s₁ =>
    refine ⟨fun h => ⟨a, s₁, rfl, h⟩, ?_⟩
    rintro ⟨a', s₁', heq, h⟩
    cases heq
    exact h
  | error e s₁ => simp

theorem run_bind_of_ok {x : EStateM ε σ α} (f : α → EStateM ε σ β) {s s₁ : σ} {a : α}
    (h : x s = .ok a s₁) : (x >>= f) s = f a s₁ := by
  change EStateM.bind x f s = _
  rw [EStateM.bind, h]

theorem run_get_bind (f : σ → EStateM ε σ β) (s : σ) : (get >>= f) s = f s s := rfl

theorem run_modify_bind (g : σ → σ) (f : Unit → EStateM ε σ β) (s : σ) :
    ((modify g : EStateM ε σ Unit) >>= f) s = f () (g s) := rfl

theorem run_bind_of_error {x : EStateM ε σ α} (f : α → EStateM ε σ β) {s s₁ : σ} {e : ε}
    (h : x s = .error e s₁) : (x >>= f) s = .error e s₁ := by
  change EStateM.bind x f s = _
  rw [EStateM.bind, h]

end Runs

section Keeps

variable {ε σ α β : Type} {P : σ → Prop} {Q : α → Prop} {R : β → Prop}

/-- Whatever a program does, it keeps a property of the state, also when it stops with an error; and
its answers have a property. -/
def Keeps (P : σ → Prop) (Q : α → Prop) (x : EStateM ε σ α) : Prop :=
  ∀ s, P s → P (endState (x s)) ∧ ∀ a s', x s = .ok a s' → Q a

theorem Keeps.pure {a : α} (ha : Q a) : Keeps P Q (Pure.pure a : EStateM ε σ α) := by
  refine fun s hs => ⟨hs, fun b s' h => ?_⟩
  cases h
  exact ha

theorem Keeps.throw (e : ε) : Keeps P Q (throw e : EStateM ε σ α) :=
  fun _ hs => ⟨hs, fun _ _ h => by cases h⟩

theorem Keeps.get {Q : σ → Prop} (hQ : ∀ s, P s → Q s) : Keeps P Q (get : EStateM ε σ σ) := by
  refine fun s hs => ⟨hs, fun b s' h => ?_⟩
  cases h
  exact hQ s hs

theorem Keeps.bind {x : EStateM ε σ α} {f : α → EStateM ε σ β} (hx : Keeps P Q x)
    (hf : ∀ a, Q a → Keeps P R (f a)) : Keeps P R (x >>= f) := by
  intro s hs
  obtain ⟨hend, hanswer⟩ := hx s hs
  cases hrun : x s with
  | ok a s₁ =>
    rw [run_bind_of_ok f hrun]
    rw [hrun] at hend
    exact hf a (hanswer a s₁ hrun) s₁ hend
  | error e s₁ =>
    rw [run_bind_of_error f hrun]
    rw [hrun] at hend
    exact ⟨hend, fun _ _ h => by cases h⟩

theorem Keeps.weaken {Q' : α → Prop} {x : EStateM ε σ α} (hx : Keeps P Q x)
    (hQ : ∀ a, Q a → Q' a) : Keeps P Q' x :=
  fun s hs => ⟨(hx s hs).1, fun a s' h => hQ a ((hx s hs).2 a s' h)⟩

end Keeps

end Veda.Lib
