import Mathlib.Tactic.Common

/-! Relations between two ways of computing that sequencing keeps. -/

structure Lifts (m n : Type → Type) [Monad m] [Monad n] (T : ∀ α : Type, m α → n α → Prop) : Prop where
  pure : ∀ {α : Type} (a : α), T α (pure a) (pure a)
  bind : ∀ {α β : Type} {x : m α} {y : n α} {f : α → m β} {g : α → n β},
    T α x y → (∀ a, T β (f a) (g a)) → T β (x >>= f) (y >>= g)

namespace Lifts
variable {m n : Type → Type} [Monad m] [Monad n] {T : ∀ α : Type, m α → n α → Prop}

/-- A pure step behind related computations. -/
theorem map {α β : Type} (lifts : Lifts m n T) {x : m α} {y : n α} (related : T α x y) (f : α → β) :
    T β (x >>= fun a => Pure.pure (f a)) (y >>= fun a => Pure.pure (f a)) :=
  lifts.bind related (fun a => lifts.pure (f a))

/-- Two related steps and a pure one. -/
theorem map₂ {α β γ : Type} (lifts : Lifts m n T) {x : m α} {y : n α} {u : m β} {v : n β}
    (first : T α x y)
    (second : T β u v) (f : α → β → γ) :
    T γ (x >>= fun a => u >>= fun b => Pure.pure (f a b)) (y >>= fun a => v >>= fun b =>
      Pure.pure (f a b)) :=
  lifts.bind first (fun a => lifts.map second (f a))

end Lifts
