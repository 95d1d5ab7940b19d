import Mathlib.Logic.Basic
import PsqlTcpProxy.Library.Run

/-!
# Programs over an interface

Code that is not known, or not known yet, acts on a state only through the
operations of an interface: it calls one, looks at the answer, and goes on, until
it returns a value or leaves with an exception.  `Program Op Res ε α` is that
tree, and `exec` runs it on a state once somebody says what the operations do.

For code that is known there are the equations (`exec_pure`, `exec_raise`,
`exec_lift`, `exec_bind`, `exec_attempt`) and the rules of `Triple`, which has one
postcondition for the values a program returns and the exceptions it leaves with;
`Keeps` is the case where that is the precondition.
For code that is not known, there is `exec_rel`: a reflexive and transitive
relation that every operation respects is respected by every program.  `trail` lists the
operations that a program calls, and `run_trail` makes a run of them.
-/

namespace PsqlTcpProxy
namespace Library

variable {Op : Type} {Res : Op → Type} {ε σ α β : Type}

/-- A program that calls operations `op : Op`, answered in `Res op`, and returns
an `α` or leaves with an exception of type `ε`. -/
inductive Program (Op : Type) (Res : Op → Type) (ε α : Type) where
  | pure (a : α)
  | raise (e : ε)
  | call (op : Op) (k : Res op → Program Op Res ε α)

namespace Program

/-- Sequential composition. -/
def bind : Program Op Res ε α → (α → Program Op Res ε β) → Program Op Res ε β
  | .pure a, f => f a
  | .raise e, _ => .raise e
  | .call op k, f => .call op fun r => (k r).bind f

/-- Run to the end and hand over how the program left: the body of a `try`. -/
def attempt : Program Op Res ε α → Program Op Res ε (Except ε α)
  | .pure a => .pure (.ok a)
  | .raise e => .pure (.error e)
  | .call op k => .call op fun r => (k r).attempt

/-- A single operation. -/
def lift (op : Op) : Program Op Res ε (Res op) := .call op .pure

instance : Monad (Program Op Res ε) where
  pure := .pure
  bind := bind

instance : MonadExceptOf ε (Program Op Res ε) where
  throw := .raise
  tryCatch p handler := p.attempt.bind fun
    | .ok a => .pure a
    | .error e => handler e

/-- Run a program, given what the operations do. -/
def exec (handle : (op : Op) → σ → Res op × σ) : Program Op Res ε α → σ → Except ε α × σ
  | .pure a, s => (.ok a, s)
  | .raise e, s => (.error e, s)
  | .call op k, s => (k (handle op s).1).exec handle (handle op s).2

variable (handle : (op : Op) → σ → Res op × σ)

/-! ## Known code -/

@[simp] theorem exec_pure (a : α) (s : σ) :
    exec handle (Pure.pure a : Program Op Res ε α) s = (.ok a, s) := rfl

@[simp] theorem exec_raise (e : ε) (s : σ) :
    exec handle (.raise e : Program Op Res ε α) s = (.error e, s) := rfl

@[simp] theorem exec_throw (e : ε) (s : σ) :
    exec handle (throw e : Program Op Res ε α) s = (.error e, s) := rfl

@[simp] theorem exec_lift (op : Op) (s : σ) :
    exec handle (lift op : Program Op Res ε (Res op)) s =
      (.ok (handle op s).1, (handle op s).2) := rfl

/-- What follows a program, given how the program left. -/
def andThen (f : α → Program Op Res ε β) : Except ε α × σ → Except ε β × σ
  | (.ok a, s) => (f a).exec handle s
  | (.error e, s) => (.error e, s)

@[simp] theorem andThen_ok (f : α → Program Op Res ε β) (a : α) (s : σ) :
    andThen handle f (.ok a, s) = (f a).exec handle s := rfl

@[simp] theorem andThen_error (f : α → Program Op Res ε β) (e : ε) (s : σ) :
    andThen handle f (.error e, s) = (.error e, s) := rfl

@[simp] theorem exec_bind (p : Program Op Res ε α) (f : α → Program Op Res ε β) (s : σ) :
    exec handle (p >>= f) s = andThen handle f (exec handle p s) := by
  induction p generalizing s with
  | pure a => rfl
  | raise e => rfl
  | call op k ih => exact ih _ _

@[simp] theorem exec_attempt (p : Program Op Res ε α) (s : σ) :
    exec handle p.attempt s = (.ok (exec handle p s).1, (exec handle p s).2) := by
  induction p generalizing s with
  | pure a => rfl
  | raise e => rfl
  | call op k ih => exact ih _ _

/-! ## Unknown code -/

/-- **Whatever a program does.**  A reflexive and transitive relation between
states that every operation respects is respected by every program. -/
theorem exec_rel {R : σ → σ → Prop} (refl : ∀ s, R s s) (trans : ∀ s t u, R s t → R t u → R s u)
    (hop : ∀ op s, R s (handle op s).2) (p : Program Op Res ε α) (s : σ) :
    R s (exec handle p s).2 := by
  induction p generalizing s with
  | pure a => exact refl s
  | raise e => exact refl s
  | call op k ih => exact trans _ _ _ (hop op s) (ih _ _)

/-- The operations that a program calls, each with the state it is called in. -/
def trail : Program Op Res ε α → σ → List (Op × σ)
  | .pure _, _ => []
  | .raise _, _ => []
  | .call op k, s => (op, s) :: (k (handle op s).1).trail (handle op s).2

/-- **A program as a run.**  If certain steps lead from the state in which an operation is
called to the state that it leaves, the steps of all its calls lead from the state in which a
program is started to the state that it leaves. -/
theorem run_trail {τ δ : Type} {step : τ → δ → Option τ} (place : σ → τ)
    (steps : Op → σ → List δ)
    (hop : ∀ op s, run step (place s) (steps op s) = some (place (handle op s).2))
    (p : Program Op Res ε α) (s : σ) :
    run step (place s) ((p.trail handle s).flatMap fun call => steps call.1 call.2) =
      some (place (exec handle p s).2) := by
  induction p generalizing s with
  | pure a => rfl
  | raise e => rfl
  | call op k ih =>
    rw [trail, List.flatMap_cons, run_append, hop, Option.bind_some]
    exact ih _ _

/-! ## Pre- and postconditions -/

/-- Run from a state with `P`, the program ends in `Q`, which is told how it left. -/
def Triple (P : σ → Prop) (p : Program Op Res ε α) (Q : Except ε α → σ → Prop) : Prop :=
  ∀ s, P s → Q (exec handle p s).1 (exec handle p s).2

namespace Triple

variable {handle} {P P' : σ → Prop} {Q Q' : Except ε α → σ → Prop} {p : Program Op Res ε α}

/-- The rule of consequence. -/
theorem mono (h : Triple handle P p Q) (hP : ∀ s, P' s → P s) (hQ : ∀ r s, Q r s → Q' r s) :
    Triple handle P' p Q' :=
  fun s hs => hQ _ _ (h s (hP s hs))

/-- Two statements about one program. -/
theorem and (h : Triple handle P p Q) (h' : Triple handle P' p Q') :
    Triple handle (fun s => P s ∧ P' s) p fun r s => Q r s ∧ Q' r s :=
  fun s hs => ⟨h s hs.1, h' s hs.2⟩

theorem pure {a : α} (h : ∀ s, P s → Q (.ok a) s) :
    Triple handle P (Pure.pure a : Program Op Res ε α) Q := h

theorem throw {e : ε} (h : ∀ s, P s → Q (.error e) s) :
    Triple handle P (MonadExcept.throw e : Program Op Res ε α) Q := h

/-- An operation does what it does. -/
theorem lift {op : Op} {R : Except ε (Res op) → σ → Prop}
    (h : ∀ s, P s → R (.ok (handle op s).1) (handle op s).2) :
    Triple handle P (Program.lift op : Program Op Res ε (Res op)) R := h

/-- Sequential composition: an exception skips the rest. -/
theorem bind {q : Program Op Res ε β} {f : β → Program Op Res ε α} {R : Except ε β → σ → Prop}
    (hq : Triple handle P q R) (hf : ∀ b, Triple handle (R (.ok b)) (f b) Q)
    (herror : ∀ e s, R (.error e) s → Q (.error e) s) : Triple handle P (q >>= f) Q := by
  intro s hs
  rw [exec_bind]
  have hr := hq s hs
  rcases hexec : exec handle q s with ⟨e | b, t⟩
  · rw [hexec] at hr
    exact herror e t hr
  · rw [hexec] at hr
    exact hf b t hr

/-- The body of a `try`. -/
theorem attempt {R : Except ε (Except ε α) → σ → Prop}
    (h : Triple handle P p fun r s => R (.ok r) s) : Triple handle P p.attempt R := by
  intro s hs
  rw [exec_attempt]
  exact h s hs

end Triple

/-- The program keeps `P`, however it leaves. -/
def Keeps (P : σ → Prop) (p : Program Op Res ε α) : Prop := Triple handle P p fun _ => P

namespace Keeps

variable {handle} {P : σ → Prop} {p : Program Op Res ε α}

theorem pure (a : α) : Keeps handle P (Pure.pure a : Program Op Res ε α) := fun _ hs => hs

theorem throw (e : ε) : Keeps handle P (MonadExcept.throw e : Program Op Res ε α) :=
  fun _ hs => hs

theorem bind {f : α → Program Op Res ε β} (hp : Keeps handle P p)
    (hf : ∀ a, Keeps handle P (f a)) : Keeps handle P (p >>= f) :=
  Triple.bind hp hf fun _ _ hs => hs

theorem attempt (h : Keeps handle P p) : Keeps handle P p.attempt := Triple.attempt h

end Keeps

end Program

end Library
end PsqlTcpProxy
