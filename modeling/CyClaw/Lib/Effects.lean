/-
Programs with a state and exceptions.

A program raises or returns, and leaves a state either way.
-/
import Mathlib.Logic.Basic

namespace Effects

/-- A program on a state `σ` that may raise an `ε`. -/
def Eff (σ ε α : Type) : Type := σ → Except ε α × σ

variable {σ ε α β : Type}

namespace Eff

def bind (m : Eff σ ε α) (f : α → Eff σ ε β) : Eff σ ε β := fun s =>
  match m s with
  | (.ok a, s') => f a s'
  | (.error e, s') => (.error e, s')

instance : Monad (Eff σ ε) where
  pure a := fun s => (.ok a, s)
  bind := Eff.bind

def raise (e : ε) : Eff σ ε α := fun s => (.error e, s)

def get : Eff σ ε σ := fun s => (.ok s, s)

def modify (f : σ → σ) : Eff σ ε Unit := fun s => (.ok (), f s)

/-- What a program replies, as a value. -/
def attempt (m : Eff σ ε α) : Eff σ ε (Except ε α) := fun s => (.ok (m s).1, (m s).2)

/-- A round for each element, each given what the one before has made. -/
def fold (f : β → α → Eff σ ε β) : List α → β → Eff σ ε β
  | [], b => pure b
  | a :: as, b => f b a >>= fold f as

theorem pure_apply (a : α) (s : σ) : (pure a : Eff σ ε α) s = (.ok a, s) := rfl

theorem bind_apply (m : Eff σ ε α) (f : α → Eff σ ε β) (s : σ) :
    (m >>= f) s = match m s with
      | (.ok a, s') => f a s'
      | (.error e, s') => (.error e, s') :=
  rfl

theorem attempt_bind (m : Eff σ ε α) (f : Except ε α → Eff σ ε β) (s : σ) :
    (attempt m >>= f) s = f (m s).1 (m s).2 :=
  rfl

end Eff

end Effects
