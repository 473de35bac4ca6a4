import DualOpt.Error
import DualOpt.Fault
import DualOpt.Tags

/-!
Computations that report events and may end in a fault. The events reported before a fault are
kept.
-/
namespace DualOpt

inductive Level where
  | trace
  | debug
  | warn
  deriving DecidableEq, Repr

/-- What happened during a solve, as a value; its wording is in `DualOpt.Message`. -/
inductive Event (F : Type) where
  | solveStarted (maxSteps : Option Nat)
  | stepTaken (step : Nat) (done : Bool) (status : Status)
  | solveFinished (steps : Nat) (status : Status)
  | searchFinished (solver : String) (status : Status) (steps : Nat)
  | searchRefused (solver : String) (error : ConfigError F)
  | tagsDiscarded (tags : Tags) (delegate : String)
  /-- The stationarity condition is violated by `norm` at a solution that counts as successful. -/
  | notStationary (norm tolerance : F)
  /-- An implicit derivative was asked for where its condition does not hold. -/
  | conditionViolated (norm : F)

def Event.level {F : Type} : Event F → Level
  | solveStarted _ | solveFinished .. | tagsDiscarded .. => .debug
  | stepTaken .. | searchFinished .. => .trace
  | searchRefused .. | notStationary .. | conditionViolated _ => .warn

/-- The events in the order of their occurrence, and the result unless a fault stopped it. -/
structure Traced (F : Type) (α : Type) where
  events : List (Event F)
  outcome : Except Fault α

namespace Traced
variable {F α β : Type}

def bind (x : Traced F α) (f : α → Traced F β) : Traced F β :=
  match x.outcome with
  | .error fault => ⟨x.events, .error fault⟩
  | .ok a =>
    let y := f a
    ⟨x.events ++ y.events, y.outcome⟩

instance : Monad (Traced F) where
  pure a := ⟨[], .ok a⟩
  bind := bind

/-- Reports one event. -/
def emit (e : Event F) : Traced F Unit := ⟨[e], .ok ()⟩

/-- Reports an event if the condition holds. -/
def emitIf (condition : Bool) (e : Event F) : Traced F Unit :=
  if condition then emit e else pure ()

def fault (f : Fault) : Traced F α := ⟨[], .error f⟩

/-- A computation that reports nothing. -/
def ofExcept (r : Except Fault α) : Traced F α := ⟨[], r⟩

instance : MonadLift (Except Fault) (Traced F) := ⟨ofExcept⟩

@[simp] theorem pure_def (a : α) : (pure a : Traced F α) = ⟨[], .ok a⟩ := rfl

theorem bind_ok {x : Traced F α} {a : α} (h : x.outcome = .ok a) (f : α → Traced F β) :
    x >>= f = ⟨x.events ++ (f a).events, (f a).outcome⟩ := by
  simp [Bind.bind, bind, h]

theorem bind_error {x : Traced F α} {e : Fault} (h : x.outcome = .error e) (f : α → Traced F β) :
    x >>= f = ⟨x.events, .error e⟩ := by
  simp [Bind.bind, bind, h]

private theorem map_id (x : Traced F α) : id <$> x = x := by
  cases x with
  | mk events outcome => cases outcome <;> simp [Functor.map, bind]

private theorem bind_assoc {γ : Type} (x : Traced F α) (f : α → Traced F β) (g : β → Traced F γ) :
    x >>= f >>= g = x >>= fun a => f a >>= g := by
  cases hx : x.outcome with
  | error e => simp [Bind.bind, bind, hx]
  | ok a => cases hf : (f a).outcome <;> simp [Bind.bind, bind, hx, hf]

instance : LawfulMonad (Traced F) :=
  LawfulMonad.mk' (Traced F) map_id (fun a f => by simp [Bind.bind, bind]) bind_assoc

end Traced
end DualOpt
