import DualOpt.Convergence
import DualOpt.LineSearch.Backtracking
import DualOpt.Problem

/-!
The limited-memory BFGS method for minimisation.

The direction is the gradient times an approximate inverse Hessian that is never formed: two
passes over the recent curvature pairs apply it. A pair is kept only if its curvature is positive.
-/
namespace DualOpt

/-- A step, the change of the gradient over it, and the reciprocal of their inner product. -/
structure CurvaturePair (F : Type) where
  step : Vec F
  gradientChange : Vec F
  reciprocal : F

structure Lbfgs (F : Type) where
  /-- How many curvature pairs are remembered. -/
  memory : Nat
  convergence : Convergence F
  lineSearch : Backtracking F
  /-- The budget of each line search. -/
  searchSteps : Nat

/-- The state at a candidate. The history runs from the oldest to the newest pair. -/
structure LbfgsState (F : Type) where
  step : Nat
  objective : F
  /-- The gradient, once it has been evaluated. -/
  gradient : Option (Vec F)
  /-- The decrease of the objective by the last step. -/
  objectiveDiff : F
  /-- The last step. -/
  diff : Vec F
  status : Status
  history : List (CurvaturePair F)

namespace Lbfgs
variable {F A : Type} [Scalar F]

/-- The usual settings for the precision. -/
def standard [Precision F] : Lbfgs F := ⟨10, .standard, .standard .gradient, Precision.searchSteps F⟩

/-- The usual settings with given tolerances. -/
def withTolerances (rtol atol : F) : Lbfgs F := ⟨10, { rtol, atol }, .standard .gradient, 32⟩

/-- Remembers at least one pair. -/
def withMemory (l : Lbfgs F) (n : Nat) : Lbfgs F := { l with memory := Nat.max n 1 }

def initialState (y : Vec F) : LbfgsState F :=
  ⟨0, Scalar.infinity, none, Scalar.infinity, Vec.zerosLike y, .successful, []⟩

/-- The first state, with room for as many pairs as are to be remembered. -/
def init (l : Lbfgs F) (y : Vec F) : Except Fault (LbfgsState F) := do
  Storage.reserve l.memory Storage.listBytes
  return initialState y

/-- The first pass, from the newest pair to the oldest: removes from `q` its part along each
gradient change. The coefficients are returned in the order of the history. -/
def firstPass (q : Vec F) : List (CurvaturePair F) → Vec F × List F
  | [] => (q, [])
  | p :: newer =>
    let (q, αs) := firstPass q newer
    let α := p.reciprocal * Vec.inner p.step q
    (Vec.axpy (-α) p.gradientChange q, α :: αs)

/-- Scales by the curvature of the newest pair, unless its gradient change is zero. -/
def scaleByNewest (history : List (CurvaturePair F)) (q : Vec F) : Vec F :=
  match history.getLast? with
  | none => q
  | some p =>
    let yy := Vec.inner p.gradientChange p.gradientChange
    if yy > 0 then Vec.scale (Vec.inner p.step p.gradientChange / yy) q else q

/-- The second pass, from the oldest pair to the newest. -/
def secondPass (r : Vec F) (history : List (CurvaturePair F)) (αs : List F) : Vec F :=
  (history.zip αs).foldl (fun r pα =>
    let β := pα.1.reciprocal * Vec.inner pα.1.gradientChange r
    Vec.axpy (pα.2 - β) pα.1.step r) r

/-- Minus the approximate inverse Hessian times the gradient. -/
def direction (gradient : Vec F) (history : List (CurvaturePair F)) : Vec F :=
  let (q, αs) := firstPass gradient history
  Vec.scale (-1) (secondPass (scaleByNewest history q) history αs)

/-- Measures the objective at `y + α·d`. -/
def measure (f : Objective F A) (y d : Vec F) (α : F) : Except Fault (Trial F Unit) := do
  let (objective, _) ← f.evaluate (Vec.axpy α d y)
  return { objective, diff := Vec.scale α d, payload := (), status := .successful }

/-- The step a line search settles on and the status it adds. A search that took no step leaves
the candidate where it is, and so does one that cannot start. Only divergence of the search is a
failure of the step. -/
def settle (y : Vec F)
    (found : Except (SolveError F F (SearchReport F Unit)) (Solution F (SearchReport F Unit))) :
    Traced F (Vec F × Status) :=
  match found with
  | .ok solution => do
    Traced.emit (.searchFinished "lbfgs" solution.status solution.stats.numSteps)
    let status := Status.select (solution.status == .nonlinearDivergence)
      .nonlinearDivergence .successful
    return (solution.payload.elim (Vec.zerosLike y) (·.runningMinDiff), status)
  | .error (.config e) => do
    Traced.emit (.searchRefused "lbfgs" e)
    return (Vec.zerosLike y, .nonlinearDivergence)
  | .error (.failed _) => return (Vec.zerosLike y, .nonlinearDivergence)

/-- Appends the pair of a step and its gradient change if their inner product is positive; a full
memory forgets its oldest pair. -/
def remember (memory : Nat) (history : List (CurvaturePair F)) (step gradientChange : Vec F) :
    List (CurvaturePair F) :=
  let curvature := Vec.inner step gradientChange
  if curvature > 0 && memory > 0 then
    let kept := if history.length = memory then history.tail else history
    kept ++ [⟨step, gradientChange, 1 / curvature⟩]
  else history

/-- The objective and its gradient at the candidate of a state, evaluated if the state does not
hold them yet. -/
def current (f : Objective F A) (y : Vec F) (s : LbfgsState F) : Except Fault (F × Vec F) :=
  match s.gradient with
  | some gradient => return (s.objective, gradient)
  | none => do
    let g ← gradientWith f y
    return (g.value, g.gradient)

def step (l : Lbfgs F) (f : Objective F A) (y : Vec F) (s : LbfgsState F) :
    Traced F (Vec F × LbfgsState F × A) := do
  let (value, gradient) ← current f y s
  let d := direction gradient s.history
  let input : SearchInput F := { vector := some gradient, operator := some (.identity y.length) }
  let found ← (l.lineSearch.solver (measure f y d) input).solve (l.lineSearch.firstInitial input) 1
    { SolveOptions.standard with maxSteps := some l.searchSteps, raise := false } none
  let (diff, searchStatus) ← settle y found
  let next := Vec.add y diff
  let g ← gradientWith f next
  return (next,
    { step := s.step + 1, objective := g.value, gradient := some g.gradient,
      objectiveDiff := value - g.value, diff, status := s.status.merge searchStatus,
      history := remember l.memory s.history diff (Vec.sub g.gradient gradient) },
    g.payload)

def terminate (l : Lbfgs F) (y : Vec F) (s : LbfgsState F) : Bool × Status :=
  let finite := Vec.allFinite y && (s.step == 0 || Scalar.isFinite s.objective)
  let status := Status.select finite s.status .nonlinearDivergence
  if s.step = 0 then (false, status)
  else (l.convergence.converged y s.diff [s.objective] [s.objectiveDiff], status)

/-- The method as a solver of one objective. -/
def solver (l : Lbfgs F) (f : Objective F A) : Solver F (Vec F) (LbfgsState F) A where
  init y _ _ := return .ok (← l.init y)
  step := l.step f
  terminate := l.terminate

end Lbfgs
end DualOpt
