import DualOpt.Proofs.Checked.Search
import DualOpt.Proofs.Forward.InPlace
import DualOpt.Proofs.Returned

/-!
One step of the Gauss-Newton method that asserts the sizes of everything it combines.

The number of outputs carries the argument. If it is the same in every pass, the Jacobian has a row
for each output and a column for each variable, also where it is wide or has no columns; and if it
is not zero, the rows show how many columns there are. Then the factors, the direction and the
gradient of the search fit each other, whatever the values are.
-/
namespace DualOpt

variable {F A : Type} [Scalar F]

/-- A residual with `m` outputs wherever it is evaluated at `n` variables. -/
def Residual.HasOutputs (r : Residual F A) (n m : Nat) : Prop :=
  ∀ d : List (Dual F), d.length = n →
    ∃ outputs payload, r d = .ok (outputs, payload) ∧ outputs.length = m

namespace Residual.HasOutputs
variable {r : Residual F A} {y : Vec F} {m : Nat} (h : r.HasOutputs y.length m)
include h

theorem length_values {l : Linearisation F A} (hl : linearise r y = .ok l) :
    l.values.length = m := by
  obtain ⟨outputs, payload, start, length⟩ := h (Dual.constants y) (by simp [Dual.constants])
  have evaluated := GaussNewton.evaluate_of_linearise hl
  simp only [Residual.evaluate, start, ok_bind] at evaluated
  rw [← (Prod.mk.inj (Except.ok.inj evaluated)).1, List.length_map, length]

end Residual.HasOutputs

namespace GaussNewton

/-- One step in which the passes of the Jacobian, the factorisation, the solve, the search and the
sums assert their sizes. -/
def checkedStep (g : GaussNewton F) (r : Residual F A) (y : Vec F) (s : GaussNewtonState F) :
    Traced F (Vec F × GaussNewtonState F × A) := do
  let l ← lineariseInPlace r y
  let f := halfSquares l.values
  if !Vec.allFinite l.values || !l.jacobian.all Vec.allFinite then
    return (y, ⟨s.step + 1, f, 0, Vec.zerosLike y, s.status.merge .nonlinearDivergence⟩,
      l.payload)
  else
    let a ← Dense.ofRows l.jacobian
    let factored ← g.linearSolver.checkedFactor (.dense a)
    let (newton, linearStatus) ← g.linearSolver.checkedSolve factored l.values
    let d := Vec.scale (-1) newton
    let input := searchInput l a y
    let trial := Backtracking.checkedAlongLine (valueAt r) y d
    let found ← (g.lineSearch.checkedSolver trial input).solve (g.lineSearch.firstInitial input) 1
      { SolveOptions.standard with maxSteps := some g.searchSteps, raise := false } none
    let (diff, least, searchStatus) ← settle y f found
    let next ← Vec.together Vec.add y diff
    let (_, payload) ← r.evaluate next
    return (next,
      ⟨s.step + 1, least, f - least, diff, (s.status.merge linearStatus).merge searchStatus⟩,
      payload)

section Sizes
variable {g : GaussNewton F} {r : Residual F A} {y d : Vec F} {l : Linearisation F A} {a : Dense F}

/-- A search that starts has a gradient as long as the candidate, because it has been told to compare
the two. -/
theorem length_of_init (start : BacktrackingState F)
    (h : (g.lineSearch.init (searchInput l a y)).outcome = .ok (.ok start)) :
    start.gradient.length = y.length := by
  obtain ⟨vector, operator, gradient, -, -, -, compared, rfl⟩ := g.lineSearch.exists_of_init h
  exact (compared y rfl).symm

theorem length_settled (hd : d.length = y.length) {f : F} {found : Backtracking.Found F}
    (hfound : g.lineSearch.find (measure r y d) (searchInput l a y) g.searchSteps = .ok found)
    {settled : Vec F × F × Status} (h : (settle y f found).outcome = .ok settled) :
    settled.1.length = y.length := by
  cases found with
  | error e =>
    rw [settle_error] at h
    obtain rfl := Except.ok.inj h
    exact Vec.length_zerosLike y
  | ok solution =>
    cases payload : solution.payload with
    | none =>
      obtain rfl : _ = settled := by simpa [settle, payload] using h
      exact Vec.length_zerosLike y
    | some report =>
      obtain rfl : _ = settled := by simpa [settle, payload] using h
      rw [measure_eq] at hfound
      exact g.lineSearch.length_of_find hd length_of_init hfound payload

variable {m : Nat} (positive : 1 ≤ m) (outputs : r.HasOutputs y.length m)
variable (hl : linearise r y = .ok l)
include positive outputs hl

/-- The Jacobian has a row for each output and a column for each variable. -/
theorem sizes_of_linearise (ha : Dense.ofRows l.jacobian = .ok a) :
    a.rows.width = a.inSize ∧ y.length = a.inSize ∧ l.values.length = a.rows.length := by
  obtain ⟨rows, width⟩ := Dense.eq_of_ofRows ha
  have height : a.rows.length = l.values.length := by rw [rows, (shape_of_linearise hl).1]
  have nonempty : a.rows ≠ [] :=
    List.ne_nil_of_length_pos (by rw [height, outputs.length_values hl]; exact positive)
  exact ⟨width, inSize_eq hl ha nonempty, height.symm⟩

/-- The solve of the linearised problem yields a direction as long as the candidate. -/
theorem length_newton (ha : Dense.ofRows l.jacobian = .ok a) {factored : Factored F}
    {newton : Vec F × Status} (hfactored : g.linearSolver.factor (.dense a) = .ok factored)
    (hnewton : g.linearSolver.solve factored l.values = .ok newton) :
    (Vec.scale (-1) newton.1).length = y.length := by
  obtain ⟨width, size, -⟩ := sizes_of_linearise positive outputs hl ha
  rw [Vec.length_scale, size, g.linearSolver.length_of_solve width hfactored hnewton]

omit hl

/-- Every size that a step asserts holds. -/
theorem checkedStep_eq (g : GaussNewton F) (s : GaussNewtonState F) :
    g.checkedStep r y s = g.step r y s := by
  rw [checkedStep, step, lineariseInPlace_eq]
  refine Traced.bind_congr fun l hl => ?_
  dsimp only
  split
  · rfl
  · refine Traced.bind_congr fun a ha => ?_
    rw [g.linearSolver.checkedFactor_eq]
    refine Traced.bind_congr fun factored hfactored => ?_
    rw [g.linearSolver.checkedSolve_eq (sizes_of_linearise positive outputs hl ha).1 hfactored]
    refine Traced.bind_congr fun newton hnewton => ?_
    have hd := length_newton positive outputs hl ha hfactored hnewton
    obtain ⟨newton, linearStatus⟩ := newton
    dsimp only at hd ⊢
    rw [g.lineSearch.solve_checkedAlongLine hd length_of_init, ← measure_eq]
    refine Traced.bind_congr fun found hfound => Traced.bind_congr fun settled hsettled => ?_
    have length := length_settled hd hfound hsettled
    obtain ⟨diff, least, searchStatus⟩ := settled
    dsimp only at length ⊢
    rw [Vec.together_eq _ length.symm, Traced.liftM_ok_bind]

end Sizes
end GaussNewton
end DualOpt
