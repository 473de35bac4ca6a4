import DualOpt.Proofs.Exact.Coordinates
import DualOpt.Proofs.Loop
import DualOpt.Convergence

/-!
Runs that stand still.

A solver that takes the zero step exactly where something blocks it, and is done after a zero step,
ends a run as a success at a point where it is blocked. What such a point is like otherwise is
whatever a step ensures of the place where it stays.
-/
namespace DualOpt

namespace Vec

theorem foldl_max_replicate_zero (n : ℕ) :
    (List.replicate n (0 : ℝ)).foldl (fun acc a => Scalar.max acc (Scalar.abs a)) 0 = 0 := by
  induction n with
  | zero => rfl
  | succ n ih => simpa [List.replicate_succ] using ih

theorem maxNorm_zerosLike (y : Vec ℝ) : maxNorm (zerosLike y) = 0 :=
  foldl_max_replicate_zero y.length

theorem twoNorm_zerosLike (y : Vec ℝ) : twoNorm (zerosLike y) = 0 := by
  rw [twoNorm, sumSquares, inner_eq_dotProduct (n := y.length) _ (by simp), coords_zerosLike,
    zero_dotProduct, Scalar.sqrt_real, Real.sqrt_zero]

theorem allFinite_real (y : Vec ℝ) : allFinite y = true := List.all_eq_true.mpr fun _ _ => rfl

end Vec

theorem Status.merge_eq_successful_iff {a b : Status} :
    a.merge b = .successful ↔ a = .successful ∧ b = .successful := by
  cases a <;> cases b <;> decide

namespace Convergence

theorem small_zerosLike (c : Convergence ℝ) (y : Vec ℝ) : c.small y (Vec.zerosLike y) = true := by
  have scaled : y.zipWith (fun xi di => di / (c.atol + c.rtol * Scalar.abs xi)) (Vec.zerosLike y) =
      Vec.zerosLike y := by
    refine List.ext_getElem (by simp) fun i hi hj => ?_
    simp [Vec.zerosLike, Vec.fill]
  have norm : c.norm.apply (Vec.zerosLike y) = 0 := by
    cases c.norm with
    | max => exact Vec.maxNorm_zerosLike y
    | two => exact Vec.twoNorm_zerosLike y
  rw [small, scaled, norm]
  exact decide_eq_true one_pos

/-- A zero step that does not change the objective passes the test at any tolerance. -/
theorem converged_zerosLike (c : Convergence ℝ) (y : Vec ℝ) (f : ℝ) :
    c.converged y (Vec.zerosLike y) [f] [0] = true := by
  rw [converged, c.small_zerosLike]
  exact c.small_zerosLike [f]

end Convergence

namespace Solver
variable {S A : Type}

/-- A run stands still exactly where it is blocked, and standing still ends it as a success. -/
structure StandsStill (solver : Solver ℝ (Vec ℝ) S A) (diff : S → Vec ℝ)
    (blocked directed : Vec ℝ → S → Prop) : Prop where
  /-- A successful solve whose last step is zero has ended where it is blocked and directed. -/
  blocked_of_solve : ∀ y outputs (options : SolveOptions ℝ) stationarity solution,
    (solver.solve y outputs options stationarity).outcome = .ok (.ok solution) →
    solution.status = .successful →
    ∃ s₀ s, (solver.init y outputs options.tags).outcome = .ok (.ok s₀) ∧
      solver.after y s₀ solution.stats.numSteps = .ok (solution.value, s, solution.payload) ∧
      (diff s = Vec.zerosLike solution.value →
        blocked solution.value s ∧ directed solution.value s)
  /-- From where it is blocked, a run that does not fail takes one zero step and is done. -/
  done_of_blocked : ∀ y outputs tags s₀,
    (solver.init y outputs tags).outcome = .ok (.ok s₀) → ∀ k p q,
    solver.after y s₀ k = .ok p → solver.after y s₀ (k + 1) = .ok q → blocked p.1 p.2.1 →
    (solver.terminate q.1 q.2.1).2 = .successful →
    q.1 = p.1 ∧ diff q.2.1 = Vec.zerosLike p.1 ∧
      solver.terminate q.1 q.2.1 = (true, .successful)

/-- What a single step has to satisfy for this, under an invariant of the run. -/
structure StepStandsStill (solver : Solver ℝ (Vec ℝ) S A) (diff : S → Vec ℝ)
    (blocked directed inv : Vec ℝ → S → Prop) : Prop where
  start : ∀ y outputs tags s, (solver.init y outputs tags).outcome = .ok (.ok s) →
    inv y s ∧ (solver.terminate y s).1 = false
  keeps : ∀ y s q, inv y s → (solver.step y s).outcome = .ok q → inv q.1 q.2.1
  zero_iff : ∀ y s q, inv y s → (solver.step y s).outcome = .ok q →
    (solver.terminate q.1 q.2.1).2 = .successful →
    (diff q.2.1 = Vec.zerosLike y ↔ blocked y s)
  stays : ∀ y s q, inv y s → (solver.step y s).outcome = .ok q →
    (solver.terminate q.1 q.2.1).2 = .successful → diff q.2.1 = Vec.zerosLike y →
    q.1 = y ∧ (solver.terminate q.1 q.2.1).1 = true ∧ (blocked y s → blocked q.1 q.2.1) ∧
      directed q.1 q.2.1
  length : ∀ y s q, inv y s → (solver.step y s).outcome = .ok q →
    (solver.terminate q.1 q.2.1).2 = .successful → q.1.length = y.length

variable {solver : Solver ℝ (Vec ℝ) S A} {diff : S → Vec ℝ}
variable {blocked directed inv : Vec ℝ → S → Prop}

/-- Where a zero step has led and no failure has been seen, the run is still blocked. -/
theorem StepStandsStill.blocked_of_after (h : solver.StepStandsStill diff blocked directed inv)
    {y : Vec ℝ} {s : S} (start : inv y s) {k : ℕ} {p : Vec ℝ × S × Option A}
    (hp : solver.after y s (k + 1) = .ok p) (success : (solver.terminate p.1 p.2.1).2 = .successful)
    (zero : diff p.2.1 = Vec.zerosLike p.1) : blocked p.1 p.2.1 ∧ directed p.1 p.2.1 := by
  obtain ⟨r, q, hr, hq, rfl⟩ := solver.exists_of_after_succ hp
  have inv_r : inv r.1 r.2.1 := solver.after_induction start h.keeps hr
  have zero_r : diff q.2.1 = Vec.zerosLike r.1 := by
    rw [zero, Vec.zerosLike, Vec.zerosLike, h.length _ _ q inv_r hq success]
  obtain ⟨-, -, still_blocked, directed⟩ := h.stays _ _ q inv_r hq success zero_r
  exact ⟨still_blocked ((h.zero_iff _ _ q inv_r hq success).mp zero_r), directed⟩

theorem StepStandsStill.standsStill (h : solver.StepStandsStill diff blocked directed inv) :
    solver.StandsStill diff blocked directed where
  blocked_of_solve y outputs options stationarity solution hsolve success := by
    obtain ⟨s₀, s, hinit, hs, done⟩ := solver.exists_of_successful hsolve success
    refine ⟨s₀, s, hinit, hs, fun zero => ?_⟩
    have stepped := solver.numSteps_pos_of_successful
      (fun s hs => (h.start y outputs options.tags s hs).2) hsolve success
    obtain ⟨k, steps⟩ := Nat.exists_eq_add_one_of_ne_zero stepped.ne'
    rw [steps] at hs
    exact h.blocked_of_after (h.start y outputs options.tags s₀ hinit).1 hs
      (congrArg Prod.snd done) zero
  done_of_blocked y outputs tags s₀ hinit k p q hp hnext hblocked success := by
    obtain ⟨r, next, hr, hstep, rfl⟩ := solver.exists_of_after_succ hnext
    obtain rfl := Except.ok.inj (hp.symm.trans hr)
    have inv_p : inv p.1 p.2.1 :=
      solver.after_induction (h.start y outputs tags s₀ hinit).1 h.keeps hp
    have zero := (h.zero_iff _ _ next inv_p hstep success).mpr hblocked
    obtain ⟨stays, done, -⟩ := h.stays _ _ next inv_p hstep success zero
    exact ⟨stays, zero, Prod.ext done success⟩

/-- A solve that starts where it is blocked is a success after one zero step. -/
theorem StepStandsStill.solve_of_blocked (h : solver.StepStandsStill diff blocked directed inv)
    (outputs : ℕ) (options : SolveOptions ℝ) {y : Vec ℝ} {s : S} {q : Vec ℝ × S × A}
    (hinit : (solver.init y outputs options.tags).outcome = .ok (.ok s))
    (started : (solver.terminate y s).2 = .successful) (hstep : (solver.step y s).outcome = .ok q)
    (success : (solver.terminate q.1 q.2.1).2 = .successful) (hblocked : blocked y s)
    (budget : 1 ≤ options.limit) :
    (solver.solve y outputs options none).outcome =
        .ok (.ok ⟨y, .successful, some q.2.2, ⟨1, options.maxSteps⟩⟩) ∧
      solver.after y s 1 = .ok (y, q.2.1, some q.2.2) ∧ diff q.2.1 = Vec.zerosLike y := by
  obtain ⟨inv₀, waits⟩ := h.start y outputs options.tags s hinit
  have zero := (h.zero_iff y s q inv₀ hstep success).mpr hblocked
  obtain ⟨stays, done, -⟩ := h.stays y s q inv₀ hstep success zero
  have hafter : solver.after y s 1 = .ok (q.1, q.2.1, some q.2.2) := by
    rw [solver.after_succ (p := (y, s, none)) rfl, hstep, ok_map]
  have first : IsLeast (solver.stopTimes y s) 1 := by
    refine solver.isLeast_stopTimes hafter (.inl done) fun k hk p hp => ?_
    obtain rfl : k = 0 := by omega
    obtain rfl := Except.ok.inj hp
    rintro (finished | failed)
    · exact Bool.false_ne_true (waits.symm.trans finished)
    · exact failed started
  refine ⟨?_, stays ▸ hafter, zero⟩
  rw [solver.solve_of_isLeast none hinit first hafter budget, success, stays]
  simp [Solver.examine, SolveOptions.deliver, Status.isSuccessful]

end Solver
end DualOpt
