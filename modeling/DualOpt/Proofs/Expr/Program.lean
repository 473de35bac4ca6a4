import Mathlib.Data.Nat.Notation
import DualOpt.Expr.System

/-!
Programs over dual numbers, which compare numbers and go on as the outcomes tell.

A system of expressions has a fixed number of outputs. A program may also loop for as long as its
comparisons say, and return as many outputs as they say.
-/
namespace DualOpt

/-- The sides that evaluation takes, in the order in which it comes to them. -/
def Expr.branches {F : Type} [Elementary F] (y t : List (Dual F)) : Expr F → List Bool
  | const _ => []
  | var _ => []
  | param _ => []
  | unary _ e => e.branches y t
  | binary _ a b => a.branches y t ++ b.branches y t
  | powInt e _ => e.branches y t
  | scalarRight _ e _ => e.branches y t
  | scalarLeft _ _ e => e.branches y t
  | primal e => e.branches y t
  | seed e => e.branches y t
  | branch test a b ifTrue ifFalse =>
    a.branches y t ++ b.branches y t ++
      if test.holds (a.eval y t) (b.eval y t) then true :: ifTrue.branches y t
      else false :: ifFalse.branches y t

/-- What a program does next. -/
inductive Action (F : Type) where
  | outputs (es : List (Expr F))
  | compare (test : Comparison) (a b : Expr F)

/-- A program over dual numbers. What it does next depends on the outcomes of its comparisons so
far, so it may branch, loop and end early, and its number of outputs may differ from run to run. -/
structure Program (F : Type) where
  next : List Bool → Action F

namespace Program
variable {F A : Type} [Elementary F]

/-- The outcome of a comparison, if both operands are defined. -/
def compare (y t : List (Dual F)) (test : Comparison) (a b : Expr F) : Except Fault Bool := do
  return test.holds (← a.evaluate y t) (← b.evaluate y t)

theorem compare_ok {y t : List (Dual F)} {test : Comparison} {a b : Expr F} (ha : a.defined y t)
    (hb : b.defined y t) : compare y t test a b = .ok (test.holds (a.eval y t) (b.eval y t)) := by
  rw [compare, Expr.evaluate_ok ha, Expr.evaluate_ok hb]
  rfl

/-- What a run yields: the sides taken, also those inside of expressions, and the outputs. -/
structure Outcome (F : Type) where
  sides : List Bool
  outputs : Except Fault (List (Dual F))

/-- A run by at most `n` actions after the outcomes `path`, if it ends. -/
def run (p : Program F) (y t : List (Dual F)) : ℕ → List Bool → Option (Outcome F)
  | 0, _ => none
  | n + 1, path =>
    match p.next path with
    | .outputs es => some ⟨es.flatMap (Expr.branches y t), es.mapM (Expr.evaluate y t)⟩
    | .compare test a b =>
      match compare y t test a b with
      | .error fault => some ⟨[], .error fault⟩
      | .ok side => (p.run y t n (path ++ [side])).map fun rest =>
        ⟨a.branches y t ++ b.branches y t ++ side :: rest.sides, rest.outputs⟩

/-- Comes from the outcomes `path` to the outputs `es`. -/
inductive Leads (p : Program F) (y t : List (Dual F)) : List Bool → List (Expr F) → Prop where
  | outputs {path : List Bool} {es : List (Expr F)} (next : p.next path = .outputs es) :
    p.Leads y t path es
  | compare {path : List Bool} {es : List (Expr F)} {test : Comparison} {a b : Expr F} {side : Bool}
    (next : p.next path = .compare test a b) (decided : compare y t test a b = .ok side)
    (rest : p.Leads y t (path ++ [side]) es) : p.Leads y t path es

section Runs
variable {y t : List (Dual F)} {path : List Bool} {test : Comparison} {a b : Expr F}

theorem run_outputs {p : Program F} {es : List (Expr F)} (next : p.next path = .outputs es)
    (n : ℕ) : p.run y t (n + 1) path =
      some ⟨es.flatMap (Expr.branches y t), es.mapM (Expr.evaluate y t)⟩ := by
  rw [run, next]

theorem run_fault {p : Program F} (next : p.next path = .compare test a b) {fault : Fault}
    (faults : compare y t test a b = .error fault) (n : ℕ) :
    p.run y t (n + 1) path = some ⟨[], .error fault⟩ := by
  simp only [run, next, faults]

theorem run_side {p : Program F} (next : p.next path = .compare test a b) {side : Bool}
    (decided : compare y t test a b = .ok side) (n : ℕ) :
    p.run y t (n + 1) path = (p.run y t n (path ++ [side])).map fun rest =>
      ⟨a.branches y t ++ b.branches y t ++ side :: rest.sides, rest.outputs⟩ := by
  simp only [run, next, decided]

/-- A run that has ended is not changed by a larger bound. -/
theorem run_add (p : Program F) {n : ℕ} {outcome : Outcome F}
    (h : p.run y t n path = some outcome) (k : ℕ) : p.run y t (n + k) path = some outcome := by
  induction n generalizing path outcome with
  | zero => cases h
  | succ n ih =>
    rw [Nat.add_right_comm]
    cases next : p.next path with
    | outputs es => rwa [run_outputs next] at h ⊢
    | compare test a b =>
      cases decided : compare y t test a b with
      | error fault => rwa [run_fault next decided] at h ⊢
      | ok side =>
        rw [run_side next decided] at h ⊢
        obtain ⟨rest, hrest, rfl⟩ := Option.map_eq_some_iff.mp h
        rw [ih hrest, Option.map_some]

theorem run_unique (p : Program F) {m n : ℕ} {first second : Outcome F}
    (hm : p.run y t m path = some first) (hn : p.run y t n path = some second) :
    first = second := by
  have later := p.run_add hm n
  rw [Nat.add_comm, p.run_add hn m] at later
  exact (Option.some.inj later).symm

/-- A run that returns has come to outputs. -/
theorem exists_leads (p : Program F) {n : ℕ} {outcome : Outcome F}
    (h : p.run y t n path = some outcome) {outputs : List (Dual F)}
    (returns : outcome.outputs = .ok outputs) : ∃ es, p.Leads y t path es := by
  induction n generalizing path outcome with
  | zero => cases h
  | succ n ih =>
    cases next : p.next path with
    | outputs es => exact ⟨es, .outputs next⟩
    | compare test a b =>
      cases decided : compare y t test a b with
      | error fault =>
        rw [run_fault next decided] at h
        obtain rfl := Option.some.inj h
        cases returns
      | ok side =>
        rw [run_side next decided] at h
        obtain ⟨rest, hrest, rfl⟩ := Option.map_eq_some_iff.mp h
        obtain ⟨es, leads⟩ := ih hrest returns
        exact ⟨es, .compare next decided leads⟩

namespace Leads
variable {p : Program F} {es : List (Expr F)}

theorem exists_run (h : p.Leads y t path es) :
    ∃ n sides, p.run y t n path = some ⟨sides, es.mapM (Expr.evaluate y t)⟩ := by
  induction h with
  | outputs next => exact ⟨1, _, run_outputs next 0⟩
  | compare next decided rest ih =>
    obtain ⟨n, sides, hrun⟩ := ih
    exact ⟨n + 1, _, by rw [run_side next decided, hrun, Option.map_some]⟩

theorem exists_next (h : p.Leads y t path es) : ∃ last, p.next last = .outputs es := by
  induction h with
  | outputs next => exact ⟨_, next⟩
  | compare _ _ _ ih => exact ih

/-- A program comes to one list of outputs only. -/
theorem unique (h : p.Leads y t path es) {es' : List (Expr F)} (h' : p.Leads y t path es') :
    es = es' := by
  induction h with
  | outputs next =>
    cases h' with
    | outputs next' => exact Action.outputs.inj (next.symm.trans next')
    | compare next' _ _ => cases next.symm.trans next'
  | compare next decided _ ih =>
    cases h' with
    | outputs next' => cases next.symm.trans next'
    | compare next' decided' rest' =>
      obtain ⟨rfl, rfl, rfl⟩ := Action.compare.inj (next.symm.trans next')
      obtain rfl := Except.ok.inj (decided.symm.trans decided')
      exact ih rest'

end Leads

end Runs

/-- Is what the program returns, which ends on every input. -/
def Computes (p : Program F) (t : List (Dual F))
    (f : List (Dual F) → Except Fault (List (Dual F))) : Prop :=
  ∀ d, ∃ n sides, p.run d t n [] = some ⟨sides, f d⟩

/-- What a program comes to is what it returns. -/
theorem Computes.eq_of_leads {p : Program F} {d t : List (Dual F)} {es : List (Expr F)}
    {f : List (Dual F) → Except Fault (List (Dual F))} (h : p.Computes t f)
    (leads : p.Leads d t [] es) : f d = es.mapM (Expr.evaluate d t) := by
  obtain ⟨m, sides, hm⟩ := h d
  obtain ⟨n, sides', hn⟩ := leads.exists_run
  exact congrArg Outcome.outputs (p.run_unique hm hn)

/-- What a program returns that makes at most `n` comparisons. -/
def upTo (p : Program F) (t : List (Dual F)) (n : ℕ) (d : List (Dual F)) :
    Except Fault (List (Dual F)) :=
  ((p.run d t (n + 1) []).map Outcome.outputs).getD (.ok [])

theorem exists_run (p : Program F) (y t : List (Dual F)) {n N : ℕ}
    (ends : ∀ path, N ≤ path.length → ∃ es, p.next path = .outputs es) {path : List Bool}
    (enough : N ≤ n + path.length) : ∃ outcome, p.run y t (n + 1) path = some outcome := by
  induction n generalizing path with
  | zero =>
    obtain ⟨es, next⟩ := ends path (by omega)
    exact ⟨_, run_outputs next 0⟩
  | succ n ih =>
    cases next : p.next path with
    | outputs es => exact ⟨_, run_outputs next _⟩
    | compare test a b =>
      cases decided : compare y t test a b with
      | error fault => exact ⟨_, run_fault next decided _⟩
      | ok side =>
        have later : N ≤ n + (path ++ [side]).length := by
          rw [List.length_append, List.length_singleton]
          omega
        obtain ⟨rest, hrest⟩ := ih later
        exact ⟨_, by rw [run_side next decided, hrest, Option.map_some]⟩

theorem computes_upTo (p : Program F) (t : List (Dual F)) {n : ℕ}
    (ends : ∀ path, n ≤ path.length → ∃ es, p.next path = .outputs es) :
    p.Computes t (p.upTo t n) := by
  intro d
  obtain ⟨outcome, h⟩ : ∃ outcome, p.run d t (n + 1) [] = some outcome :=
    p.exists_run d t ends (Nat.le_add_right n 0)
  exact ⟨n + 1, outcome.sides, by simp [upTo, h]⟩

/-- A system is a program that compares nothing between its outputs. -/
def ofSystem (s : System F) : Program F where
  next _ := .outputs s.outputs

theorem computes_ofSystem (s : System F) (t : List (Dual F)) :
    (ofSystem s).Computes t (s.outputsAt · t) :=
  fun _ => ⟨1, _, rfl⟩

end Program
end DualOpt
