import DualOpt.Expr.System
import DualOpt.Linear.ColumnMajor
import DualOpt.Message
import DualOpt.Proofs.Linear.Transposition
import DualOpt.Proofs.Stalled
import DualOpt.Solve
import DualOpt.Proofs.Linear.PseudoInverse
import DualOpt.Proofs.Descent
import DualOpt.Proofs.Exact.Elementary
import DualOpt.Proofs.Expr.Meaning
import DualOpt.Proofs.Forward.Derivative
import DualOpt.Proofs.Solver.Affine
import DualOpt.Proofs.Forward.Affine
import DualOpt.Proofs.Forward.Linearity
import DualOpt.Proofs.Sensitivity
import DualOpt.Proofs.Solver.History
import DualOpt.Proofs.Forward.Independence
import DualOpt.Proofs.Forward.Residual
import DualOpt.Proofs.Forward.Interior
import DualOpt.Proofs.Returned
import DualOpt.Proofs.Solver.Progress
import DualOpt.Proofs.FiniteSuccess
import DualOpt.Proofs.Convergence
import DualOpt.Proofs.Linear.InPlace
import DualOpt.Proofs.Linear.DirectTranspose
import DualOpt.Proofs.Solver.InverseHessian
import DualOpt.Proofs.LineSearch.Least
import DualOpt.Proofs.LineSearch.Reported
import DualOpt.Proofs.LineSearch.Termination
import DualOpt.Proofs.ImplicitFunction
import DualOpt.Proofs.Violations
import DualOpt.Proofs.Forward.Constancy
import DualOpt.Proofs.SignedZero
import DualOpt.Proofs.UnitProduct
import DualOpt.Proofs.Forward.Powers
import DualOpt.Proofs.Forward.ZeroBase
import DualOpt.Proofs.Forward.InPlace
import DualOpt.Proofs.Checked.Linear
import DualOpt.Proofs.Checked.Search
import DualOpt.Proofs.Checked.GaussNewton
import DualOpt.Proofs.Checked.Lbfgs
import DualOpt.Proofs.Checked.Step
import DualOpt.Proofs.Linear.OperatorShape
import DualOpt.Proofs.Linear.Scaling
import DualOpt.Proofs.Exact.Partial
import DualOpt.Proofs.Linear.CutSystem
import DualOpt.Proofs.Rounding
import DualOpt.Proofs.Squares
import DualOpt.Proofs.Linear.Skipped
