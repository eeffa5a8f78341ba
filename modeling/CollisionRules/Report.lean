namespace CollisionRules

/-- The counts of one load. -/
structure LoadReport where
  /-- Statements other than empty ones. -/
  statements : Nat
  rejectedLines : Nat
  /-- Operands that name nothing known, and groups without a name. -/
  warnings : Nat
  /-- Groups bound, each time they were. -/
  groupsBound : Nat
  registrations : Nat
  /-- Deletions asked for, whether or not they deleted a rule. -/
  removals : Nat
  /-- The source could not be read to its end. -/
  truncated : Bool
  deriving DecidableEq, Repr

namespace LoadReport

def zero : LoadReport := ⟨0, 0, 0, 0, 0, 0, false⟩

def operations (report : LoadReport) : Nat :=
  report.registrations + report.removals

/-- Nothing was warned of. -/
def isClean (report : LoadReport) : Bool :=
  report.rejectedLines == 0 && report.warnings == 0 && !report.truncated

def render (report : LoadReport) : String :=
  s!"{report.statements} statements, {report.groupsBound} groups, " ++
    s!"{report.registrations} registered, {report.removals} removed, " ++
    s!"{report.rejectedLines} syntax errors, {report.warnings} warnings" ++
    if report.truncated then " (source truncated)" else ""

end LoadReport

end CollisionRules
