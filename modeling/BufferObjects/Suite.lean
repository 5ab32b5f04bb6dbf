import BufferObjects.Log.Record

/-!
Suites of checks that run without a test harness and report to the log: a heading, two lines for
each check, and the totals. Each check brings what it logged itself.
-/

namespace BufferObjects

/-- How a check ended. -/
inductive CheckResult
  | passed | failed | skipped
  deriving DecidableEq, Repr

/-- A check that has run: its name, its own records, and how it ended. -/
structure Check where
  name : String
  records : List Record
  result : CheckResult

/-- The totals of a suite. -/
structure SuiteReport where
  passed : Nat
  failed : Nat
  skipped : Nat
  deriving DecidableEq, Repr

namespace SuiteReport

def ok (r : SuiteReport) : Bool := r.failed == 0

def ofResults (rs : List CheckResult) : SuiteReport :=
  { passed := rs.count .passed, failed := rs.count .failed, skipped := rs.count .skipped }

end SuiteReport

namespace CheckResult

def level : CheckResult → Level
  | passed => .info
  | failed => .error
  | skipped => .warn

def mark : CheckResult → String
  | passed => "[PASS]"
  | failed => "[FAIL]"
  | skipped => "[SKIP]"

end CheckResult

namespace Check

/-- The records of one check in its suite. -/
def report (c : Check) : List Record :=
  c.records ++ [.line c.result.level c.result.mark none, .line c.result.level c.name none]

end Check

namespace Suite

/-- The closing records: how many checks passed and, if any, how many failed. -/
def totals (r : SuiteReport) : List Record :=
  .line .info "Resultados: passed=" (some (UInt64.ofNat r.passed)) ::
    if r.failed = 0 then []
    else [.line .error "Resultados: failed=" (some (UInt64.ofNat r.failed))]

/-- The totals of a suite and everything it logs. -/
def run (name : String) (checks : List Check) : SuiteReport × List Record :=
  let report := SuiteReport.ofResults (checks.map Check.result)
  (report,
    [.line .info "=== Executando suite:" none, .line .info name none] ++
      checks.flatMap Check.report ++ totals report)

end Suite

end BufferObjects
