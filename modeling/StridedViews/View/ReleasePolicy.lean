/-!
Release policies: what releasing a view does while it is exported.
-/

namespace StridedViews

/-- What releasing a view does while it is exported. -/
inductive ReleasePolicy where
  /-- Releases it all the same. -/
  | bestEffort
  /-- Refuses. -/
  | rejectWhileExported
  deriving DecidableEq, Repr, Inhabited

namespace ReleasePolicy

/-- The name of a policy in settings. -/
def name : ReleasePolicy → String
  | bestEffort => "best-effort"
  | rejectWhileExported => "reject-while-exported"

/-- The name of a policy in descriptions. -/
def label : ReleasePolicy → String
  | bestEffort => "BestEffort"
  | rejectWhileExported => "RejectWhileExported"

/-- The policy of a name. -/
def ofName? (s : String) : Option ReleasePolicy :=
  if s = bestEffort.name then some bestEffort
  else if s = rejectWhileExported.name then some rejectWhileExported
  else none

theorem ofName?_name (p : ReleasePolicy) : ofName? p.name = some p := by
  cases p <;> decide

end ReleasePolicy
end StridedViews
