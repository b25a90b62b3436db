import HouseStyle.Rule.Casts
import HouseStyle.Rule.Enums
import HouseStyle.Rule.Interface
import HouseStyle.Rule.Layout
import HouseStyle.Rule.Naming
import HouseStyle.Rule.Ownership

/-!
# All rules

The rules of the library, in increasing order of their names.
-/

namespace HouseStyle

namespace Rule

/-- A rule whose check never fails. A check of the library could only fail at a scope that is not
there, and none that it looks up is missing (`Model.WellScoped.exists_scope`, `exists_bodyScope`). -/
def total (info : RuleInfo) (check : SourceFile → List Violation) : Rule :=
  { info, check := fun f => .ok (check f) }

/-- The rules of the library. -/
def builtin : List Rule := [
  total AdjacentTypesRule.info AdjacentTypesRule.check,
  total LongParameterListRule.info LongParameterListRule.check,
  total IncludeGuardRule.info IncludeGuardRule.check,
  total NamingRule.info NamingRule.check,
  total CastRule.info CastRule.check,
  total OwnershipRule.info OwnershipRule.check,
  total UnparsedRule.info UnparsedRule.check,
  total UnscopedEnumRule.info UnscopedEnumRule.check]

/-- The names of all rules. -/
def ids : List String := builtin.map (·.info.id)

/-- The rule of a name. -/
def find? (id : String) : Option Rule := builtin.find? (·.info.id == id)

/-- All rules with whether they are enabled by default. -/
def defaultEnablement : List (String × Bool) :=
  builtin.map fun r => (r.info.id, r.info.enabledByDefault)

/-- The rules that a configuration enables. -/
def enabled (config : Config) : List Rule :=
  let ids := config.enabledRuleIds defaultEnablement
  builtin.filter fun r => ids.contains r.info.id

end Rule

end HouseStyle
