import HouseStyle.Rule.Basic

/-!
# Interfaces of functions

Parameter lists that are too long, and neighbouring parameters that are easily swapped.
-/

namespace HouseStyle

/-- Whether an entity is a function, in a class or outside. -/
def Entity.isFunction (e : Entity) : Bool := e.kind == .function || e.kind == .method

namespace LongParameterListRule

/-- What is known about the rule. -/
def info : RuleInfo where
  id := "long-parameter-list"
  title := "Long parameter list"
  description := "Functions taking more parameters than `parameter_count_threshold` (default 4) " ++
    "are hard to call correctly; group related parameters into a struct."
  category := .interface
  severity := .warning
  example? := some "void draw(int x, int y, int w, int h, Color c);  // 5 > 4\n"

/-- The check. -/
def check (f : SourceFile) : List Violation :=
  let limit := f.config.parameterLimit
  (f.model.entities.filter fun e => e.isFunction && decide (limit < e.parameters.length)).map fun e =>
    info.violation
      ["`", e.name, "` takes ", Text.ofNat e.parameters.length, " parameters (limit ",
        Text.ofNat limit, ")."]
      (f.tokenLocation e.token)
      (some ["group related parameters into a struct or split the function"]) [] false []

end LongParameterListRule

namespace AdjacentTypesRule

/-- What is known about the rule. -/
def info : RuleInfo where
  id := "adjacent-same-type-parameters"
  title := "Adjacent parameters of the same type"
  description := "Consecutive parameters with the same type are easy to swap at call sites " ++
    "without a compiler error."
  category := .interface
  severity := .info
  example? := some "Rect make_rect(int width, int height);  // make_rect(h, w) compiles\n"

/-- Neighbouring parameters of one type, with how many parameters stand before them. -/
structure Run where
  before : Nat
  first : Parameter
  others : List Parameter
  deriving DecidableEq, Repr

namespace Run

/-- The type of the parameters. -/
def typeText (r : Run) : Text := r.first.typeText

/-- How many parameters there are. -/
def length (r : Run) : Nat := r.others.length + 1

/-- Puts a parameter in front of runs whose first one starts at `before + 1`. -/
def cons (before : Nat) (p : Parameter) : List Run → List Run
  | [] => [⟨before, p, []⟩]
  | r :: runs =>
    if r.typeText = p.typeText then ⟨before, p, r.first :: r.others⟩ :: runs
    else ⟨before, p, []⟩ :: r :: runs

/-- The longest runs of a parameter list, when `before` parameters stand before it. -/
def ofList (before : Nat) : List Parameter → List Run
  | [] => []
  | p :: ps => cons before p (ofList (before + 1) ps)

end Run

/-- The violation of a run of several parameters. -/
def violation (f : SourceFile) (e : Entity) (r : Run) : Violation :=
  info.violation
    ["`", e.name, "` has ", Text.ofNat r.length, " consecutive parameters of type `", r.typeText,
      "` (positions ", Text.ofNat (r.before + 1), "-", Text.ofNat (r.before + r.length), ")."]
    (f.tokenLocation (r.first.name.getD e.token))
    (some ["use distinct types or a parameter struct so arguments cannot be swapped"]) [] false
    ((r.others.filterMap (·.name)).map f.tokenLocation)

/-- The check. -/
def check (f : SourceFile) : List Violation :=
  (f.model.entities.filter (·.isFunction)).flatMap fun e =>
    ((Run.ofList 0 e.parameters).filter fun r => decide (2 ≤ r.length) && !r.typeText.isEmpty).map
      (violation f e)

end AdjacentTypesRule

end HouseStyle
