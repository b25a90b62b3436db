import HouseStyle.Number.Reading
import HouseStyle.Text.Case

/-!
# The number of workers

How many files are checked at a time. It changes no result.
-/

namespace HouseStyle.Workers

/-- The most workers, unless told otherwise. -/
def maximum : Int := 32

/-- The number of workers when none is asked for: twice the processors, one of which there is even
if nothing is known of them. A number given as default is taken instead. There is at least one. -/
def byDefault (processors : Option Int) (default : Option Int) : Int :=
  let known := match processors with | some 0 => 1 | some n => n | none => 1
  max 1 (default.getD (2 * known))

/-- The number of workers for a setting. Whatever is no positive number stands for the default, and
no more than `maximum` are used. -/
def count (setting : Option String) (processors : Option Int) (default : Option Int)
    (maximum : Int) : Int :=
  let asked := (setting.bind fun s => NumberText.integer? (Case.lower s)).filter (0 < ·)
  min (asked.getD (byDefault processors default)) maximum

end HouseStyle.Workers
