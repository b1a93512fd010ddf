import LambdaCalculus.Term

namespace LambdaCalculus.Term

def groupIf (needed : Bool) (text : String) : String :=
  if needed then "(" ++ text ++ ")" else text

/-- An abstraction reaches as far right as it can, so it is grouped in front of an operand, and as
an operand too, because another operand may follow. A chain leans to the left, so an application is
grouped as an operand only. -/
def print : Term → String
  | var x => x
  | abs p b => "λ" ++ p ++ "." ++ b.print
  | app f a => groupIf f.isAbs f.print ++ " " ++ groupIf (!a.isVar) a.print

end LambdaCalculus.Term
