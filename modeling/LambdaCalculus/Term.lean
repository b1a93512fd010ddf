namespace LambdaCalculus

inductive Term where
  | var (name : String)
  | abs (param : String) (body : Term)
  | app (operator operand : Term)
  deriving DecidableEq, Repr

namespace Term

def kindName : Term → String
  | var _ => "Variable"
  | abs _ _ => "Abstraction"
  | app _ _ => "Application"

def isVar : Term → Bool
  | var _ => true
  | _ => false

def isAbs : Term → Bool
  | abs _ _ => true
  | _ => false

def operator? : Term → Option Term
  | app f _ => some f
  | _ => none

def operand? : Term → Option Term
  | app _ a => some a
  | _ => none

def body? : Term → Option Term
  | abs _ b => some b
  | _ => none

/-- The first parameter belongs to the outermost abstraction. -/
def abstractAll (params : List String) (body : Term) : Term :=
  params.foldr abs body

end Term

end LambdaCalculus
