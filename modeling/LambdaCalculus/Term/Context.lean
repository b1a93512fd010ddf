import LambdaCalculus.Term

namespace LambdaCalculus

inductive Context where
  | hole
  | abs (param : String) (body : Context)
  | operator (f : Context) (operand : Term)
  | operand (operator : Term) (a : Context)
  deriving DecidableEq, Repr

def Context.fill : Context → Term → Term
  | hole, e => e
  | abs p c, e => .abs p (c.fill e)
  | operator c a, e => .app (c.fill e) a
  | operand f c, e => .app f (c.fill e)

end LambdaCalculus
