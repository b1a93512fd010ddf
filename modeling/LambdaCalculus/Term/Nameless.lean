import LambdaCalculus.Term

namespace LambdaCalculus

/-- Terms whose bound variables count the abstractions between them and their binder. -/
inductive Nameless where
  | bound (index : Nat)
  | free (name : String)
  | abs (body : Nameless)
  | app (operator operand : Nameless)
  deriving DecidableEq, Repr

namespace Nameless

@[simp]
def mapFree (φ : String → String) : Nameless → Nameless
  | bound k => bound k
  | free x => free (φ x)
  | abs b => abs (b.mapFree φ)
  | app f a => app (f.mapFree φ) (a.mapFree φ)

end Nameless

namespace Term

def namelessIn (scope : List String) : Term → Nameless
  | var x =>
    match scope.idxOf? x with
    | some k => .bound k
    | none => .free x
  | abs p b => .abs (b.namelessIn (p :: scope))
  | app f a => .app (f.namelessIn scope) (a.namelessIn scope)

def nameless (e : Term) : Nameless := e.namelessIn []

def AlphaEquivalent (e f : Term) : Prop := e.nameless = f.nameless

instance (e f : Term) : Decidable (e.AlphaEquivalent f) :=
  inferInstanceAs (Decidable (e.nameless = f.nameless))

end Term

end LambdaCalculus
