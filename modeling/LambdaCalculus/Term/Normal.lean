import LambdaCalculus.Term

namespace LambdaCalculus.Term

def normalParam : String := "L"

/-- A bound variable of a normal form, `k` abstractions inside the one that binds it. -/
def boundName (k : Nat) : String := "b" ++ k.repr

def freeName (n : Nat) : String := "u" ++ n.repr

/-- The names in `labels` have their positions as labels; a name that is not yet among them gets the
next position. -/
def label (labels : List String) (x : String) : List String :=
  if labels.contains x then labels else labels ++ [x]

/-- `scope` holds the parameters around the term, innermost first. -/
def normalizeIn (scope : List String) : Term → List String → Term × List String
  | var x, labels =>
    match scope.idxOf? x with
    | some k => (var (boundName k), labels)
    | none => (var (freeName (labels.idxOf x)), label labels x)
  | abs p b, labels =>
    let (b', labels) := b.normalizeIn (p :: scope) labels
    (abs normalParam b', labels)
  | app f a, labels =>
    let (f', labels) := f.normalizeIn scope labels
    let (a', labels) := a.normalizeIn scope labels
    (app f' a', labels)

def normalize (e : Term) : Term := (e.normalizeIn [] []).1

def Equivalent (e f : Term) : Prop := e.normalize = f.normalize

instance (e f : Term) : Decidable (e.Equivalent f) :=
  inferInstanceAs (Decidable (e.normalize = f.normalize))

end LambdaCalculus.Term
