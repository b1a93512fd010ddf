import LambdaCalculus.Term

namespace LambdaCalculus

inductive Direction where
  | body | operator | operand
  deriving DecidableEq, Repr

abbrev Position := List Direction

namespace Term

@[simp]
def at? : Term → Position → Option Term
  | e, [] => some e
  | abs _ b, .body :: p => b.at? p
  | app f _, .operator :: p => f.at? p
  | app _ a, .operand :: p => a.at? p
  | _, _ :: _ => none

/-- The parameters of the abstractions that the way down passes, innermost first, and behind them
those of `scope`. -/
def paramsAbove (scope : List String) : Term → Position → List String
  | abs x b, .body :: p => b.paramsAbove (x :: scope) p
  | app f _, .operator :: p => f.paramsAbove scope p
  | app _ a, .operand :: p => a.paramsAbove scope p
  | _, _ => scope

def positions : Term → List Position
  | var _ => [[]]
  | abs _ b => [] :: b.positions.map (.body :: ·)
  | app f a => [] :: (f.positions.map (.operator :: ·) ++ a.positions.map (.operand :: ·))

def appliesToAbs : Term → Bool
  | app _ a => a.isAbs
  | _ => false

/-- The number of chains that end in an abstraction: of applications to an abstraction that are not
themselves the operator of another application. -/
def looseChains (e : Term) : Nat :=
  e.positions.countP fun p => (e.at? p).any appliesToAbs ∧ p.getLast? ≠ some .operator

def OccursFreeAt (e : Term) (p : Position) (x : String) : Prop :=
  e.at? p = some (var x) ∧ x ∉ e.paramsAbove [] p

instance (e : Term) (p : Position) (x : String) : Decidable (e.OccursFreeAt p x) :=
  inferInstanceAs (Decidable (_ ∧ _))

/-- Some abstraction over `x` stands around the position, and `k` others stand between the two, none
of them over `x`. -/
def BoundAt (e : Term) (p : Position) (x : String) (k : Nat) : Prop :=
  ∃ q r b, p = q ++ .body :: r ∧ e.at? q = some (abs x b) ∧ x ∉ b.paramsAbove [] r ∧
    (b.paramsAbove [] r).length = k

def freeAt? (e : Term) (p : Position) : Option String :=
  match e.at? p with
  | some (var x) => if x ∈ e.paramsAbove [] p then none else some x
  | _ => none

def freeOccurrences (e : Term) : List String := e.positions.filterMap e.freeAt?

def SameShape : Term → Term → Prop
  | var _, var _ => True
  | abs _ b, abs _ b' => b.SameShape b'
  | app f a, app f' a' => f.SameShape f' ∧ a.SameShape a'
  | _, _ => False

end Term

end LambdaCalculus
