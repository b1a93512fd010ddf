import LambdaCalculus.Term.Normal
import LambdaCalculus.Term.Position
import Mathlib.Data.List.Basic

namespace LambdaCalculus

abbrev LabelTable := Std.HashMap String Nat

namespace LabelTable

def label (table : LabelTable) (x : String) : Nat × LabelTable :=
  (table.getD x table.size, table.insertIfNew x table.size)

/-- The labels are the numbers below `n`, and no two names share one. -/
structure Numbered (table : LabelTable) (n : Nat) : Prop where
  inj : ∀ (x y : String) (k : Nat), table[x]? = some k → table[y]? = some k → x = y
  range : ∀ k, (∃ x : String, table[x]? = some k) ↔ k < n

/-- The list holds the names in the order of their labels. -/
structure Lists (table : LabelTable) (labels : List String) : Prop where
  nodup : labels.Nodup
  lookup : ∀ (x : String) (k : Nat), table[x]? = some k ↔ x ∈ labels ∧ labels.idxOf x = k

end LabelTable

namespace Term

/-- As `normalizeIn`, with a table that is looked up by name. -/
def normalizeWith (scope : List String) : Term → LabelTable → Term × LabelTable
  | var x, table =>
    match scope.idxOf? x with
    | some k => (var (boundName k), table)
    | none =>
      let (n, table) := table.label x
      (var (freeName n), table)
  | abs p b, table =>
    let (b', table) := b.normalizeWith (p :: scope) table
    (abs normalParam b', table)
  | app f a, table =>
    let (f', table) := f.normalizeWith scope table
    let (a', table) := a.normalizeWith scope table
    (app f' a', table)

def freeAtIn? (scope : List String) (e : Term) (q : Position) : Option String :=
  match e.at? q with
  | some (var x) => if x ∈ e.paramsAbove scope q then none else some x
  | _ => none

def freeOccurrencesIn (scope : List String) (e : Term) : List String :=
  e.positions.filterMap (e.freeAtIn? scope)

end Term

end LambdaCalculus
