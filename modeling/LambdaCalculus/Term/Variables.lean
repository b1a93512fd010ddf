import LambdaCalculus.Term

namespace LambdaCalculus.Term

@[simp]
def names : Term → List String
  | var x => [x]
  | abs p b => p :: b.names
  | app f a => f.names ++ a.names

@[simp]
def variableNames : Term → List String
  | var x => [x]
  | abs _ b => b.variableNames
  | app f a => f.variableNames ++ a.variableNames

@[simp]
def binds (x : String) : Term → Bool
  | var _ => false
  | abs p b => p == x || b.binds x
  | app f a => f.binds x || a.binds x

def mergeNames (xs ys : List String) : List String :=
  xs ++ ys.filter fun y => !xs.contains y

/-- The free variables, each once, in the order in which they first occur. -/
@[simp]
def freeVariables : Term → List String
  | var x => [x]
  | abs p b => b.freeVariables.filter (· != p)
  | app f a => mergeNames f.freeVariables a.freeVariables

def isClosedIn (scope : List String) : Term → Bool
  | var x => scope.contains x
  | abs p b => b.isClosedIn (p :: scope)
  | app f a => f.isClosedIn scope && a.isClosedIn scope

def isClosed (e : Term) : Bool := e.isClosedIn []

@[simp]
theorem mem_mergeNames {x : String} {xs ys : List String} :
    x ∈ mergeNames xs ys ↔ x ∈ xs ∨ x ∈ ys := by
  simp only [mergeNames, List.mem_append, List.mem_filter, Bool.not_eq_true',
    List.contains_eq_mem, decide_eq_false_iff_not]
  constructor
  · rintro (h | ⟨h, _⟩)
    · exact .inl h
    · exact .inr h
  · rintro (h | h)
    · exact .inl h
    · by_cases hx : x ∈ xs
      · exact .inl hx
      · exact .inr ⟨h, hx⟩

theorem nodup_mergeNames {xs ys : List String} (hx : xs.Nodup) (hy : ys.Nodup) :
    (mergeNames xs ys).Nodup := by
  refine List.nodup_append.2 ⟨hx, hy.filter _, ?_⟩
  intro a ha b hb hab
  subst hab
  simp [ha] at hb

theorem nodup_freeVariables (e : Term) : e.freeVariables.Nodup := by
  induction e with
  | var x => simp
  | abs p b ih => exact ih.filter _
  | app f a hf ha => exact nodup_mergeNames hf ha

end LambdaCalculus.Term
