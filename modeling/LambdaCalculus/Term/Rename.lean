import LambdaCalculus.Term.Variables

namespace LambdaCalculus.Term

inductive RenameError where
  | capture (old new : String)
  deriving DecidableEq, Repr

def RenameError.message : RenameError → String
  | capture old new =>
    s!"Cannot rename {old} to {new}: {new} is already bound by a nested abstraction"

def renameFree (old new : String) : Term → Term
  | var x => if x = old then var new else var x
  | abs p b => if p = old then abs p b else abs p (b.renameFree old new)
  | app f a => app (f.renameFree old new) (a.renameFree old new)

/-- Renames the free occurrences of `old`, and the outermost abstractions over `old` together with
the variables they bind. -/
def renameOutermost (old new : String) : Term → Term
  | var x => if x = old then var new else var x
  | abs p b =>
    if p = old then abs new (b.renameFree old new) else abs p (b.renameOutermost old new)
  | app f a => app (f.renameOutermost old new) (a.renameOutermost old new)

/-- Only the new name decides: it must not be the parameter of any abstraction. -/
def canRename (e : Term) (_ new : String) : Bool := !e.binds new

def rename (e : Term) (old new : String) : Except RenameError Term :=
  if e.canRename old new then .ok (e.renameOutermost old new) else .error (.capture old new)

end LambdaCalculus.Term
