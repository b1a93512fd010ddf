import LambdaCalculus.Proofs.FreeNames
import LambdaCalculus.Proofs.Position
import LambdaCalculus.Term.Normal
import Mathlib.Data.List.Basic
import Std.Data.String.ToNat

namespace LambdaCalculus

namespace Term

theorem boundName_inj {k m : Nat} : boundName k = boundName m ↔ k = m := by
  simp [boundName, Nat.repr_inj]

theorem freeName_inj {n m : Nat} : freeName n = freeName m ↔ n = m := by
  simp [freeName, Nat.repr_inj]

theorem boundName_ne_freeName (k n : Nat) : boundName k ≠ freeName n := by
  intro h
  have hl := congrArg String.toList h
  simp [boundName, freeName] at hl

theorem boundName_ne_normalParam (k : Nat) : boundName k ≠ normalParam := by
  intro h
  have hl := congrArg String.toList h
  simp [boundName, normalParam] at hl

theorem freeName_ne_normalParam (n : Nat) : freeName n ≠ normalParam := by
  intro h
  have hl := congrArg String.toList h
  simp [freeName, normalParam] at hl

theorem label_eq_mergeNames (labels : List String) (x : String) :
    label labels x = mergeNames labels [x] := by
  by_cases hx : x ∈ labels <;> simp [label, mergeNames, hx]

theorem idxOf_mergeNames {xs : List String} {x : String} (h : x ∈ xs) (ys : List String) :
    (mergeNames xs ys).idxOf x = xs.idxOf x :=
  List.idxOf_append_of_mem h

theorem idxOf_mergeNames_singleton (xs : List String) (x : String) :
    (mergeNames xs [x]).idxOf x = xs.idxOf x := by
  by_cases hx : x ∈ xs
  · exact idxOf_mergeNames hx [x]
  · simp [mergeNames, hx, List.idxOf_append]

end Term

namespace Nameless

open Term

@[simp]
def toTerm : Nameless → Term
  | bound k => .var (boundName k)
  | free x => .var x
  | abs b => .abs normalParam b.toTerm
  | app f a => .app f.toTerm a.toTerm

/-- Bound variables cannot be taken for labels, whatever names stood in their places. -/
theorem toTerm_inj (i j : String → Nat) (t u : Nameless)
    (h : (t.mapFree fun x => freeName (i x)).toTerm = (u.mapFree fun x => freeName (j x)).toTerm) :
    (t.mapFree fun x => freeName (i x)) = u.mapFree fun x => freeName (j x) := by
  induction t generalizing u with
  | bound k =>
    cases u with
    | bound m => simpa [boundName_inj] using h
    | free y => exact absurd (by simpa using h) (boundName_ne_freeName k (j y))
    | abs | app => simp at h
  | free x =>
    cases u with
    | bound m =>
      exact absurd (by simpa using h.symm) (boundName_ne_freeName m (i x))
    | free y => simpa using h
    | abs | app => simp at h
  | abs b ih =>
    cases u with
    | abs c => exact congrArg abs (ih c (by simpa using h))
    | bound | free | app => simp at h
  | app f a hf ha =>
    cases u with
    | app g c =>
      simp only [mapFree, toTerm, Term.app.injEq] at h
      exact congrArg₂ app (hf g h.1) (ha c h.2)
    | bound | free | abs => simp at h

end Nameless

namespace Term

/-- The traversal adds the free names that are new to the table, and labels every free name by its
place in the table that it leaves behind. -/
theorem normalizeIn_eq (scope labels : List String) (e : Term) :
    e.normalizeIn scope labels =
      (((e.namelessIn scope).mapFree fun x =>
          freeName ((mergeNames labels (e.namelessIn scope).freeNames).idxOf x)).toTerm,
        mergeNames labels (e.namelessIn scope).freeNames) := by
  induction e generalizing scope labels with
  | var x =>
    cases hx : scope.idxOf? x with
    | some k =>
      simp [normalizeIn, namelessIn, hx, mergeNames]
    | none =>
      simp only [normalizeIn, namelessIn, hx, Nameless.mapFree, Nameless.toTerm,
        Nameless.freeNames, label_eq_mergeNames, idxOf_mergeNames_singleton]
  | abs p b ih =>
    simp only [normalizeIn, namelessIn, ih, Nameless.mapFree, Nameless.toTerm, Nameless.freeNames]
  | app f a hf ha =>
    let before := mergeNames labels (f.namelessIn scope).freeNames
    -- The labels of the operator stay what they are while the operand adds its own.
    have hstay : ∀ x ∈ (f.namelessIn scope).freeNames,
        freeName (before.idxOf x) =
          freeName ((mergeNames before (a.namelessIn scope).freeNames).idxOf x) := by
      intro x hx
      rw [idxOf_mergeNames (mem_mergeNames.2 (.inr hx))]
    have hf' := Nameless.mapFree_congr _ hstay
    simp only [normalizeIn, namelessIn, hf, ha, Nameless.mapFree, Nameless.toTerm,
      Nameless.freeNames, ← mergeNames_assoc]
    rw [hf']

def freeLabel (e : Term) (x : String) : String := freeName (e.freeVariables.idxOf x)

theorem freeLabel_injOn (e : Term) : Set.InjOn e.freeLabel {x | x ∈ e.freeVariables} := by
  intro x hx y _ h
  exact (List.idxOf_inj hx).1 (freeName_inj.1 h)

theorem normalize_eq (e : Term) : e.normalize = (e.nameless.mapFree e.freeLabel).toTerm := by
  have h := normalizeIn_eq [] [] e
  rw [mergeNames_nil_left, ← nameless, freeNames_nameless] at h
  exact congrArg Prod.fst h

theorem equivalent_iff_mapFree (e f : Term) :
    e.Equivalent f ↔ e.nameless.mapFree e.freeLabel = f.nameless.mapFree f.freeLabel := by
  rw [Equivalent, normalize_eq, normalize_eq]
  exact ⟨Nameless.toTerm_inj _ _ _ _, congrArg Nameless.toTerm⟩

theorem at?_toTerm_namelessIn (ψ : String → String) (scope : List String) (e : Term)
    (q : Position) {d : Term} (h : e.at? q = some d) :
    ((e.namelessIn scope).mapFree ψ).toTerm.at? q =
      some ((d.namelessIn (e.paramsAbove scope q)).mapFree ψ).toTerm := by
  induction h using at?_induction generalizing scope with
  | root =>
    rw [paramsAbove_nil]
    exact at?_nil _
  | body p b q h ih => exact ih (p :: scope)
  | operator f a q h ih => exact ih scope
  | operand f a q h ih => exact ih scope

/-- Below a position the normal form is that of the subterm under the parameters above it, with the
labels of the whole term. -/
theorem at?_normalize {e d : Term} {q : Position} (h : e.at? q = some d) :
    e.normalize.at? q =
      some ((d.namelessIn (e.paramsAbove [] q)).mapFree e.freeLabel).toTerm := by
  rw [normalize_eq, nameless, at?_toTerm_namelessIn e.freeLabel [] e q h]

theorem at?_normalize_bound {e : Term} {q : Position} {x : String} (h : e.at? q = some (var x))
    (hx : x ∈ e.paramsAbove [] q) : ∃ k, e.normalize.at? q = some (var (boundName k)) := by
  obtain ⟨k, _, hk⟩ := namelessIn_var_mem hx
  exact ⟨k, by rw [at?_normalize h, hk]; rfl⟩

theorem at?_normalize_free {e : Term} {q : Position} {x : String} (h : e.at? q = some (var x))
    (hx : x ∉ e.paramsAbove [] q) : e.normalize.at? q = some (var (e.freeLabel x)) := by
  rw [at?_normalize h, namelessIn_var_notMem hx]
  rfl

theorem Equivalent.mem_paramsAbove_iff {e f : Term} (h : e.Equivalent f) {q : Position}
    {x y : String} (he : e.at? q = some (var x)) (hf : f.at? q = some (var y)) :
    x ∈ e.paramsAbove [] q ↔ y ∈ f.paramsAbove [] q := by
  have hn : e.normalize.at? q = f.normalize.at? q := by rw [h]
  constructor
  · intro hx
    by_contra hy
    obtain ⟨k, hk⟩ := at?_normalize_bound he hx
    rw [hk, at?_normalize_free hf hy, Option.some.injEq, var.injEq] at hn
    exact boundName_ne_freeName _ _ hn
  · intro hy
    by_contra hx
    obtain ⟨k, hk⟩ := at?_normalize_bound hf hy
    rw [hk, at?_normalize_free he hx, Option.some.injEq, var.injEq] at hn
    exact boundName_ne_freeName _ _ hn.symm

end Term

end LambdaCalculus
