import LambdaCalculus.Proofs.Equivalence
import LambdaCalculus.Proofs.NormalPositions

namespace LambdaCalculus.Term

theorem normalParam_notMem_normalizeIn (scope labels : List String) (e : Term) :
    normalParam ∉ (e.normalizeIn scope labels).1.variableNames := by
  induction e generalizing scope labels with
  | var x =>
    cases hx : scope.idxOf? x with
    | some k => simp [normalizeIn, hx, (boundName_ne_normalParam k).symm]
    | none => simp [normalizeIn, hx, (freeName_ne_normalParam _).symm]
  | abs p b ih => exact ih (p :: scope) labels
  | app f a hf ha =>
    intro h
    exact (List.mem_append.1 h).elim (hf scope labels) (ha scope _)

/-- The variables of a normal form are all free in it, those with the name of a bound one too. -/
theorem notMem_paramsAbove_normalize {e : Term} {q : Position} {x : String}
    (h : e.normalize.at? q = some (var x)) : x ∉ e.normalize.paramsAbove [] q := by
  intro hx
  obtain ⟨r, s, b, -, hr⟩ := mem_paramsAbove_iff_exists_abs.1 hx
  obtain rfl := param_of_at?_normalize hr
  exact normalParam_notMem_normalizeIn [] [] e (mem_variableNames_iff.2 ⟨q, h⟩)

/-- Where nothing is bound, the parameters can be exchanged for others that are no labels. -/
theorem namelessIn_toTerm_of_unbound {φ : String → String} {scope scope' : List String} (e : Term)
    (he : ∀ q x, e.at? q = some (var x) → x ∉ e.paramsAbove scope q)
    (hφ : ∀ x, φ x ≠ normalParam ∧ φ x ∉ scope') :
    ((e.namelessIn scope).mapFree φ).toTerm.namelessIn scope' = (e.namelessIn scope).mapFree φ := by
  induction e generalizing scope scope' with
  | var x =>
    have hx : x ∉ scope := he [] x rfl
    rw [namelessIn_var_notMem hx]
    exact namelessIn_var_notMem (hφ x).2
  | abs p b ih =>
    refine congrArg Nameless.abs (ih (fun q => he (.body :: q)) fun x => ?_)
    exact ⟨(hφ x).1, List.not_mem_cons_of_ne_of_not_mem (hφ x).1 (hφ x).2⟩
  | app f a hf ha =>
    exact congrArg₂ Nameless.app (hf (fun q => he (.operator :: q)) hφ)
      (ha (fun q => he (.operand :: q)) hφ)

theorem equivalent_normalize {e : Term}
    (h : ∀ q x, e.at? q = some (var x) → x ∉ e.paramsAbove [] q) : e.Equivalent e.normalize := by
  apply equivalent_of_injOn e.freeLabel_injOn
  rw [normalize_eq]
  exact (namelessIn_toTerm_of_unbound e h fun x =>
    ⟨freeName_ne_normalParam _, List.not_mem_nil⟩).symm

/-- A bound variable is free in the normal form, and equivalent terms bind the same occurrences. -/
theorem equivalent_normalize_iff {e : Term} :
    e.Equivalent e.normalize ↔ ∀ q x, e.at? q = some (var x) → x ∉ e.paramsAbove [] q := by
  constructor
  · intro h q x hq hx
    obtain ⟨k, hk⟩ := at?_normalize_bound hq hx
    exact notMem_paramsAbove_normalize hk ((h.mem_paramsAbove_iff hq hk).1 hx)
  · exact equivalent_normalize

/-- A second pass changes nothing exactly when no variable of the term is bound. In a normal form
none is, so a third pass never changes anything. -/
theorem normalize_iterate (e : Term) :
    (e.normalize.normalize = e.normalize ↔
      ∀ q x, e.at? q = some (var x) → ¬ ∃ k, e.BoundAt q x k) ∧
    (e.Equivalent e.normalize ↔ e.normalize.normalize = e.normalize) ∧
    e.normalize.normalize.normalize = e.normalize.normalize := by
  have hsame : e.Equivalent e.normalize ↔ e.normalize.normalize = e.normalize := eq_comm
  have hagain : e.normalize.Equivalent e.normalize.normalize :=
    equivalent_normalize fun q x => notMem_paramsAbove_normalize
  refine ⟨?_, hsame, hagain.symm⟩
  rw [← hsame, equivalent_normalize_iff]
  simp only [exists_boundAt_iff]

example : (abs "x" (app (var "x") (var "y"))).normalize.normalize =
    abs "L" (app (var "u0") (var "u1")) := by decide

end LambdaCalculus.Term
