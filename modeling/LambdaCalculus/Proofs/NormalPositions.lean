import LambdaCalculus.Data.List
import LambdaCalculus.Proofs.NormalForm
import LambdaCalculus.Proofs.Position

namespace LambdaCalculus

theorem Nameless.param_of_at?_toTerm {t : Nameless} {q : Position} {p : String} {b : Term}
    (h : t.toTerm.at? q = some (.abs p b)) : p = Term.normalParam := by
  induction t generalizing q with
  | bound k | free x => obtain _ | ⟨c, q⟩ := q <;> simp at h
  | abs c ih =>
    obtain _ | ⟨_ | _ | _, q⟩ := q
    · cases h
      rfl
    · exact ih h
    · simp at h
    · simp at h
  | app f a hf ha =>
    obtain _ | ⟨_ | _ | _, q⟩ := q
    · simp at h
    · simp at h
    · exact hf h
    · exact ha h

namespace Term

theorem freeAt?_body (p : String) (b : Term) (q : Position) :
    (abs p b).freeAt? (.body :: q) = (b.freeAt? q).filter (· != p) := by
  simp only [freeAt?, at?]
  split
  · rename_i x hx
    by_cases hb : x ∈ b.paramsAbove [] q
    · rw [if_pos hb, if_pos (mem_paramsAbove_body.2 (.inl hb))]
      rfl
    · by_cases hp : x = p
      · rw [if_neg hb, if_pos (mem_paramsAbove_body.2 (.inr hp))]
        simp [Option.filter, hp]
      · have habs : x ∉ (abs p b).paramsAbove [] (.body :: q) := fun h =>
          (mem_paramsAbove_body.1 h).elim hb hp
        rw [if_neg hb, if_neg habs]
        simp [Option.filter, hp]
  · rfl

@[simp]
theorem freeOccurrences_abs (p : String) (b : Term) :
    (abs p b).freeOccurrences = b.freeOccurrences.filter (· != p) := by
  have hroot : (abs p b).freeAt? [] = none := rfl
  have hbody : (abs p b).freeAt? ∘ (.body :: ·) = fun q => (b.freeAt? q).filter (· != p) := by
    funext q
    exact freeAt?_body p b q
  rw [freeOccurrences, positions, List.filterMap_cons_none hroot, List.filterMap_map, hbody,
    freeOccurrences, List.filter_filterMap]

@[simp]
theorem freeOccurrences_app (f a : Term) :
    (app f a).freeOccurrences = f.freeOccurrences ++ a.freeOccurrences := by
  have hroot : (app f a).freeAt? [] = none := rfl
  rw [freeOccurrences, positions, List.filterMap_cons_none hroot, List.filterMap_append,
    List.filterMap_map, List.filterMap_map]
  rfl

theorem eraseDups_append (xs ys : List String) :
    (xs ++ ys).eraseDups = mergeNames xs.eraseDups ys.eraseDups := by
  rw [List.eraseDups_append, List.removeAll, eraseDups_filter, mergeNames]
  simp

@[simp]
theorem eraseDups_freeOccurrences (e : Term) : e.freeOccurrences.eraseDups = e.freeVariables := by
  induction e with
  | var x => rfl
  | abs p b ih => rw [freeOccurrences_abs, eraseDups_filter, ih, freeVariables]
  | app f a hf ha => rw [freeOccurrences_app, eraseDups_append, hf, ha, freeVariables]

theorem sameShape_toTerm_namelessIn (φ : String → String) (scope : List String) (e : Term) :
    ((e.namelessIn scope).mapFree φ).toTerm.SameShape e := by
  induction e generalizing scope with
  | var x =>
    cases h : scope.idxOf? x <;>
      simp [namelessIn, h, SameShape]
  | abs p b ih => exact ih (p :: scope)
  | app f a hf ha => exact ⟨hf scope, ha scope⟩

theorem sameShape_normalize (e : Term) : e.normalize.SameShape e := by
  rw [normalize_eq]
  exact sameShape_toTerm_namelessIn e.freeLabel [] e

theorem param_of_at?_normalize {e b : Term} {q : Position} {p : String}
    (h : e.normalize.at? q = some (abs p b)) : p = normalParam := by
  rw [normalize_eq] at h
  exact Nameless.param_of_at?_toTerm h

theorem at?_normalize_of_boundAt {e : Term} {q : Position} {x : String} {k : Nat}
    (h : e.at? q = some (var x)) (hk : e.BoundAt q x k) :
    e.normalize.at? q = some (var (boundName k)) := by
  obtain ⟨r, s, b, rfl, hr, hx, rfl⟩ := hk
  rw [at?_normalize h, namelessIn, paramsAbove_of_abs s hr, idxOf?_append_cons_self hx]
  rfl

theorem getElem?_idxOf_freeOccurrences {e : Term} {q : Position} {x : String}
    (h : e.OccursFreeAt q x) :
    e.freeOccurrences.eraseDups[e.freeVariables.idxOf x]? = some x := by
  rw [eraseDups_freeOccurrences]
  exact List.getElem?_idxOf ((mem_freeVariables_iff e x).2 ⟨q, h⟩)

/-- The normal form by positions: a bound variable counts the abstractions between it and the
innermost one over its name, and a free one is numbered among the free occurrences. Abstractions
that do not stand around an occurrence have no part in its name. -/
theorem normalize_positional (e : Term) :
    e.normalize.SameShape e ∧
      (∀ q p b, e.normalize.at? q = some (abs p b) → p = normalParam) ∧
      ∀ q x, e.at? q = some (var x) →
        ((∃ k, e.BoundAt q x k) ↔ ∃ r s b, q = r ++ .body :: s ∧ e.at? r = some (abs x b)) ∧
        (∀ k, e.BoundAt q x k → e.normalize.at? q = some (var (boundName k))) ∧
        ((¬ ∃ k, e.BoundAt q x k) → ∃ n, e.freeOccurrences.eraseDups[n]? = some x ∧
          e.normalize.at? q = some (var (freeName n))) := by
  refine ⟨sameShape_normalize e, fun q p b => param_of_at?_normalize, fun q x h => ⟨?_, ?_, ?_⟩⟩
  · rw [exists_boundAt_iff, mem_paramsAbove_iff_exists_abs]
  · exact fun k => at?_normalize_of_boundAt h
  · intro hk
    have hx : x ∉ e.paramsAbove [] q := fun hx => hk (exists_boundAt_iff.2 hx)
    exact ⟨_, getElem?_idxOf_freeOccurrences ⟨h, hx⟩, at?_normalize_free h hx⟩

theorem normalize_positional_shadowed :
    let e := app (abs "x" (app (abs "y" (app (var "x") (var "z"))) (var "y"))) (var "x")
    let q : Position := [.operator, .body, .operator, .body, .operator]
    e.at? q = some (var "x") ∧ e.BoundAt q "x" 1 ∧
      e.normalize.at? q = some (var (boundName 1)) ∧
      e.at? [.operand] = some (var "x") ∧ (¬ ∃ k, e.BoundAt [.operand] "x" k) ∧
      ∃ n, e.freeOccurrences.eraseDups[n]? = some "x" ∧
        e.normalize.at? [.operand] = some (var (freeName n)) := by
  intro e q
  have hq : e.BoundAt q "x" 1 :=
    ⟨[.operator], [.operator, .body, .operator], _, rfl, rfl, by decide, rfl⟩
  have hfree : ¬ ∃ k, e.BoundAt [.operand] "x" k := by
    rw [exists_boundAt_iff]
    decide
  exact ⟨rfl, hq, ((normalize_positional e).2.2 q "x" rfl).2.1 1 hq, rfl, hfree,
    ((normalize_positional e).2.2 [.operand] "x" rfl).2.2 hfree⟩

end Term

end LambdaCalculus
