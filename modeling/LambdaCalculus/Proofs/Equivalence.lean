import LambdaCalculus.Data.List
import LambdaCalculus.Proofs.NormalForm

namespace LambdaCalculus.Term

theorem freeVariables_eq_of_mapFree {e f : Term} {φ : String → String}
    (hφ : Set.InjOn φ {x | x ∈ e.freeVariables}) (h : e.nameless.mapFree φ = f.nameless) :
    f.freeVariables = e.freeVariables.map φ := by
  rw [← freeNames_nameless, ← h, Nameless.freeNames_mapFree, freeNames_nameless]
  simpa only [freeNames_nameless] using hφ

/-- First occurrences keep their order, so names that correspond have the same label. -/
theorem equivalent_of_injOn {e f : Term} {φ : String → String}
    (hφ : Set.InjOn φ {x | x ∈ e.freeVariables}) (h : e.nameless.mapFree φ = f.nameless) :
    e.Equivalent f := by
  rw [equivalent_iff_mapFree, ← h, Nameless.mapFree_mapFree]
  apply Nameless.mapFree_congr
  intro x hx
  rw [freeNames_nameless] at hx
  simp only [Function.comp_apply, freeLabel, freeVariables_eq_of_mapFree hφ h,
    idxOf_map_of_injOn hφ hx]

theorem image_freeLabel_eq {e f : Term} (h : e.Equivalent f) :
    e.freeLabel '' {x | x ∈ e.freeVariables} = f.freeLabel '' {y | y ∈ f.freeVariables} := by
  have hm := (equivalent_iff_mapFree e f).1 h
  ext l
  have hl := Nameless.mem_freeNames_mapFree e.freeLabel e.nameless l
  rw [hm, Nameless.mem_freeNames_mapFree, freeNames_nameless, freeNames_nameless] at hl
  exact hl.symm

theorem exists_bijOn_of_equivalent {e f : Term} (h : e.Equivalent f) :
    ∃ φ : String → String, Set.BijOn φ {x | x ∈ e.freeVariables} {y | y ∈ f.freeVariables} ∧
      e.nameless.mapFree φ = f.nameless := by
  have he := e.freeLabel_injOn.bijOn_image
  have hf := f.freeLabel_injOn.bijOn_image
  have hinv := hf.invOn_invFunOn
  rw [image_freeLabel_eq h] at he
  let back := Function.invFunOn f.freeLabel {y | y ∈ f.freeVariables}
  refine ⟨back ∘ e.freeLabel, (hf.symm hinv.symm).comp he, ?_⟩
  rw [← Nameless.mapFree_mapFree, (equivalent_iff_mapFree e f).1 h, Nameless.mapFree_mapFree]
  have hid : ∀ y ∈ f.nameless.freeNames, (back ∘ f.freeLabel) y = id y := by
    intro y hy
    rw [freeNames_nameless] at hy
    exact hinv.1 hy
  rw [Nameless.mapFree_congr _ hid, Nameless.mapFree_id]

theorem AlphaEquivalent.freeVariables_eq {e f : Term} (h : e.AlphaEquivalent f) :
    e.freeVariables = f.freeVariables := by
  rw [← freeNames_nameless, h, freeNames_nameless]

theorem AlphaEquivalent.equivalent {e f : Term} (h : e.AlphaEquivalent f) : e.Equivalent f :=
  equivalent_of_injOn (Set.injOn_id _) ((Nameless.mapFree_id _).trans h)

theorem Equivalent.alphaEquivalent {e f : Term} (h : e.Equivalent f)
    (hv : e.freeVariables = f.freeVariables) : e.AlphaEquivalent f := by
  have hl : e.freeLabel = f.freeLabel := by
    funext x
    rw [freeLabel, freeLabel, hv]
  have hm := (equivalent_iff_mapFree e f).1 h
  rw [← hl] at hm
  refine Nameless.mapFree_inj e.freeLabel_injOn _ _ ?_ ?_ hm
  · intro x hx
    rwa [freeNames_nameless] at hx
  · intro x hx
    rw [freeNames_nameless, ← hv] at hx
    exact hx

/-- Equivalence is equality of the nameless forms up to a bijection between the free names. Without
free names there is nothing to map. -/
theorem equivalent_iff_bijOn (e f : Term) :
    (e.Equivalent f ↔ ∃ φ : String → String,
      Set.BijOn φ {x | x ∈ e.freeVariables} {y | y ∈ f.freeVariables} ∧
        e.nameless.mapFree φ = f.nameless) ∧
    (e.isClosed = true → f.isClosed = true → (e.Equivalent f ↔ e.AlphaEquivalent f)) := by
  refine ⟨⟨exists_bijOn_of_equivalent, ?_⟩, ?_⟩
  · rintro ⟨φ, hφ, h⟩
    exact equivalent_of_injOn hφ.injOn h
  · intro he hf
    have hv : e.freeVariables = f.freeVariables := by
      rw [(isClosed_iff e).1 he, (isClosed_iff f).1 hf]
    exact ⟨fun h => h.alphaEquivalent hv, AlphaEquivalent.equivalent⟩

theorem equivalent_iff_bijOn_closed :
    let e := abs "L" (abs "b0" (app (var "L") (var "b0")))
    let f := abs "b0" (abs "u0" (app (var "b0") (var "u0")))
    e.isClosed = true ∧ f.isClosed = true ∧ (e.Equivalent f ↔ e.AlphaEquivalent f) :=
  ⟨by decide, by decide, (equivalent_iff_bijOn _ _).2 (by decide) (by decide)⟩

/-- Equivalence forgets which names are free, and nothing else. -/
theorem alphaEquivalent_iff_equivalent (e f : Term) :
    e.AlphaEquivalent f ↔ e.Equivalent f ∧ e.freeVariables = f.freeVariables :=
  ⟨fun h => ⟨h.equivalent, h.freeVariables_eq⟩, fun h => h.1.alphaEquivalent h.2⟩

theorem equivalent_of_distinct_variables :
    (var "x").Equivalent (var "y") ∧ ¬ (var "x").AlphaEquivalent (var "y") := by
  decide

end LambdaCalculus.Term
