import LambdaCalculus.Term.Nameless
import LambdaCalculus.Term.Variables
import Mathlib.Data.Set.Function

namespace LambdaCalculus

namespace Term

@[simp]
theorem mergeNames_nil_left (xs : List String) : mergeNames [] xs = xs := by
  simp [mergeNames]

theorem mergeNames_assoc (xs ys zs : List String) :
    mergeNames (mergeNames xs ys) zs = mergeNames xs (mergeNames ys zs) := by
  simp only [mergeNames, List.filter_append, List.filter_filter, List.append_assoc,
    List.append_cancel_left_eq]
  apply List.filter_congr
  intro z _
  by_cases hx : z ∈ xs <;> by_cases hy : z ∈ ys <;> simp [hx, hy]

theorem filter_mergeNames (p : String → Bool) (xs ys : List String) :
    (mergeNames xs ys).filter p = mergeNames (xs.filter p) (ys.filter p) := by
  simp only [mergeNames, List.filter_append, List.filter_filter, List.append_cancel_left_eq]
  apply List.filter_congr
  intro y _
  cases hp : p y <;> simp [hp]

theorem map_mergeNames (φ : String → String) (xs ys : List String)
    (h : ∀ x ∈ xs, ∀ y ∈ ys, φ x = φ y → x = y) :
    (mergeNames xs ys).map φ = mergeNames (xs.map φ) (ys.map φ) := by
  simp only [mergeNames, List.map_append, List.filter_map, List.append_cancel_left_eq]
  congr 1
  apply List.filter_congr
  intro y hy
  have hmem : φ y ∈ xs.map φ ↔ y ∈ xs := by
    rw [List.mem_map]
    constructor
    · rintro ⟨x, hx, he⟩
      exact h x hx y hy he ▸ hx
    · exact fun hx => ⟨y, hx, rfl⟩
  simp [hmem, -List.mem_map]

end Term

namespace Nameless

open Term

@[simp]
def freeNames : Nameless → List String
  | bound _ => []
  | free x => [x]
  | abs b => b.freeNames
  | app f a => mergeNames f.freeNames a.freeNames

theorem mapFree_congr {φ ψ : String → String} (t : Nameless)
    (h : ∀ x ∈ t.freeNames, φ x = ψ x) : t.mapFree φ = t.mapFree ψ := by
  induction t with
  | bound k => rfl
  | free x => simp [h x (by simp)]
  | abs b ih => simp only [mapFree, ih h]
  | app f a hf ha =>
    have hl := hf fun x hx => h x (mem_mergeNames.2 (.inl hx))
    have hr := ha fun x hx => h x (mem_mergeNames.2 (.inr hx))
    simp only [mapFree, hl, hr]

@[simp]
theorem mapFree_id (t : Nameless) : t.mapFree id = t := by
  induction t with
  | bound k | free x => rfl
  | abs b ih => simp only [mapFree, ih]
  | app f a hf ha => simp only [mapFree, hf, ha]

@[simp]
theorem mapFree_mapFree (φ ψ : String → String) (t : Nameless) :
    (t.mapFree φ).mapFree ψ = t.mapFree (ψ ∘ φ) := by
  induction t with
  | bound k | free x => rfl
  | abs b ih => simp only [mapFree, ih]
  | app f a hf ha => simp only [mapFree, hf, ha]

theorem mem_freeNames_mapFree (φ : String → String) (t : Nameless) (y : String) :
    y ∈ (t.mapFree φ).freeNames ↔ ∃ x ∈ t.freeNames, φ x = y := by
  induction t with
  | bound k => simp
  | free x => simp [eq_comm]
  | abs b ih => exact ih
  | app f a hf ha =>
    simp only [mapFree, freeNames, mem_mergeNames, hf, ha]
    constructor
    · rintro (⟨x, hx, he⟩ | ⟨x, hx, he⟩)
      · exact ⟨x, .inl hx, he⟩
      · exact ⟨x, .inr hx, he⟩
    · rintro ⟨x, hx | hx, he⟩
      · exact .inl ⟨x, hx, he⟩
      · exact .inr ⟨x, hx, he⟩

/-- A map that keeps free names apart keeps their order as well. -/
theorem freeNames_mapFree (φ : String → String) (t : Nameless)
    (h : Set.InjOn φ {x | x ∈ t.freeNames}) : (t.mapFree φ).freeNames = t.freeNames.map φ := by
  induction t with
  | bound k | free x => rfl
  | abs b ih => exact ih h
  | app f a hf ha =>
    have hl := hf (h.mono fun x hx => mem_mergeNames.2 (.inl hx))
    have hr := ha (h.mono fun x hx => mem_mergeNames.2 (.inr hx))
    have hm := map_mergeNames φ f.freeNames a.freeNames fun x hx y hy he =>
      h (mem_mergeNames.2 (.inl hx)) (mem_mergeNames.2 (.inr hy)) he
    simp only [mapFree, freeNames, hl, hr, hm]

theorem mapFree_inj {φ : String → String} {S : Set String} (hφ : Set.InjOn φ S)
    (t u : Nameless) (ht : ∀ x ∈ t.freeNames, x ∈ S) (hu : ∀ x ∈ u.freeNames, x ∈ S)
    (h : t.mapFree φ = u.mapFree φ) : t = u := by
  induction t generalizing u with
  | bound k => cases u <;> simp_all [mapFree]
  | free x =>
    cases u with
    | free y =>
      have he : φ x = φ y := by simpa using h
      rw [hφ (ht x (by simp)) (hu y (by simp)) he]
    | bound | abs | app => simp at h
  | abs b ih =>
    cases u with
    | abs c => rw [ih c ht hu (by simpa using h)]
    | bound | free | app => simp at h
  | app f a hf ha =>
    cases u with
    | app g c =>
      have he : f.mapFree φ = g.mapFree φ ∧ a.mapFree φ = c.mapFree φ := by
        simpa using h
      have hl := hf g (fun x hx => ht x (mem_mergeNames.2 (.inl hx)))
        (fun x hx => hu x (mem_mergeNames.2 (.inl hx))) he.1
      have hr := ha c (fun x hx => ht x (mem_mergeNames.2 (.inr hx)))
        (fun x hx => hu x (mem_mergeNames.2 (.inr hx))) he.2
      rw [hl, hr]
    | bound | free | abs => simp at h

end Nameless

namespace Term

theorem namelessIn_var_mem {scope : List String} {x : String} (h : x ∈ scope) :
    ∃ k, scope.idxOf? x = some k ∧ (var x).namelessIn scope = .bound k := by
  cases hk : scope.idxOf? x with
  | none => exact absurd h (List.idxOf?_eq_none_iff.1 hk)
  | some k => exact ⟨k, rfl, by simp [namelessIn, hk]⟩

theorem namelessIn_var_notMem {scope : List String} {x : String} (h : x ∉ scope) :
    (var x).namelessIn scope = .free x := by
  simp [namelessIn, List.idxOf?_eq_none_iff.2 h]

theorem freeNames_namelessIn (scope : List String) (e : Term) :
    (e.namelessIn scope).freeNames = e.freeVariables.filter fun x => !scope.contains x := by
  induction e generalizing scope with
  | var x =>
    by_cases hx : x ∈ scope
    · obtain ⟨k, _, hk⟩ := namelessIn_var_mem hx
      simp [hk, hx]
    · simp [namelessIn_var_notMem hx, hx]
  | abs p b ih =>
    simp only [namelessIn, Nameless.freeNames, freeVariables, ih, List.filter_filter]
    apply List.filter_congr
    intro x _
    by_cases hx : x = p <;> simp [hx]
  | app f a hf ha =>
    simp only [namelessIn, Nameless.freeNames, freeVariables, hf, ha, filter_mergeNames]

@[simp]
theorem freeNames_nameless (e : Term) : e.nameless.freeNames = e.freeVariables := by
  simp [nameless, freeNames_namelessIn]

theorem isClosedIn_iff (scope : List String) (e : Term) :
    e.isClosedIn scope = true ↔ ∀ x ∈ e.freeVariables, x ∈ scope := by
  induction e generalizing scope with
  | var x => simp [isClosedIn]
  | abs p b ih =>
    simp only [isClosedIn, ih, freeVariables, List.mem_cons, List.mem_filter, bne_iff_ne]
    constructor
    · exact fun h x hx => (h x hx.1).resolve_left hx.2
    · intro h x hx
      by_cases hp : x = p
      · exact .inl hp
      · exact .inr (h x ⟨hx, hp⟩)
  | app f a hf ha =>
    simp only [isClosedIn, Bool.and_eq_true, hf, ha, freeVariables, mem_mergeNames]
    exact ⟨fun h x hx => hx.elim (h.1 x) (h.2 x),
      fun h => ⟨fun x hx => h x (.inl hx), fun x hx => h x (.inr hx)⟩⟩

theorem isClosed_iff (e : Term) : e.isClosed = true ↔ e.freeVariables = [] := by
  simp [isClosed, isClosedIn_iff, List.eq_nil_iff_forall_not_mem]

end Term

end LambdaCalculus
