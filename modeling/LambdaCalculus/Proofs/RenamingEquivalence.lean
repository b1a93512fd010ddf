import LambdaCalculus.Proofs.Renaming

namespace LambdaCalculus

theorem Nameless.eq_of_mapFree_eq {φ ψ : String → String} {t : Nameless}
    (h : t.mapFree φ = t.mapFree ψ) : ∀ x ∈ t.freeNames, φ x = ψ x := by
  induction t with
  | bound k => simp
  | free y =>
    intro x hx
    obtain rfl := List.mem_singleton.1 hx
    simpa using h
  | abs b ih => exact ih (by simpa using h)
  | app f a hf ha =>
    simp only [mapFree, app.injEq] at h
    intro x hx
    rcases Term.mem_mergeNames.1 hx with hx | hx
    · exact hf h.1 x hx
    · exact ha h.2 x hx

namespace Term

theorem injOn_update_id {α : Type} [DecidableEq α] {s : Set α} {old new : α}
    (h : ¬ (old ∈ s ∧ new ∈ s)) : Set.InjOn (Function.update id old new) s := by
  intro x hx y hy hxy
  by_cases hxo : x = old <;> by_cases hyo : y = old
  · rw [hxo, hyo]
  · have hyn : new = y := by simpa [hxo, hyo] using hxy
    exact absurd ⟨hxo ▸ hx, hyn ▸ hy⟩ h
  · have hxn : x = new := by simpa [hxo, hyo] using hxy
    exact absurd ⟨hyo ▸ hy, hxn ▸ hx⟩ h
  · simpa [hxo, hyo] using hxy

/-- Two names that become one keep two labels in the normal form of the old term, and have one in
that of the new. -/
theorem not_both_free_of_equivalent {e r : Term} {old new : String} (hne : old ≠ new)
    (h : e.rename old new = .ok r) (he : r.Equivalent e) :
    ¬ (old ∈ e.freeVariables ∧ new ∈ e.freeVariables) := by
  rintro ⟨ho, hn⟩
  have hm := (equivalent_iff_mapFree r e).1 he
  rw [nameless_rename h (not_occursUnder_of_equivalent h he), Nameless.mapFree_mapFree] at hm
  have hlabel := Nameless.eq_of_mapFree_eq hm
  rw [freeNames_nameless] at hlabel
  have hold : r.freeLabel new = e.freeLabel old := by simpa using hlabel old ho
  have hnew : r.freeLabel new = e.freeLabel new := by simpa [Ne.symm hne] using hlabel new hn
  exact hne (e.freeLabel_injOn ho hn (hold.symm.trans hnew))

theorem rename_equivalent {e r : Term} {old new : String} (h : e.rename old new = .ok r)
    (hu : ¬ e.OccursUnder old new) (hf : ¬ (old ∈ e.freeVariables ∧ new ∈ e.freeVariables)) :
    r.Equivalent e :=
  (equivalent_of_injOn (injOn_update_id hf) (nameless_rename h hu).symm).symm

/-- A renaming succeeds unless the new name is a parameter, and it keeps the term equivalent exactly
when it neither captures a variable nor makes one name of two free ones. -/
theorem rename_equivalent_iff {e : Term} {old new : String} (hne : old ≠ new) :
    ((∃ r, e.rename old new = .ok r) ↔ ∀ q b, e.at? q ≠ some (abs new b)) ∧
      (∀ r, e.rename old new = .ok r → (r.Equivalent e ↔
        ¬ e.OccursUnder old new ∧ ¬ (old ∈ e.freeVariables ∧ new ∈ e.freeVariables))) ∧
      (new ∉ e.names → ∃ r, e.rename old new = .ok r ∧ r.Equivalent e) := by
  refine ⟨?_, fun r h => ⟨fun he => ?_, fun hc => ?_⟩, fun hn => ?_⟩
  · rw [exists_rename_eq_ok_iff, binds_eq_false_iff]
  · exact ⟨not_occursUnder_of_equivalent h he, not_both_free_of_equivalent hne h he⟩
  · exact rename_equivalent h hc.1 hc.2
  · have hb : e.binds new = false := binds_eq_false_iff.2 fun q b hq =>
      hn (mem_names_of_at? hq (by simp))
    obtain ⟨r, hr⟩ := exists_rename_eq_ok_iff.2 hb
    have hvar : ∀ q, e.at? q ≠ some (var new) := fun q hq =>
      hn (mem_names_of_at? hq (by simp))
    refine ⟨r, hr, rename_equivalent hr ?_ ?_⟩
    · rintro ⟨q, hq, _⟩
      exact hvar q hq
    · rintro ⟨_, hf⟩
      obtain ⟨q, hq, _⟩ := (mem_freeVariables_iff e new).1 hf
      exact hvar q hq

theorem rename_partly_free_equivalent :
    let e := app (abs "x" (app (var "x") (abs "x" (var "x")))) (app (var "x") (var "z"))
    let merged := app (abs "z" (app (var "z") (abs "x" (var "x")))) (app (var "z") (var "z"))
    "x" ≠ "y" ∧ "y" ∉ e.names ∧ (∃ r, e.rename "x" "y" = .ok r ∧ r.Equivalent e) ∧
      "x" ≠ "z" ∧ e.rename "x" "z" = .ok merged ∧ (merged.Equivalent e ↔
        ¬ e.OccursUnder "x" "z" ∧ ¬ ("x" ∈ e.freeVariables ∧ "z" ∈ e.freeVariables)) :=
  ⟨by decide, by decide, (rename_equivalent_iff (by decide)).2.2 (by decide),
    by decide, by decide, (rename_equivalent_iff (by decide)).2.1 _ (by decide)⟩

theorem mem_freeVariables_rename {e r : Term} {old new x : String} (h : e.rename old new = .ok r)
    (hu : ¬ e.OccursUnder old new) :
    x ∈ r.freeVariables ↔ x ∈ e.freeVariables ∧ x ≠ old ∨ old ∈ e.freeVariables ∧ x = new := by
  rw [← freeNames_nameless, nameless_rename h hu, Nameless.mem_freeNames_mapFree,
    freeNames_nameless]
  constructor
  · rintro ⟨y, hy, rfl⟩
    by_cases ho : y = old
    · exact .inr ⟨ho ▸ hy, by simp [ho]⟩
    · exact .inl ⟨by simpa [ho] using hy, by simp [ho]⟩
  · rintro (⟨hx, hne⟩ | ⟨ho, rfl⟩)
    · exact ⟨x, hx, by simp [hne]⟩
    · exact ⟨old, ho, by simp⟩

/-- A renaming that captures no variable puts the new name for the old one where that is free, and
every other variable refers to the binder that it had. -/
theorem rename_substitutes {e : Term} {old new : String} (hb : ∀ q b, e.at? q ≠ some (abs new b))
    (hu : ¬ e.OccursUnder old new) :
    ∃ r, e.rename old new = .ok r ∧
      r.nameless = e.nameless.mapFree (fun x => if x = old then new else x) ∧
      (∀ x, x ∈ r.freeVariables ↔
        x ∈ e.freeVariables ∧ x ≠ old ∨ old ∈ e.freeVariables ∧ x = new) ∧
      (old ∉ e.freeVariables → r.AlphaEquivalent e) := by
  obtain ⟨r, hr⟩ := exists_rename_eq_ok_iff.2 (binds_eq_false_iff.2 hb)
  have hmap : (fun x => if x = old then new else x) = Function.update id old new := by
    funext x
    exact (Function.update_apply id old new x).symm
  rw [hmap]
  exact ⟨r, hr, nameless_rename hr hu, fun x => mem_freeVariables_rename hr hu,
    fun hf => rename_alphaEquivalent hf hr hu⟩

theorem rename_substitutes_shadowed :
    let e := app (abs "x" (app (var "x") (abs "x" (var "x")))) (app (var "x") (var "y"))
    let closed := abs "x" (app (var "x") (abs "x" (var "x")))
    (∀ q b, e.at? q ≠ some (abs "y" b)) ∧ ¬ e.OccursUnder "x" "y" ∧
      (∃ r, e.rename "x" "y" = .ok r ∧
        r.nameless = e.nameless.mapFree (fun x => if x = "x" then "y" else x)) ∧
      (∀ q b, closed.at? q ≠ some (abs "y" b)) ∧ ¬ closed.OccursUnder "x" "y" ∧
      "x" ∉ closed.freeVariables ∧
      ∃ r, closed.rename "x" "y" = .ok r ∧ r.AlphaEquivalent closed := by
  intro e closed
  have he : ∀ q b, e.at? q ≠ some (abs "y" b) := binds_eq_false_iff.1 (by decide)
  have hc : ∀ q b, closed.at? q ≠ some (abs "y" b) := binds_eq_false_iff.1 (by decide)
  have heu : ¬ e.OccursUnder "x" "y" := by decide
  have hcu : ¬ closed.OccursUnder "x" "y" := by decide
  have hf : "x" ∉ closed.freeVariables := by decide
  obtain ⟨r, hr, hn, _⟩ := rename_substitutes he heu
  obtain ⟨s, hs, _, _, ha⟩ := rename_substitutes hc hcu
  exact ⟨he, heu, ⟨r, hr, hn⟩, hc, hcu, hf, s, hs, ha hf⟩

end Term

end LambdaCalculus
