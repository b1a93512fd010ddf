import LambdaCalculus.Proofs.Equivalence
import LambdaCalculus.Proofs.RenamingPositions

namespace LambdaCalculus.Term

/-- The name `y` refers under `scope'` to what `x` refers to under `scope`, up to the map of the
free names. -/
def Corresponds (φ : String → String) (scope scope' : List String) (x y : String) : Prop :=
  (var y).namelessIn scope' = ((var x).namelessIn scope).mapFree φ

theorem corresponds_head (φ : String → String) (scope scope' : List String) (p p' : String) :
    Corresponds φ (p :: scope) (p' :: scope') p p' := by
  simp [Corresponds, namelessIn, List.idxOf?_cons]

theorem Corresponds.cons {φ : String → String} {scope scope' : List String} {x y p p' : String}
    (h : Corresponds φ scope scope' x y) (hx : x ≠ p) (hy : y ≠ p') :
    Corresponds φ (p :: scope) (p' :: scope') x y := by
  simp only [Corresponds, namelessIn, List.idxOf?_cons, beq_iff_eq, Ne.symm hx, Ne.symm hy,
    if_false] at h ⊢
  cases hi : scope.idxOf? x <;> cases hj : scope'.idxOf? y <;>
    simp_all [Nameless.mapFree]

theorem corresponds_refl {φ : String → String} {x : String} (h : φ x = x) (scope : List String) :
    Corresponds φ scope scope x x := by
  simp only [Corresponds, namelessIn]
  cases scope.idxOf? x <;> simp [h]

theorem corresponds_of_notMem {φ : String → String} {scope scope' : List String} {x y : String}
    (hx : x ∉ scope) (hy : y ∉ scope') (h : φ x = y) : Corresponds φ scope scope' x y := by
  rw [Corresponds, namelessIn_var_notMem hx, namelessIn_var_notMem hy, Nameless.mapFree, h]

theorem namelessIn_of_corresponds {φ : String → String} {scope scope' : List String} (e : Term)
    (h : ∀ x ∈ e.freeVariables, Corresponds φ scope scope' x x) :
    e.namelessIn scope' = (e.namelessIn scope).mapFree φ := by
  induction e generalizing scope scope' with
  | var x => exact h x (by simp)
  | abs p b ih =>
    refine congrArg Nameless.abs (ih fun x hx => ?_)
    by_cases hp : x = p
    · subst hp
      exact corresponds_head φ scope scope' x x
    · exact (h x (by simp [hx, hp])).cons hp hp
  | app f a hf ha =>
    exact congrArg₂ Nameless.app (hf fun x hx => h x (mem_mergeNames.2 (.inl hx)))
      (ha fun x hx => h x (mem_mergeNames.2 (.inr hx)))

theorem namelessIn_renameFree {φ : String → String} {scope scope' : List String}
    {old new : String} (e : Term) (hb : e.binds new = false)
    (hold : old ∈ e.freeVariables → Corresponds φ scope scope' old new)
    (h : ∀ x ∈ e.freeVariables, x ≠ old → Corresponds φ scope scope' x x) :
    (e.renameFree old new).namelessIn scope' = (e.namelessIn scope).mapFree φ := by
  induction e generalizing scope scope' with
  | var x =>
    by_cases hx : x = old
    · subst hx
      rw [renameFree, if_pos rfl]
      exact hold (by simp)
    · rw [renameFree, if_neg hx]
      exact h x (by simp) hx
  | abs p b ih =>
    simp only [binds, Bool.or_eq_false_iff, beq_eq_false_iff_ne] at hb
    by_cases hp : p = old
    · -- The abstraction hides `old`, so nothing below it is renamed.
      rw [renameFree, if_pos hp]
      refine namelessIn_of_corresponds _ fun x hx => h x hx ?_
      rintro rfl
      simp [hp] at hx
    · rw [renameFree, if_neg hp]
      refine congrArg Nameless.abs (ih hb.2 ?_ ?_)
      · intro ho
        exact (hold (by simp [ho, Ne.symm hp])).cons (Ne.symm hp) (Ne.symm hb.1)
      · intro x hx hne
        by_cases hxp : x = p
        · subst hxp
          exact corresponds_head φ scope scope' x x
        · exact (h x (by simp [hx, hxp]) hne).cons hxp hxp
  | app f a hf ha =>
    simp only [binds, Bool.or_eq_false_iff] at hb
    refine congrArg₂ Nameless.app (hf hb.1 ?_ ?_) (ha hb.2 ?_ ?_)
    · exact fun ho => hold (mem_mergeNames.2 (.inl ho))
    · exact fun x hx => h x (mem_mergeNames.2 (.inl hx))
    · exact fun ho => hold (mem_mergeNames.2 (.inr ho))
    · exact fun x hx => h x (mem_mergeNames.2 (.inr hx))

/-- Where no variable `new` stands below an abstraction over `old`, only the free occurrences of
`old` are seen to change. -/
theorem namelessIn_renameOutermost {old new : String} (scope : List String) (e : Term)
    (hb : e.binds new = false) (hu : ¬ e.OccursUnder old new) (ho : old ∉ scope)
    (hn : new ∉ scope) :
    (e.renameOutermost old new).namelessIn scope =
      (e.namelessIn scope).mapFree (Function.update id old new) := by
  induction e generalizing scope with
  | var x =>
    by_cases hx : x = old
    · subst hx
      rw [renameOutermost, if_pos rfl]
      exact corresponds_of_notMem ho hn (by simp)
    · rw [renameOutermost, if_neg hx]
      exact corresponds_refl (by simp [hx]) scope
  | abs p b ih =>
    simp only [binds, Bool.or_eq_false_iff, beq_eq_false_iff_ne] at hb
    by_cases hp : p = old
    · subst hp
      rw [renameOutermost, if_pos rfl]
      refine congrArg Nameless.abs (namelessIn_renameFree b hb.2 ?_ ?_)
      · exact fun _ => corresponds_head _ scope scope p new
      · intro x hx hne
        have hxn : x ≠ new := by
          rintro rfl
          obtain ⟨q, hq, _⟩ := (mem_freeVariables_iff b x).1 hx
          exact hu (occursUnder_abs_self hq)
        exact (corresponds_refl (by simp [hne]) scope).cons hne hxn
    · rw [renameOutermost, if_neg hp]
      exact congrArg Nameless.abs (ih (p :: scope) hb.2 (fun h => hu (h.abs p))
        (by simp [ho, Ne.symm hp]) (by simp [hn, Ne.symm hb.1]))
  | app f a hf ha =>
    simp only [binds, Bool.or_eq_false_iff] at hb
    exact congrArg₂ Nameless.app (hf scope hb.1 (fun h => hu (h.operator a)) ho hn)
      (ha scope hb.2 (fun h => hu (h.operand f)) ho hn)

theorem nameless_rename {e r : Term} {old new : String} (h : e.rename old new = .ok r)
    (hu : ¬ e.OccursUnder old new) :
    r.nameless = e.nameless.mapFree (Function.update id old new) := by
  obtain ⟨hb, rfl⟩ := rename_eq_ok.1 h
  exact namelessIn_renameOutermost [] e hb hu List.not_mem_nil List.not_mem_nil

theorem mem_paramsAbove_renameOutermost {old : String} (new : String) {e : Term} {q : Position}
    (h : old ∈ e.paramsAbove [] q) : new ∈ (e.renameOutermost old new).paramsAbove [] q := by
  induction e generalizing q with
  | var y => cases q <;> simp [paramsAbove] at h
  | abs p b ih =>
    rw [renameOutermost]
    obtain _ | ⟨_ | _ | _, q⟩ := q
    · simp [paramsAbove] at h
    · split
      · exact mem_paramsAbove_body.2 (.inr rfl)
      · rename_i hp
        exact mem_paramsAbove_body.2
          (.inl (ih ((mem_paramsAbove_body.1 h).resolve_right (Ne.symm hp))))
    · simp [paramsAbove] at h
    · simp [paramsAbove] at h
  | app f a hf ha =>
    obtain _ | ⟨_ | _ | _, q⟩ := q
    · simp [paramsAbove] at h
    · simp [paramsAbove] at h
    · exact hf h
    · exact ha h

theorem rename_alphaEquivalent {e r : Term} {old new : String} (hf : old ∉ e.freeVariables)
    (h : e.rename old new = .ok r) (hu : ¬ e.OccursUnder old new) : r.AlphaEquivalent e := by
  have hid : ∀ x ∈ e.nameless.freeNames, Function.update id old new x = id x := by
    intro x hx
    rw [freeNames_nameless] at hx
    have hne : x ≠ old := fun he => hf (he ▸ hx)
    simp [hne]
  rw [AlphaEquivalent, nameless_rename h hu, Nameless.mapFree_congr _ hid, Nameless.mapFree_id]

/-- A variable `new` that is free below an abstraction over `old` is bound after the renaming, and
nothing that is done to the free names makes up for it. -/
theorem not_occursUnder_of_equivalent {e r : Term} {old new : String}
    (h : e.rename old new = .ok r) (he : r.Equivalent e) : ¬ e.OccursUnder old new := by
  rintro ⟨q, hq, ho⟩
  obtain ⟨hb, rfl⟩ := rename_eq_ok.1 h
  have hn : new ∉ e.paramsAbove [] q := by
    intro hn
    simp [binds_of_mem_paramsAbove hn] at hb
  have hne : new ≠ old := fun hne => hn (hne ▸ ho)
  have hr := at?_renameOutermost_var old new hq
  rw [if_neg fun h => hne h.1] at hr
  exact hn ((he.mem_paramsAbove_iff hr hq).1 (mem_paramsAbove_renameOutermost new ho))

/-- The renaming of bound variables is a conversion exactly when it captures no variable that has
the new name already. -/
theorem rename_isConversion_iff {e r : Term} {old new : String} (hf : old ∉ e.freeVariables)
    (h : e.rename old new = .ok r) :
    (r.Equivalent e ∧ ∀ x, x ∈ r.freeVariables ↔ x ∈ e.freeVariables) ↔
      ¬ e.OccursUnder old new := by
  constructor
  · exact fun hc => not_occursUnder_of_equivalent h hc.1
  · intro hu
    have ha := rename_alphaEquivalent hf h hu
    refine ⟨ha.equivalent, fun x => ?_⟩
    rw [ha.freeVariables_eq]

theorem rename_shadowed_isConversion :
    let e := abs "x" (app (abs "x" (var "x")) (app (var "z") (var "x")))
    let r := abs "y" (app (abs "x" (var "x")) (app (var "z") (var "y")))
    "x" ∉ e.freeVariables ∧ e.rename "x" "y" = .ok r ∧
      ((r.Equivalent e ∧ ∀ x, x ∈ r.freeVariables ↔ x ∈ e.freeVariables) ↔
        ¬ e.OccursUnder "x" "y") :=
  ⟨by decide, by decide, rename_isConversion_iff (by decide) (by decide)⟩

/-- The guard looks at parameters only, so a free variable can be captured. -/
theorem rename_captures :
    let e := abs "x" (app (var "y") (var "x"))
    let r := abs "y" (app (var "y") (var "y"))
    "x" ∉ e.freeVariables ∧ e.rename "x" "y" = .ok r ∧ ¬ r.Equivalent e ∧
      e.freeVariables = ["y"] ∧ r.freeVariables = [] := by
  decide

end LambdaCalculus.Term
