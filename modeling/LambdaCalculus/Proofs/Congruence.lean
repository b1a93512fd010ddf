import LambdaCalculus.Proofs.Renaming
import LambdaCalculus.Term.Context

namespace LambdaCalculus

namespace Nameless

/-- The variables of the binder around the term become free and take the name `x`; `depth`
abstractions of the term have been entered. -/
def unbind (x : String) (depth : Nat) : Nameless → Nameless
  | bound k => if k = depth then free x else bound k
  | free y => free y
  | abs b => abs (b.unbind x (depth + 1))
  | app f a => app (f.unbind x depth) (a.unbind x depth)

theorem unbind_mapFree {φ : String → String} {x : String} (y : String) (depth : Nat)
    (t : Nameless) (hx : x ∉ t.freeNames) :
    (t.mapFree φ).unbind y depth = (t.unbind x depth).mapFree (Function.update φ x y) := by
  induction t generalizing depth with
  | bound k =>
    by_cases hk : k = depth <;> simp [unbind, hk]
  | free z =>
    have hz : z ≠ x := fun h => hx (by simp [h])
    simp [unbind, hz]
  | abs b ih => exact congrArg abs (ih (depth + 1) hx)
  | app f a hf ha =>
    exact congrArg₂ app (hf depth fun h => hx (Term.mem_mergeNames.2 (.inl h)))
      (ha depth fun h => hx (Term.mem_mergeNames.2 (.inr h)))

end Nameless

namespace Term

theorem unbind_namelessIn (scope : List String) (x : String) (e : Term) :
    (e.namelessIn (scope ++ [x])).unbind x scope.length = e.namelessIn scope := by
  induction e generalizing scope with
  | var y =>
    have happend : (scope ++ [x]).idxOf? y =
        (scope.idxOf? y).or (if x = y then some scope.length else none) := by
      simp [List.idxOf?, List.findIdx?_append, List.findIdx?_cons]
    simp only [namelessIn, happend]
    cases hk : scope.idxOf? y with
    | some k =>
      have hlt : k < scope.length := (List.findIdx?_eq_some_iff_getElem.1 hk).1
      simp [Nameless.unbind, Nat.ne_of_lt hlt]
    | none =>
      by_cases hx : x = y <;> simp [Nameless.unbind, hx]
  | abs p b ih => exact congrArg Nameless.abs (ih (p :: scope))
  | app f a hf ha => exact congrArg₂ Nameless.app (hf scope) (ha scope)

theorem injOn_update_of_bijOn {x y : String} {e f : Term} {φ : String → String}
    (hφ : Set.BijOn φ {z | z ∈ (abs x e).freeVariables} {z | z ∈ (abs y f).freeVariables}) :
    Set.InjOn (Function.update φ x y) {z | z ∈ e.freeVariables} := by
  have hx : x ∉ {z | z ∈ (abs x e).freeVariables} := by simp
  have hy : y ∉ {z | z ∈ (abs y f).freeVariables} := by simp
  have hsame : Set.EqOn φ (Function.update φ x y) {z | z ∈ (abs x e).freeVariables} :=
    fun z hz => (Function.update_of_ne (ne_of_mem_of_not_mem hz hx) y φ).symm
  have hinsert : Set.InjOn (Function.update φ x y)
      (insert x {z | z ∈ (abs x e).freeVariables}) := by
    rw [Set.injOn_insert hx, ← hsame.image_eq, hφ.image_eq, Function.update_self]
    exact ⟨hφ.injOn.congr hsame, hy⟩
  refine hinsert.mono fun z hz => ?_
  by_cases hzx : z = x
  · exact .inl hzx
  · exact .inr (List.mem_filter.2 ⟨hz, bne_iff_ne.2 hzx⟩)

/-- The parameter of the one abstraction is taken to that of the other, and the free names as
before. -/
theorem Equivalent.of_abs {x y : String} {e f : Term} (h : (abs x e).Equivalent (abs y f)) :
    e.Equivalent f := by
  obtain ⟨φ, hφ, hmap⟩ := exists_bijOn_of_equivalent h
  have hbody : (e.namelessIn [x]).mapFree φ = f.namelessIn [y] := Nameless.abs.inj hmap
  have hx : x ∉ (e.namelessIn [x]).freeNames := by simp [freeNames_namelessIn]
  apply equivalent_of_injOn (injOn_update_of_bijOn hφ)
  calc e.nameless.mapFree (Function.update φ x y)
      = ((e.namelessIn [x]).unbind x 0).mapFree (Function.update φ x y) :=
        congrArg _ (unbind_namelessIn [] x e).symm
    _ = ((e.namelessIn [x]).mapFree φ).unbind y 0 := (Nameless.unbind_mapFree y 0 _ hx).symm
    _ = (f.namelessIn [y]).unbind y 0 := congrArg _ hbody
    _ = f.nameless := unbind_namelessIn [] y f

theorem Equivalent.of_app {e₁ e₂ f₁ f₂ : Term} (h : (app e₁ e₂).Equivalent (app f₁ f₂)) :
    e₁.Equivalent f₁ ∧ e₂.Equivalent f₂ := by
  obtain ⟨φ, hφ, hmap⟩ := exists_bijOn_of_equivalent h
  obtain ⟨h₁, h₂⟩ := Nameless.app.inj hmap
  have hinj := hφ.injOn
  exact ⟨equivalent_of_injOn (hinj.mono fun z hz => mem_mergeNames.2 (.inl hz)) h₁,
    equivalent_of_injOn (hinj.mono fun z hz => mem_mergeNames.2 (.inr hz)) h₂⟩

theorem equivalent_of_fill {e f : Term} (c : Context)
    (h : (c.fill e).Equivalent (c.fill f)) : e.Equivalent f := by
  induction c with
  | hole => exact h
  | abs p c ih => exact ih h.of_abs
  | operator c a ih => exact ih h.of_app.1
  | operand g c ih => exact ih h.of_app.2

theorem namelessIn_of_isClosed {e : Term} (he : e.isClosed = true) (scope : List String) :
    e.namelessIn scope = e.nameless := by
  have hsame : e.namelessIn scope = (e.namelessIn []).mapFree id :=
    namelessIn_of_corresponds e (by simp [(isClosed_iff e).1 he])
  rw [hsame, Nameless.mapFree_id, nameless]

theorem namelessIn_fill {e f : Term} (h : ∀ scope, e.namelessIn scope = f.namelessIn scope)
    (c : Context) (scope : List String) :
    (c.fill e).namelessIn scope = (c.fill f).namelessIn scope := by
  induction c generalizing scope with
  | hole => exact h scope
  | abs p c ih => exact congrArg Nameless.abs (ih (p :: scope))
  | operator c a ih => exact congrArg (Nameless.app · (a.namelessIn scope)) (ih scope)
  | operand g c ih => exact congrArg (Nameless.app (g.namelessIn scope)) (ih scope)

theorem Equivalent.fill {e f : Term} (he : e.isClosed = true) (hf : f.isClosed = true)
    (h : e.Equivalent f) (c : Context) : (c.fill e).Equivalent (c.fill f) := by
  have hnames : e.freeVariables = f.freeVariables := by
    rw [(isClosed_iff e).1 he, (isClosed_iff f).1 hf]
  have halpha : e.nameless = f.nameless := h.alphaEquivalent hnames
  have hfill : (c.fill e).AlphaEquivalent (c.fill f) := namelessIn_fill (fun scope => by
    rw [namelessIn_of_isClosed he, halpha, namelessIn_of_isClosed hf]) c []
  exact hfill.equivalent

/-- Terms are equivalent only if their parts are, and so whatever stands in the same place of
equivalent terms is equivalent. Closed terms can be put in any place, below any binders. -/
theorem equivalent_fill :
    (∀ x y e f, (abs x e).Equivalent (abs y f) → e.Equivalent f) ∧
    (∀ e₁ e₂ f₁ f₂, (app e₁ e₂).Equivalent (app f₁ f₂) →
      e₁.Equivalent f₁ ∧ e₂.Equivalent f₂) ∧
    (∀ (c : Context) (e f : Term), (c.fill e).Equivalent (c.fill f) → e.Equivalent f) ∧
    ∀ e f : Term, e.isClosed = true → f.isClosed = true →
      ∀ c : Context, (c.fill e).Equivalent (c.fill f) ↔ e.Equivalent f := by
  refine ⟨fun x y e f => .of_abs, fun e₁ e₂ f₁ f₂ h => h.of_app,
    fun c e f => equivalent_of_fill c, ?_⟩
  intro e f he hf c
  exact ⟨equivalent_of_fill c, fun h => h.fill he hf c⟩

/-- The context binds a name that the terms use themselves. -/
theorem equivalent_fill_shadowed :
    let c : Context := .abs "x" (.operand (var "x") .hole)
    let e := abs "x" (abs "y" (var "x"))
    let f := abs "y" (abs "x" (var "y"))
    ((abs "x" (app (var "x") (var "y"))).Equivalent (abs "y" (app (var "y") (var "x"))) ∧
      (app (var "x") (var "y")).Equivalent (app (var "y") (var "x"))) ∧
    ((app e (var "x")).Equivalent (app f (var "y")) ∧
      e.Equivalent f ∧ (var "x").Equivalent (var "y")) ∧
    ((c.fill (var "y")).Equivalent (c.fill (var "z")) ∧ (var "y").Equivalent (var "z")) ∧
    e.isClosed = true ∧ f.isClosed = true ∧
      ((c.fill e).Equivalent (c.fill f) ↔ e.Equivalent f) := by
  intro c e f
  have habs : (abs "x" (app (var "x") (var "y"))).Equivalent
      (abs "y" (app (var "y") (var "x"))) := by decide
  have happ : (app e (var "x")).Equivalent (app f (var "y")) := by decide
  have hfill : (c.fill (var "y")).Equivalent (c.fill (var "z")) := by decide
  have he : e.isClosed = true := by decide
  have hf : f.isClosed = true := by decide
  exact ⟨⟨habs, equivalent_fill.1 _ _ _ _ habs⟩, ⟨happ, equivalent_fill.2.1 _ _ _ _ happ⟩,
    ⟨hfill, equivalent_fill.2.2.1 c _ _ hfill⟩, he, hf, equivalent_fill.2.2.2 e f he hf c⟩

example : (var "x").Equivalent (var "y") ∧
    ¬ (abs "x" (var "x")).Equivalent (abs "x" (var "y")) := by decide

end Term

end LambdaCalculus
