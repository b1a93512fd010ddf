import LambdaCalculus.Term.Position
import LambdaCalculus.Term.Variables

namespace LambdaCalculus.Term

@[simp]
theorem at?_nil (e : Term) : e.at? [] = some e := by
  cases e <;> rfl

@[simp]
theorem paramsAbove_nil (scope : List String) (e : Term) : e.paramsAbove scope [] = scope := by
  cases e <;> rfl

@[elab_as_elim]
theorem at?_induction {d : Term} {motive : (e : Term) → (q : Position) → e.at? q = some d → Prop}
    (root : motive d [] (at?_nil d))
    (body : ∀ p b q (h : b.at? q = some d), motive b q h → motive (abs p b) (.body :: q) h)
    (operator : ∀ f a q (h : f.at? q = some d), motive f q h →
      motive (app f a) (.operator :: q) h)
    (operand : ∀ f a q (h : a.at? q = some d), motive a q h →
      motive (app f a) (.operand :: q) h) {e : Term} {q : Position} (h : e.at? q = some d) :
    motive e q h := by
  induction q generalizing e with
  | nil =>
    obtain rfl : e = d := Option.some.inj ((at?_nil e).symm.trans h)
    exact root
  | cons c q ih =>
    cases e with
    | var x => simp at h
    | abs p b =>
      cases c with
      | body => exact body p b q h (ih h)
      | operator | operand => cases h
    | app f a =>
      cases c with
      | body => cases h
      | operator => exact operator f a q h (ih h)
      | operand => exact operand f a q h (ih h)

theorem paramsAbove_eq_append (scope : List String) (e : Term) (q : Position) :
    e.paramsAbove scope q = e.paramsAbove [] q ++ scope := by
  induction e generalizing scope q with
  | var x => cases q <;> rfl
  | abs p b ih =>
    cases q with
    | nil => rfl
    | cons d q =>
      cases d with
      | body =>
        simp only [paramsAbove]
        rw [ih (p :: scope), ih [p], List.append_assoc, List.singleton_append]
      | operator | operand => rfl
  | app f a hf ha =>
    cases q with
    | nil => rfl
    | cons d q =>
      cases d with
      | body => rfl
      | operator => exact hf scope q
      | operand => exact ha scope q

theorem mem_paramsAbove {scope : List String} {x : String} {e : Term} {q : Position} :
    x ∈ e.paramsAbove scope q ↔ x ∈ e.paramsAbove [] q ∨ x ∈ scope := by
  rw [paramsAbove_eq_append, List.mem_append]

@[simp]
theorem mem_paramsAbove_body {x p : String} {b : Term} {q : Position} :
    x ∈ (abs p b).paramsAbove [] (.body :: q) ↔ x ∈ b.paramsAbove [] q ∨ x = p := by
  rw [paramsAbove, mem_paramsAbove, List.mem_singleton]

@[simp]
theorem paramsAbove_append {e d : Term} {q : Position} (scope : List String) (r : Position)
    (h : e.at? q = some d) :
    e.paramsAbove scope (q ++ r) = d.paramsAbove (e.paramsAbove scope q) r := by
  induction h using at?_induction generalizing scope with
  | root => rw [paramsAbove_nil, List.nil_append]
  | body p b q h ih => exact ih (p :: scope)
  | operator f a q h ih => exact ih scope
  | operand f a q h ih => exact ih scope

theorem paramsAbove_of_abs {e b : Term} {q : Position} {x : String} (r : Position)
    (h : e.at? q = some (abs x b)) :
    e.paramsAbove [] (q ++ .body :: r) = b.paramsAbove [] r ++ x :: e.paramsAbove [] q := by
  rw [paramsAbove_append [] _ h, paramsAbove, paramsAbove_eq_append]

theorem exists_boundAt {e : Term} {p : Position} {x : String} (h : x ∈ e.paramsAbove [] p) :
    ∃ k, e.BoundAt p x k := by
  induction e generalizing p with
  | var y => cases p <;> simp [paramsAbove] at h
  | abs y b ih =>
    obtain _ | ⟨_ | _ | _, p⟩ := p
    · simp [paramsAbove] at h
    · by_cases hb : x ∈ b.paramsAbove [] p
      · obtain ⟨k, q, r, c, rfl, hq, hr⟩ := ih hb
        exact ⟨k, .body :: q, r, c, rfl, hq, hr⟩
      · have hy : x = y := (mem_paramsAbove_body.1 h).resolve_left hb
        exact ⟨_, [], p, b, rfl, by rw [hy]; rfl, hb, rfl⟩
    · simp [paramsAbove] at h
    · simp [paramsAbove] at h
  | app f a hf ha =>
    obtain _ | ⟨_ | _ | _, p⟩ := p
    · simp [paramsAbove] at h
    · simp [paramsAbove] at h
    · obtain ⟨k, q, r, c, rfl, hq, hr⟩ := hf h
      exact ⟨k, .operator :: q, r, c, rfl, hq, hr⟩
    · obtain ⟨k, q, r, c, rfl, hq, hr⟩ := ha h
      exact ⟨k, .operand :: q, r, c, rfl, hq, hr⟩

theorem mem_paramsAbove_iff_exists_abs {e : Term} {p : Position} {x : String} :
    x ∈ e.paramsAbove [] p ↔ ∃ q r b, p = q ++ .body :: r ∧ e.at? q = some (abs x b) := by
  constructor
  · intro h
    obtain ⟨_, q, r, b, hp, hq, _⟩ := exists_boundAt h
    exact ⟨q, r, b, hp, hq⟩
  · rintro ⟨q, r, b, rfl, hq⟩
    simp [paramsAbove_of_abs r hq]

theorem exists_boundAt_iff {e : Term} {p : Position} {x : String} :
    (∃ k, e.BoundAt p x k) ↔ x ∈ e.paramsAbove [] p := by
  constructor
  · rintro ⟨_, q, r, b, hp, hq, _⟩
    exact mem_paramsAbove_iff_exists_abs.2 ⟨q, r, b, hp, hq⟩
  · exact exists_boundAt

@[simp]
theorem exists_at?_var {y : String} {d : Term} :
    (∃ q, (var y).at? q = some d) ↔ d = var y := by
  constructor
  · rintro ⟨_ | ⟨c, q⟩, hq⟩
    · exact (Option.some.inj hq).symm
    · simp at hq
  · rintro rfl
    exact ⟨[], rfl⟩

@[simp]
theorem exists_at?_abs {p : String} {b d : Term} :
    (∃ q, (abs p b).at? q = some d) ↔ d = abs p b ∨ ∃ q, b.at? q = some d := by
  constructor
  · rintro ⟨_ | ⟨_ | _ | _, q⟩, hq⟩
    · exact .inl (Option.some.inj hq).symm
    · exact .inr ⟨q, hq⟩
    · simp at hq
    · simp at hq
  · rintro (rfl | ⟨q, hq⟩)
    · exact ⟨[], rfl⟩
    · exact ⟨.body :: q, hq⟩

@[simp]
theorem exists_at?_app {f a d : Term} : (∃ q, (app f a).at? q = some d) ↔
    d = app f a ∨ (∃ q, f.at? q = some d) ∨ ∃ q, a.at? q = some d := by
  constructor
  · rintro ⟨_ | ⟨_ | _ | _, q⟩, hq⟩
    · exact .inl (Option.some.inj hq).symm
    · simp at hq
    · exact .inr (.inl ⟨q, hq⟩)
    · exact .inr (.inr ⟨q, hq⟩)
  · rintro (rfl | ⟨q, hq⟩ | ⟨q, hq⟩)
    · exact ⟨[], rfl⟩
    · exact ⟨.operator :: q, hq⟩
    · exact ⟨.operand :: q, hq⟩

theorem binds_iff_exists_at? {x : String} {e : Term} :
    e.binds x = true ↔ ∃ q b, e.at? q = some (abs x b) := by
  rw [exists_comm]
  induction e with
  | var y => simp
  | abs p c ih =>
    have hroot : (∃ b, abs x b = abs p c) ↔ p = x := by simp [eq_comm]
    simp only [binds, Bool.or_eq_true, beq_iff_eq, exists_at?_abs, exists_or, hroot, ih]
  | app f a hf ha => simp [exists_or, hf, ha]

theorem binds_of_mem_paramsAbove {x : String} {e : Term} {q : Position}
    (h : x ∈ e.paramsAbove [] q) : e.binds x = true := by
  obtain ⟨r, _, b, _, hr⟩ := mem_paramsAbove_iff_exists_abs.1 h
  exact binds_iff_exists_at?.2 ⟨r, b, hr⟩

theorem binds_eq_false_iff {x : String} {e : Term} :
    e.binds x = false ↔ ∀ q b, e.at? q ≠ some (abs x b) := by
  rw [← Bool.not_eq_true, binds_iff_exists_at?]
  simp only [not_exists, ne_eq]

theorem mem_names_iff {x : String} {e : Term} :
    x ∈ e.names ↔ x ∈ e.freeVariables ∨ e.binds x = true := by
  induction e with
  | var y => simp
  | abs p b ih =>
    by_cases hp : x = p
    · simp [hp]
    · simp [ih, hp, Ne.symm hp]
  | app f a hf ha =>
    simp only [names, List.mem_append, hf, ha, freeVariables, mem_mergeNames, binds,
      Bool.or_eq_true]
    exact or_or_or_comm

theorem mem_names_of_at? {x : String} {e d : Term} {q : Position} (h : e.at? q = some d)
    (hx : x ∈ d.names) : x ∈ e.names := by
  induction h using at?_induction with
  | root => exact hx
  | body p b q h ih => exact List.mem_cons_of_mem _ ih
  | operator f a q h ih => exact List.mem_append_left _ ih
  | operand f a q h ih => exact List.mem_append_right _ ih

theorem mem_variableNames_iff {x : String} {e : Term} :
    x ∈ e.variableNames ↔ ∃ q, e.at? q = some (var x) := by
  induction e with
  | var y => simp
  | abs p b ih => simp [ih]
  | app f a hf ha => simp [hf, ha]

/-- Variables are free exactly where no abstraction above them binds them, and `scope` does not. -/
theorem exists_at?_notMem_paramsAbove (scope : List String) (e : Term) (x : String) :
    (∃ q, e.at? q = some (var x) ∧ x ∉ e.paramsAbove scope q) ↔
      x ∈ e.freeVariables ∧ x ∉ scope := by
  induction e generalizing scope with
  | var y =>
    constructor
    · rintro ⟨_ | ⟨d, q⟩, hq, hx⟩
      · simp only [at?, Option.some.injEq, var.injEq] at hq
        exact ⟨by simp [hq], hx⟩
      · simp at hq
    · rintro ⟨hx, hs⟩
      rw [freeVariables, List.mem_singleton] at hx
      subst hx
      exact ⟨[], rfl, hs⟩
  | abs p b ih =>
    have hb := ih (p :: scope)
    simp only [freeVariables, List.mem_filter, bne_iff_ne, List.mem_cons, not_or] at hb ⊢
    constructor
    · rintro ⟨_ | ⟨d, q⟩, hq, hx⟩
      · simp at hq
      · cases d with
        | body =>
          obtain ⟨hm, hp, hs⟩ := hb.1 ⟨q, hq, hx⟩
          exact ⟨⟨hm, hp⟩, hs⟩
        | operator | operand => simp at hq
    · rintro ⟨⟨hm, hp⟩, hs⟩
      obtain ⟨q, hq, hx⟩ := hb.2 ⟨hm, hp, hs⟩
      exact ⟨.body :: q, hq, hx⟩
  | app f a hf ha =>
    rw [freeVariables, mem_mergeNames, or_and_right, ← hf scope, ← ha scope]
    constructor
    · rintro ⟨_ | ⟨d, q⟩, hq, hx⟩
      · simp at hq
      · cases d with
        | body => simp at hq
        | operator => exact .inl ⟨q, hq, hx⟩
        | operand => exact .inr ⟨q, hq, hx⟩
    · rintro (⟨q, hq, hx⟩ | ⟨q, hq, hx⟩)
      · exact ⟨.operator :: q, hq, hx⟩
      · exact ⟨.operand :: q, hq, hx⟩

theorem mem_freeVariables_iff (e : Term) (x : String) :
    x ∈ e.freeVariables ↔ ∃ q, e.OccursFreeAt q x := by
  have h := exists_at?_notMem_paramsAbove [] e x
  simpa [OccursFreeAt] using h.symm

def OccursUnder (e : Term) (p x : String) : Prop :=
  ∃ q, e.at? q = some (var x) ∧ p ∈ e.paramsAbove [] q

theorem mem_positions_of_at? {e d : Term} {q : Position} (h : e.at? q = some d) :
    q ∈ e.positions := by
  induction h using at?_induction with
  | root => cases d <;> exact List.mem_cons_self
  | body p b q h ih => exact List.mem_cons_of_mem _ (List.mem_map_of_mem ih)
  | operator f a q h ih =>
    exact List.mem_cons_of_mem _ (List.mem_append_left _ (List.mem_map_of_mem ih))
  | operand f a q h ih =>
    exact List.mem_cons_of_mem _ (List.mem_append_right _ (List.mem_map_of_mem ih))

instance (e : Term) (p x : String) : Decidable (e.OccursUnder p x) :=
  decidable_of_iff (∃ q ∈ e.positions, e.at? q = some (var x) ∧ p ∈ e.paramsAbove [] q)
    ⟨fun ⟨q, _, h⟩ => ⟨q, h⟩, fun ⟨q, h⟩ => ⟨q, mem_positions_of_at? h.1, h⟩⟩

theorem occursUnder_abs_self {b : Term} {p x : String} {q : Position}
    (h : b.at? q = some (var x)) : (abs p b).OccursUnder p x :=
  ⟨.body :: q, h, mem_paramsAbove_body.2 (.inr rfl)⟩

theorem OccursUnder.abs {b : Term} {p x : String} (h : b.OccursUnder p x) (y : String) :
    (Term.abs y b).OccursUnder p x := by
  obtain ⟨q, hq, hp⟩ := h
  exact ⟨.body :: q, hq, mem_paramsAbove_body.2 (.inl hp)⟩

theorem OccursUnder.operator {f : Term} {p x : String} (h : f.OccursUnder p x) (a : Term) :
    (app f a).OccursUnder p x := by
  obtain ⟨q, hq, hp⟩ := h
  exact ⟨.operator :: q, hq, hp⟩

theorem OccursUnder.operand {a : Term} {p x : String} (h : a.OccursUnder p x) (f : Term) :
    (app f a).OccursUnder p x := by
  obtain ⟨q, hq, hp⟩ := h
  exact ⟨.operand :: q, hq, hp⟩

end LambdaCalculus.Term
