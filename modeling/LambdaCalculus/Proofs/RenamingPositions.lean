import LambdaCalculus.Proofs.Position
import LambdaCalculus.Term.Rename

namespace LambdaCalculus.Term

variable {old new : String}

theorem rename_eq_ok {e r : Term} :
    e.rename old new = .ok r ↔ e.binds new = false ∧ e.renameOutermost old new = r := by
  cases hb : e.binds new <;> simp [rename, canRename, hb]

theorem exists_rename_eq_ok_iff {e : Term} :
    (∃ r, e.rename old new = .ok r) ↔ e.binds new = false := by
  simp [rename_eq_ok]

theorem exists_rename_iff_canRename {e : Term} :
    (∃ r, e.rename old new = .ok r) ↔ e.canRename old new = true := by
  rw [exists_rename_eq_ok_iff, canRename, Bool.not_eq_true']

theorem rename_eq_error {e : Term} {err : RenameError} :
    e.rename old new = .error err ↔ e.binds new = true ∧ err = .capture old new := by
  cases hb : e.binds new <;> simp [rename, canRename, hb, eq_comm]

/-- What a renaming still does below `n` abstractions over the old name. Below one of them the free
occurrences are renamed, and below a second one nothing is. -/
def renameBelow (old new : String) : Nat → Term → Term
  | 0 => renameOutermost old new
  | 1 => renameFree old new
  | _ + 2 => id

@[simp]
theorem renameBelow_var (n : Nat) (x : String) :
    (var x).renameBelow old new n = var (if x = old ∧ n ≤ 1 then new else x) := by
  match n with
  | 0 | 1 => by_cases hx : x = old <;> simp [renameBelow, renameOutermost, renameFree, hx]
  | n + 2 => simp [renameBelow]

@[simp]
theorem renameBelow_abs (n : Nat) (p : String) (b : Term) :
    (abs p b).renameBelow old new n =
      abs (if p = old ∧ n = 0 then new else p)
        (b.renameBelow old new (if p = old then n + 1 else n)) := by
  match n with
  | 0 | 1 => by_cases hp : p = old <;> simp [renameBelow, renameOutermost, renameFree, hp]
  | n + 2 => by_cases hp : p = old <;> simp [renameBelow, hp]

@[simp]
theorem renameBelow_app (n : Nat) (f a : Term) :
    (app f a).renameBelow old new n =
      app (f.renameBelow old new n) (a.renameBelow old new n) := by
  match n with
  | 0 | 1 | n + 2 => rfl

theorem sameShape_renameBelow (n : Nat) (e : Term) : (e.renameBelow old new n).SameShape e := by
  induction e generalizing n with
  | var x =>
    rw [renameBelow_var]
    trivial
  | abs p b ih =>
    rw [renameBelow_abs]
    exact ih _
  | app f a hf ha =>
    rw [renameBelow_app]
    exact ⟨hf n, ha n⟩

/-- The abstractions over the old name that the way down passes decide what happens at its end. -/
theorem at?_renameBelow (old new : String) (n : Nat) (e : Term) (q : Position) :
    (e.renameBelow old new n).at? q =
      (e.at? q).map (renameBelow old new (n + (e.paramsAbove [] q).count old)) := by
  induction e generalizing n q with
  | var x =>
    cases q with
    | nil => simp
    | cons d q => simp
  | abs p b ih =>
    cases q with
    | nil => simp
    | cons d q =>
      cases d with
      | body =>
        have hcount : n + ((abs p b).paramsAbove [] (.body :: q)).count old =
            (if p = old then n + 1 else n) + (b.paramsAbove [] q).count old := by
          rw [paramsAbove, paramsAbove_eq_append, List.count_append, List.count_singleton]
          by_cases hp : p = old
          · simp only [hp, beq_self_eq_true, if_true]
            omega
          · simp [hp]
        rw [renameBelow_abs, hcount]
        exact ih _ q
      | operator | operand => simp
  | app f a hf ha =>
    rw [renameBelow_app]
    cases q with
    | nil => simp
    | cons d q =>
      cases d with
      | body => simp
      | operator => exact hf n q
      | operand => exact ha n q

theorem at?_renameOutermost (old new : String) {e d : Term} {q : Position}
    (h : e.at? q = some d) :
    (e.renameOutermost old new).at? q =
      some (d.renameBelow old new ((e.paramsAbove [] q).count old)) := by
  have hq := at?_renameBelow old new 0 e q
  rwa [Nat.zero_add, h] at hq

theorem at?_renameOutermost_var (old new : String) {e : Term} {q : Position} {x : String}
    (h : e.at? q = some (var x)) :
    (e.renameOutermost old new).at? q =
      some (var (if x = old ∧ (e.paramsAbove [] q).count old ≤ 1 then new else x)) := by
  rw [at?_renameOutermost old new h, renameBelow_var]

/-- Which parameters are renamed is decided by those above them alone. -/
theorem exists_at?_renameOutermost_abs {e : Term} {q : Position} {x : String} :
    (∃ c, (e.renameOutermost old new).at? q = some (abs x c)) ↔
      ∃ p b, e.at? q = some (abs p b) ∧
        (if p = old ∧ old ∉ e.paramsAbove [] q then new else p) = x := by
  cases h : e.at? q with
  | none =>
    have hq := at?_renameBelow old new 0 e q
    rw [h] at hq
    simp [show (e.renameOutermost old new).at? q = none from hq]
  | some d =>
    rw [at?_renameOutermost old new h]
    cases d with
    | var y => simp
    | app f a => simp
    | abs p b => simp [List.count_eq_zero]

/-- A renaming changes a parameter that has the old name where no abstraction above it has, and a
variable that has the old name where at most one above it has. -/
theorem rename_frame {e r : Term} (h : e.rename old new = .ok r) :
    r.SameShape e ∧
      (∀ q p b, e.at? q = some (abs p b) →
        ∃ c, r.at? q = some (abs (if p = old ∧ old ∉ e.paramsAbove [] q then new else p) c)) ∧
      ∀ q x, e.at? q = some (var x) → r.at? q =
        some (var (if x = old ∧ (e.paramsAbove [] q).count old ≤ 1 then new else x)) := by
  obtain ⟨-, rfl⟩ := rename_eq_ok.1 h
  refine ⟨sameShape_renameBelow 0 e, fun q p b hq => ?_, fun q x hq => ?_⟩
  · exact exists_at?_renameOutermost_abs.2 ⟨p, b, hq, rfl⟩
  · exact at?_renameOutermost_var old new hq

theorem rename_frame_shadowed :
    let e := app (abs "x" (app (var "x") (abs "y" (abs "x" (app (var "x") (var "y")))))) (var "x")
    let r := app (abs "z" (app (var "z") (abs "y" (abs "x" (app (var "x") (var "y")))))) (var "z")
    let outer : Position := [.operator]
    let inner : Position := [.operator, .body, .operand, .body]
    e.rename "x" "z" = .ok r ∧ r.SameShape e ∧ (∃ c, r.at? outer = some (abs "z" c)) ∧
      (∃ c, r.at? inner = some (abs "x" c)) ∧
      r.at? (outer ++ [.body, .operator]) = some (var "z") ∧
      r.at? (inner ++ [.body, .operator]) = some (var "x") ∧
      r.at? [.operand] = some (var "z") := by
  intro e r outer inner
  have h : e.rename "x" "z" = .ok r := rename_eq_ok.2 (by decide)
  obtain ⟨hshape, hparam, hvar⟩ := rename_frame h
  exact ⟨h, hshape, hparam outer "x" _ rfl, hparam inner "x" _ rfl, hvar _ "x" rfl,
    hvar _ "x" rfl, hvar _ "x" rfl⟩

end LambdaCalculus.Term
