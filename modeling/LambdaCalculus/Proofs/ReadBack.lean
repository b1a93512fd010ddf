import LambdaCalculus.Proofs.Commands
import LambdaCalculus.Proofs.NormalForm
import LambdaCalculus.Proofs.Renaming
import LambdaCalculus.Proofs.RoundTrip

namespace LambdaCalculus

namespace Term

variable {old new x : String}

theorem of_mem_names_renameBelow {n : Nat} {e : Term} (h : x ∈ (e.renameBelow old new n).names) :
    x ∈ e.names ∨ old ∈ e.names ∧ x = new := by
  induction e generalizing n with
  | var y =>
    rw [renameBelow_var, names, List.mem_singleton] at h
    split at h
    · rename_i hy
      exact .inr ⟨by simp [hy.1], h⟩
    · exact .inl (by simp [h])
  | abs p b ih =>
    rw [renameBelow_abs, names, List.mem_cons] at h
    rw [names, List.mem_cons, List.mem_cons]
    rcases h with h | h
    · split at h
      · rename_i hp
        exact .inr ⟨.inl hp.1.symm, h⟩
      · exact .inl (.inl h)
    · exact (ih h).imp .inr (.imp_left .inr)
  | app f a hf ha =>
    rw [renameBelow_app, names, List.mem_append] at h
    rw [names, List.mem_append, List.mem_append]
    rcases h with h | h
    · exact (hf h).imp .inl (.imp_left .inl)
    · exact (ha h).imp .inr (.imp_left .inr)

theorem mem_names_renameOutermost (new : String) {e : Term} (h : old ∈ e.names) :
    new ∈ (e.renameOutermost old new).names := by
  induction e with
  | var y =>
    have hy : y = old := (List.mem_singleton.1 h).symm
    simp [renameOutermost, hy]
  | abs p b ih =>
    by_cases hp : p = old
    · simp [renameOutermost, hp]
    · have hb : old ∈ b.names := (List.mem_cons.1 h).resolve_left (Ne.symm hp)
      simp [renameOutermost, hp, ih hb]
  | app f a hf ha =>
    rcases List.mem_append.1 h with h | h
    · exact List.mem_append_left _ (hf h)
    · exact List.mem_append_right _ (ha h)

/-- The new name is among the names of the result as soon as the old name stands anywhere. -/
theorem forall_mem_names_rename_iff {e r : Term} {P : String → Prop} (hP : ∀ x ∈ e.names, P x)
    (h : e.rename old new = .ok r) : (∀ x ∈ r.names, P x) ↔ P new ∨ old ∉ e.names := by
  obtain ⟨-, rfl⟩ := rename_eq_ok.1 h
  constructor
  · intro hr
    by_cases ho : old ∈ e.names
    · exact .inl (hr new (mem_names_renameOutermost new ho))
    · exact .inr ho
  · intro hor x hx
    rcases of_mem_names_renameBelow (n := 0) hx with hx | ⟨ho, rfl⟩
    · exact hP x hx
    · exact hor.resolve_right (not_not_intro ho)

theorem isIdentifier_cons_repr {c : Char} (hc : c.isAlpha = true) (k : Nat) :
    IsIdentifier (c :: k.repr.toList) := by
  refine ⟨c, k.repr.toList, rfl, hc, fun d hd => ?_⟩
  rw [Nat.toList_repr] at hd
  have hdigit := Nat.isDigit_of_mem_toDigits (by decide) (by decide) hd
  simp [Char.isAlphanum, hdigit]

theorem isIdentifier_boundName (k : Nat) : IsIdentifier (boundName k).toList := by
  have h := isIdentifier_cons_repr (c := 'b') (by decide) k
  simpa [boundName] using h

theorem isIdentifier_freeName (n : Nat) : IsIdentifier (freeName n).toList := by
  have h := isIdentifier_cons_repr (c := 'u') (by decide) n
  simpa [freeName] using h

theorem isIdentifier_normalParam : IsIdentifier normalParam.toList :=
  ⟨'L', [], rfl, by decide, by simp⟩

theorem isIdentifier_of_mem_normalizeIn (scope labels : List String) (e : Term) :
    ∀ x ∈ (e.normalizeIn scope labels).1.names, IsIdentifier x.toList := by
  induction e generalizing scope labels with
  | var y =>
    intro x hx
    cases hy : scope.idxOf? y with
    | some k =>
      simp only [normalizeIn, hy, names, List.mem_singleton] at hx
      rw [hx]
      exact isIdentifier_boundName k
    | none =>
      simp only [normalizeIn, hy, names, List.mem_singleton] at hx
      rw [hx]
      exact isIdentifier_freeName _
  | abs p b ih => exact List.forall_mem_cons.2 ⟨isIdentifier_normalParam, ih (p :: scope) labels⟩
  | app f a hf ha => exact List.forall_mem_append.2 ⟨hf scope labels, ha scope _⟩

theorem parse_print_normalize (e : Term) : parse e.normalize.print = .ok e.normalize :=
  parse_print (isIdentifier_of_mem_normalizeIn [] [] e)

theorem print_normalize_eq_iff {e f : Term} :
    e.normalize.print = f.normalize.print ↔ e.Equivalent f := by
  constructor
  · intro h
    have hread := congrArg parse h
    rw [parse_print_normalize, parse_print_normalize] at hread
    exact Except.ok.inj hread
  · exact congrArg print

end Term

namespace Analyzer

theorem execute_normalize {text : String} {e : Term} (h : parse text = .ok e) :
    execute text .normalize = .ok e.normalize.print := by
  rw [execute, parsed_of_parse h]
  rfl

theorem execute_equiv {text other : String} {e f : Term} (h : parse text = .ok e)
    (hother : parse other = .ok f) :
    execute text (.equiv other) = .ok (answer (decide (e.Equivalent f))) := by
  rw [execute, parsed_of_parse h, parsed_of_parse hother]
  rfl

end Analyzer

open Term

/-- The printed result of a renaming is read as that result exactly when the new name is an
identifier, or the old name stands nowhere. -/
theorem parse_print_rename_iff {text old new : String} {e r : Term} (h : parse text = .ok e)
    (hr : e.rename old new = .ok r) :
    parse r.print = .ok r ↔
      IsIdentifier new.toList ∨ old ∉ e.freeVariables ∧ ∀ q b, e.at? q ≠ some (.abs old b) := by
  have hread : parse r.print = .ok r ↔ ∀ x ∈ r.names, IsIdentifier x.toList :=
    ⟨isIdentifier_of_parse, parse_print⟩
  rw [hread, forall_mem_names_rename_iff (isIdentifier_of_parse h) hr, mem_names_iff, not_or,
    binds_iff_exists_at?]
  simp only [not_exists, ne_eq]

theorem parse_print_rename_spaced :
    let e := Term.abs "x" (.app (.var "x") (.var "y"))
    let r := Term.abs "x" (.app (.var "x") (.var "y z"))
    parse "λx.x y" = .ok e ∧ e.rename "y" "y z" = .ok r ∧
      (parse r.print = .ok r ↔ IsIdentifier "y z".toList ∨
        "y" ∉ e.freeVariables ∧ ∀ q b, e.at? q ≠ some (.abs "y" b)) := by
  have h : parse "λx.x y" = .ok (.abs "x" (.app (.var "x") (.var "y"))) := by decide +kernel
  exact ⟨h, by decide, parse_print_rename_iff h (by decide)⟩

/-- A normal form can be read from its print, which therefore tells as much as the normal form
itself: the prints of two sources are the same exactly when the sources are found equivalent. -/
theorem print_normalize_faithful (files : Analyzer.Files) :
    (∀ e : Term, parse e.normalize.print = .ok e.normalize) ∧
      (∀ e f : Term, e.normalize.print = f.normalize.print ↔ e.Equivalent f) ∧
      ∀ (c d : Analyzer.Config) (s t : String) (e f : Term),
        Analyzer.source files c = .ok s → Analyzer.source files d = .ok t →
        parse s = .ok e → parse t = .ok f →
        ((∃ output, Analyzer.run files { c with command := .normalize } = .ok output ∧
            Analyzer.run files { d with command := .normalize } = .ok output) ↔
          Analyzer.run files { c with command := .equiv t } = .ok "true") := by
  refine ⟨parse_print_normalize, fun e f => print_normalize_eq_iff, ?_⟩
  intro c d s t e f hs ht he hf
  rw [Analyzer.run_of_source hs, Analyzer.run_of_source ht, Analyzer.run_of_source hs,
    Analyzer.execute_normalize he, Analyzer.execute_normalize hf, Analyzer.execute_equiv he hf,
    Except.ok.injEq, Analyzer.answer_eq_true, decide_eq_true_iff, ← print_normalize_eq_iff]
  constructor
  · rintro ⟨output, hc, hd⟩
    exact Except.ok.inj (hc.trans hd.symm)
  · intro h
    exact ⟨_, rfl, by rw [h]⟩

theorem print_normalize_faithful_of_file :
    let files : Analyzer.Files := fun _ => .ok "λL.λb0.b0 x".toUTF8
    let c : Analyzer.Config := ⟨some "λx.λx.x y", none, false, .print⟩
    let d : Analyzer.Config := ⟨none, some "term", true, .valid⟩
    let e := Term.abs "x" (.abs "x" (.app (.var "x") (.var "y")))
    let f := Term.abs "L" (.abs "b0" (.app (.var "b0") (.var "x")))
    Analyzer.source files c = .ok "λx.λx.x y" ∧ Analyzer.source files d = .ok "λL.λb0.b0 x" ∧
      parse "λx.λx.x y" = .ok e ∧ parse "λL.λb0.b0 x" = .ok f ∧
      ((∃ output, Analyzer.run files { c with command := .normalize } = .ok output ∧
          Analyzer.run files { d with command := .normalize } = .ok output) ↔
        Analyzer.run files { c with command := .equiv "λL.λb0.b0 x" } = .ok "true") := by
  intro files c d e f
  have hd : Analyzer.source files d = .ok "λL.λb0.b0 x" := by decide +kernel
  have he : parse "λx.λx.x y" = .ok e := by decide +kernel
  have hf : parse "λL.λb0.b0 x" = .ok f := by decide +kernel
  exact ⟨rfl, hd, he, hf, (print_normalize_faithful files).2.2 c d _ _ e f rfl hd he hf⟩

end LambdaCalculus
