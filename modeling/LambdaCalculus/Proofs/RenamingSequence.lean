import LambdaCalculus.Proofs.RenamingPositions

namespace LambdaCalculus.Term

variable {a b c d x : String}

theorem binds_renameOutermost_iff {e : Term} :
    (e.renameOutermost a b).binds x = true ↔ ∃ q p d, e.at? q = some (abs p d) ∧
      (if p = a ∧ a ∉ e.paramsAbove [] q then b else p) = x := by
  simp only [binds_iff_exists_at?, exists_at?_renameOutermost_abs]

theorem binds_renameOutermost_of_ne (e : Term) (ha : x ≠ a) (hb : x ≠ b) :
    (e.renameOutermost a b).binds x = e.binds x := by
  rw [Bool.eq_iff_iff, binds_renameOutermost_iff, binds_iff_exists_at?]
  constructor
  · rintro ⟨q, p, d, hq, hp⟩
    split at hp
    · exact absurd hp.symm hb
    · exact ⟨q, d, hp ▸ hq⟩
  · rintro ⟨q, d, hq⟩
    exact ⟨q, x, d, hq, if_neg fun h => ha h.1⟩

/-- The old name stays a parameter where it is one below itself. -/
theorem binds_renameOutermost_old_iff (e : Term) (hab : a ≠ b) :
    (e.renameOutermost a b).binds a = true ↔
      ∃ q d, e.at? q = some (abs a d) ∧ a ∈ e.paramsAbove [] q := by
  rw [binds_renameOutermost_iff]
  constructor
  · rintro ⟨q, p, d, hq, hp⟩
    split at hp
    · exact absurd hp.symm hab
    · rename_i hn
      subst hp
      exact ⟨q, d, hq, by simpa using hn⟩
  · rintro ⟨q, d, hq, ha⟩
    exact ⟨q, a, d, hq, if_neg fun h => h.2 ha⟩

@[simp]
theorem renameBelow_self (n : Nat) (e : Term) : e.renameBelow a a n = e := by
  induction e generalizing n with
  | var x =>
    rw [renameBelow_var]
    by_cases hx : x = a <;> simp [hx]
  | abs p b ih =>
    rw [renameBelow_abs, ih]
    by_cases hp : p = a <;> simp [hp]
  | app f g hf hg => rw [renameBelow_app, hf, hg]

/-- All that has the name `b` after the first renaming has got it there, and of the abstractions over
`a` on a way down only the outermost has. -/
theorem renameBelow_fresh_trans (n : Nat) {e : Term} (h : b ∉ e.names) :
    (e.renameBelow a b n).renameBelow b c (min n 1) = e.renameBelow a c n := by
  induction e generalizing n with
  | var x =>
    have hx : x ≠ b := fun hx => h (by simp [hx])
    simp only [renameBelow_var]
    by_cases hc : x = a ∧ n ≤ 1 <;> simp [hc, hx]
  | abs p t ih =>
    have hp : p ≠ b := fun hp => h (by simp [hp])
    have ht : b ∉ t.names := fun ht => h (List.mem_cons_of_mem p ht)
    simp only [renameBelow_abs]
    by_cases ha : p = a
    · -- The outermost one gets the name `b`. Those below it keep `a`, and pass no second `b` on.
      cases n with
      | zero => simpa [ha] using ih 1 ht
      | succ n => simpa [ha, ha ▸ hp] using ih (n + 2) ht
    · simpa [ha, hp] using ih n ht
  | app f g hf hg =>
    simp only [names, List.mem_append, not_or] at h
    simp only [renameBelow_app, hf n h.1, hg n h.2]

/-- Neither renaming makes or takes away a name that the other one looks for. -/
theorem renameBelow_comm (n m : Nat) (e : Term) (hac : a ≠ c) (had : a ≠ d) (hbc : b ≠ c) :
    (e.renameBelow a b n).renameBelow c d m = (e.renameBelow c d m).renameBelow a b n := by
  induction e generalizing n m with
  | var x =>
    simp only [renameBelow_var]
    by_cases ha : x = a
    · by_cases hn : n ≤ 1 <;> simp [ha, hn, hac, hbc]
    · by_cases hc : x = c
      · by_cases hm : m ≤ 1 <;> simp [hc, hm, hac.symm, had.symm]
      · simp [ha, hc]
  | abs p t ih =>
    simp only [renameBelow_abs]
    by_cases ha : p = a
    · by_cases hn : n = 0 <;> simp [ha, hn, hac, hbc, ih]
    · by_cases hc : p = c
      · by_cases hm : m = 0 <;> simp [hc, hm, hac.symm, had.symm, ih]
      · simp [ha, hc, ih]
  | app f g hf hg => simp only [renameBelow_app, hf n m, hg n m]

/-- A name that the term does not have can stand between an old name and a third one. The way back
is refused exactly when some abstraction has kept the old name below another one. -/
theorem rename_through_fresh {e : Term} (hab : a ≠ b) (hb : b ∉ e.names) :
    ∃ r, e.rename a b = .ok r ∧
      (∀ c, c ≠ a → c ≠ b →
        (r.rename b c = .error (.capture b c) ∧ e.rename a c = .error (.capture a c)) ∨
          ∃ s, r.rename b c = .ok s ∧ e.rename a c = .ok s) ∧
      ((∃ s, r.rename b a = .ok s) ↔
        ∀ q d, e.at? q = some (abs a d) → a ∉ e.paramsAbove [] q) ∧
      ∀ s, r.rename b a = .ok s → s = e := by
  have hbinds : e.binds b = false := by
    rw [← Bool.not_eq_true]
    exact fun h => hb (mem_names_iff.2 (.inr h))
  have htrans : ∀ c, (e.renameOutermost a b).renameOutermost b c = e.renameOutermost a c :=
    fun c => renameBelow_fresh_trans 0 hb
  refine ⟨e.renameOutermost a b, rename_eq_ok.2 ⟨hbinds, rfl⟩, fun c ha hc => ?_, ?_, ?_⟩
  · have hsame := binds_renameOutermost_of_ne e ha hc
    cases h : e.binds c with
    | true => exact .inl ⟨rename_eq_error.2 ⟨hsame.trans h, rfl⟩, rename_eq_error.2 ⟨h, rfl⟩⟩
    | false =>
      exact .inr ⟨_, rename_eq_ok.2 ⟨hsame.trans h, htrans c⟩, rename_eq_ok.2 ⟨h, rfl⟩⟩
  · rw [exists_rename_eq_ok_iff, ← Bool.not_eq_true, binds_renameOutermost_old_iff e hab]
    simp only [not_exists, not_and]
  · intro s h
    obtain ⟨-, rfl⟩ := rename_eq_ok.1 h
    rw [htrans a]
    exact renameBelow_self 0 e

theorem rename_through_fresh_shadowed :
    let e := app (abs "x" (app (var "x") (abs "x" (var "x")))) (abs "z" (var "x"))
    "x" ≠ "y" ∧ "y" ∉ e.names ∧ ∃ r, e.rename "x" "y" = .ok r ∧
      (∃ s, r.rename "y" "w" = .ok s ∧ e.rename "x" "w" = .ok s) ∧
      (r.rename "y" "z" = .error (.capture "y" "z") ∧
        e.rename "x" "z" = .error (.capture "x" "z")) ∧
      ¬ ∃ s, r.rename "y" "x" = .ok s := by
  intro e
  have hab : "x" ≠ "y" := by decide
  have hb : "y" ∉ e.names := by decide
  obtain ⟨r, hr, hthird, hback, -⟩ := rename_through_fresh hab hb
  refine ⟨hab, hb, r, hr, (hthird "w" (by decide) (by decide)).resolve_left ?_,
    (hthird "z" (by decide) (by decide)).resolve_right ?_, ?_⟩
  · exact fun h => absurd (rename_eq_error.1 h.2).1 (by decide)
  · rintro ⟨s, -, hs⟩
    exact absurd (rename_eq_ok.1 hs).1 (by decide)
  · rw [hback]
    exact fun h => h [.operator, .body, .operand] (var "x") rfl (by decide)

/-- What the second renaming is refused for can be seen before the first one. -/
theorem rename_bind_rename (e : Term) (hda : d ≠ a) (hdb : d ≠ b) :
    (e.rename a b >>= fun r => r.rename c d) =
      if e.binds b = true then .error (.capture a b)
      else if e.binds d = true then .error (.capture c d)
      else .ok ((e.renameOutermost a b).renameOutermost c d) := by
  have hd := binds_renameOutermost_of_ne e hda hdb
  cases hb : e.binds b with
  | true =>
    rw [rename_eq_error.2 ⟨hb, rfl⟩]
    rfl
  | false =>
    rw [rename_eq_ok.2 ⟨hb, rfl⟩]
    change (e.renameOutermost a b).rename c d = _
    cases h : e.binds d with
    | true => exact rename_eq_error.2 ⟨hd.trans h, rfl⟩
    | false => exact rename_eq_ok.2 ⟨hd.trans h, rfl⟩

/-- Two renamings without a common name can be done in either order. If one of them is refused, then
so are both orders, and each reports the first of its renamings that is refused. -/
theorem rename_comm (e : Term) (hac : a ≠ c) (had : a ≠ d) (hbc : b ≠ c) (hbd : b ≠ d) :
    ((e.binds b = true ∨ e.binds d = true) ∧
      (e.rename a b >>= fun r => r.rename c d) =
        .error (if e.binds b = true then .capture a b else .capture c d) ∧
      (e.rename c d >>= fun r => r.rename a b) =
        .error (if e.binds d = true then .capture c d else .capture a b)) ∨
    ((e.binds b = false ∧ e.binds d = false) ∧
      ∃ s, (e.rename a b >>= fun r => r.rename c d) = .ok s ∧
        (e.rename c d >>= fun r => r.rename a b) = .ok s) := by
  have htrees : (e.renameOutermost a b).renameOutermost c d =
      (e.renameOutermost c d).renameOutermost a b := renameBelow_comm 0 0 e hac had hbc
  rw [rename_bind_rename e had.symm hbd.symm, rename_bind_rename e hbc hbd, ← htrees]
  cases hb : e.binds b <;> cases hd : e.binds d <;> simp

theorem rename_comm_nested :
    let e := app (abs "x" (abs "y" (app (var "x") (abs "x" (app (var "y") (var "x")))))) (var "y")
    "x" ≠ "y" ∧ "x" ≠ "v" ∧ "u" ≠ "y" ∧ "u" ≠ "v" ∧
      ∃ s, (e.rename "x" "u" >>= fun r => r.rename "y" "v") = .ok s ∧
        (e.rename "y" "v" >>= fun r => r.rename "x" "u") = .ok s := by
  intro e
  have h := rename_comm e (a := "x") (b := "u") (c := "y") (d := "v") (by decide) (by decide)
    (by decide) (by decide)
  exact ⟨by decide, by decide, by decide, by decide,
    (h.resolve_left fun h => absurd h.1 (by decide)).2⟩

end LambdaCalculus.Term
