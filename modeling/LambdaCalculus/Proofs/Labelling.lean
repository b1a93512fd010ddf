import LambdaCalculus.Proofs.NormalPositions
import LambdaCalculus.Term.LabelTable
import Mathlib.Data.List.FinRange

namespace LambdaCalculus

namespace LabelTable

variable {table : LabelTable} {labels : List String} {n : Nat}

theorem Lists.mem_iff (h : table.Lists labels) (x : String) : x ∈ table ↔ x ∈ labels := by
  rw [Std.HashMap.mem_iff_isSome_getElem?, Option.isSome_iff_exists]
  simp only [h.lookup, exists_and_left, exists_eq', and_true]

theorem Lists.getElem?_eq (h : table.Lists labels) {x : String} (hx : x ∈ labels) :
    table[x]? = some (labels.idxOf x) :=
  (h.lookup x _).2 ⟨hx, rfl⟩

theorem Lists.size_eq (h : table.Lists labels) : table.size = labels.length := by
  rw [← Std.HashMap.length_keys]
  refine ((List.perm_ext_iff_of_nodup ?_ h.nodup).2 fun x => ?_).length_eq
  · exact Std.HashMap.nodup_keys
  · rw [Std.HashMap.mem_keys, h.mem_iff]

theorem lists_empty : (∅ : LabelTable).Lists [] where
  nodup := List.nodup_nil
  lookup := by simp

theorem Lists.insertIfNew_of_mem (h : table.Lists labels) {x : String} (hx : x ∈ labels) (v : Nat) :
    Lists (table.insertIfNew x v) labels := by
  have htable : x ∈ table := (h.mem_iff x).2 hx
  refine ⟨h.nodup, fun y k => ?_⟩
  rw [Std.HashMap.getElem?_insertIfNew, if_neg fun hnew => hnew.2 htable, h.lookup]

theorem Lists.insertIfNew_of_notMem (h : table.Lists labels) {x : String} (hx : x ∉ labels) :
    Lists (table.insertIfNew x table.size) (labels ++ [x]) := by
  have htable : x ∉ table := fun hmem => hx ((h.mem_iff x).1 hmem)
  refine ⟨?_, fun y k => ?_⟩
  · rw [← List.concat_eq_append]
    exact h.nodup.concat hx
  · rw [Std.HashMap.getElem?_insertIfNew]
    by_cases hy : y = x
    · subst hy
      simp [htable, hx, h.size_eq, List.idxOf_append]
    · have hold : ¬ ((x == y) = true ∧ x ∉ table) := fun hnew => hy (eq_of_beq hnew.1).symm
      rw [if_neg hold, h.lookup, List.mem_append, List.mem_singleton, or_iff_left hy]
      refine and_congr_right fun hmem => ?_
      rw [List.idxOf_append_of_mem hmem]

theorem Lists.label (h : table.Lists labels) (x : String) :
    (table.label x).1 = labels.idxOf x ∧ (table.label x).2.Lists (Term.label labels x) := by
  by_cases hx : x ∈ labels
  · have hlist : Term.label labels x = labels := by simp [Term.label, hx]
    rw [LabelTable.label, hlist, Std.HashMap.getD_eq_getD_getElem?, h.getElem?_eq hx]
    exact ⟨rfl, h.insertIfNew_of_mem hx table.size⟩
  · have hlist : Term.label labels x = labels ++ [x] := by simp [Term.label, hx]
    have htable : x ∉ table := fun hmem => hx ((h.mem_iff x).1 hmem)
    rw [LabelTable.label, hlist, Std.HashMap.getD_eq_fallback htable, h.size_eq,
      List.idxOf_eq_length hx, ← h.size_eq]
    exact ⟨rfl, h.insertIfNew_of_notMem hx⟩

theorem Lists.numbered (h : table.Lists labels) : table.Numbered labels.length where
  inj x y k hx hy := by
    have hmem := (h.lookup x k).1 hx
    exact (List.idxOf_inj hmem.1).1 (hmem.2.trans ((h.lookup y k).1 hy).2.symm)
  range k := by
    constructor
    · rintro ⟨x, hx⟩
      obtain ⟨hmem, rfl⟩ := (h.lookup x k).1 hx
      exact List.idxOf_lt_length_of_mem hmem
    · intro hk
      exact ⟨labels[k], (h.lookup _ k).2 ⟨List.getElem_mem hk, h.nodup.idxOf_getElem k hk⟩⟩

theorem Numbered.exists_lists (h : table.Numbered n) :
    ∃ labels, table.Lists labels ∧ labels.length = n := by
  have hname : ∀ k : Fin n, ∃ x : String, table[x]? = some k.val := fun k => (h.range k).2 k.isLt
  choose name hname using hname
  have hinj : Function.Injective name := by
    intro j k he
    have hj := hname j
    rw [he, hname k, Option.some.injEq] at hj
    exact Fin.ext hj.symm
  have hnodup : (List.ofFn name).Nodup := List.nodup_ofFn.2 hinj
  have hindex : ∀ k : Fin n, (List.ofFn name).idxOf (name k) = k := by
    intro k
    have hget := hnodup.idxOf_getElem k (by simp)
    rwa [List.getElem_ofFn] at hget
  refine ⟨List.ofFn name, ⟨hnodup, fun x k => ⟨fun hx => ?_, ?_⟩⟩, List.length_ofFn⟩
  · have hk : k < n := (h.range k).1 ⟨x, hx⟩
    obtain rfl : name ⟨k, hk⟩ = x := h.inj _ _ k (hname ⟨k, hk⟩) hx
    exact ⟨List.mem_ofFn.2 ⟨_, rfl⟩, hindex ⟨k, hk⟩⟩
  · rintro ⟨hx, rfl⟩
    obtain ⟨j, rfl⟩ := List.mem_ofFn.1 hx
    rw [hindex]
    exact hname j

end LabelTable

namespace Term

theorem normalizeWith_lists {table : LabelTable} {labels : List String} (h : table.Lists labels)
    (scope : List String) (e : Term) :
    (e.normalizeWith scope table).1 = (e.normalizeIn scope labels).1 ∧
      (e.normalizeWith scope table).2.Lists (e.normalizeIn scope labels).2 := by
  induction e generalizing scope table labels with
  | var x =>
    cases hx : scope.idxOf? x with
    | some k =>
      simp only [normalizeWith, normalizeIn, hx, true_and]
      exact h
    | none =>
      obtain ⟨hlabel, hlists⟩ := h.label x
      simp only [normalizeWith, normalizeIn, hx, hlabel, true_and]
      exact hlists
  | abs p b ih =>
    obtain ⟨hterm, hlists⟩ := ih h (p :: scope)
    exact ⟨congrArg (abs normalParam) hterm, hlists⟩
  | app f a hf ha =>
    obtain ⟨hoperator, hafter⟩ := hf h scope
    obtain ⟨hoperand, hlists⟩ := ha hafter scope
    exact ⟨congrArg₂ app hoperator hoperand, hlists⟩

theorem normalizeWith_empty (e : Term) : (e.normalizeWith [] ∅).1 = e.normalize :=
  (normalizeWith_lists LabelTable.lists_empty [] e).1

theorem freeAtIn?_eq (scope : List String) (e : Term) (q : Position) :
    e.freeAtIn? scope q = (e.freeAt? q).filter fun x => !scope.contains x := by
  rw [freeAtIn?, freeAt?]
  rcases e.at? q with _ | x | ⟨p, b⟩ | ⟨f, a⟩
  case some.var =>
    have hmem : x ∈ e.paramsAbove scope q ↔ x ∈ e.paramsAbove [] q ∨ x ∈ scope := mem_paramsAbove
    by_cases habove : x ∈ e.paramsAbove [] q <;> by_cases hscope : x ∈ scope <;>
      simp [hmem, habove, hscope, Option.filter]
  all_goals rfl

theorem freeOccurrencesIn_eq (scope : List String) (e : Term) :
    e.freeOccurrencesIn scope = e.freeOccurrences.filter fun x => !scope.contains x := by
  rw [freeOccurrencesIn, funext (freeAtIn?_eq scope e), ← List.filter_filterMap, freeOccurrences]

theorem labels_normalizeIn (scope labels : List String) (e : Term) :
    (e.normalizeIn scope labels).2 = mergeNames labels (e.freeOccurrencesIn scope).eraseDups := by
  rw [normalizeIn_eq, freeNames_namelessIn, freeOccurrencesIn_eq, eraseDups_filter,
    eraseDups_freeOccurrences]

theorem mem_freeOccurrencesIn_iff {scope : List String} {e : Term} {x : String} :
    x ∈ e.freeOccurrencesIn scope ↔
      ∃ q, e.at? q = some (var x) ∧ x ∉ e.paramsAbove scope q := by
  rw [exists_at?_notMem_paramsAbove, freeOccurrencesIn_eq, List.mem_filter,
    ← eraseDups_freeOccurrences, List.mem_eraseDups]
  simp

theorem idxOf_mergeNames_lt_iff {xs ys : List String} {x y : String} (hx : x ∉ xs)
    (hy : y ∉ xs) :
    (mergeNames xs ys).idxOf x < (mergeNames xs ys).idxOf y ↔ ys.idxOf x < ys.idxOf y := by
  rw [mergeNames, List.idxOf_append_of_notMem hx, List.idxOf_append_of_notMem hy,
    Nat.add_lt_add_iff_left, idxOf_filter_lt_iff (by simpa using hx) (by simpa using hy)]

/-- The labels of a table stay what they are. The names that are added are those that are free
under the scope, and they are numbered behind the others in the order in which they first occur. -/
theorem normalizeWith_table {table : LabelTable} {n : Nat} (h : table.Numbered n)
    (scope : List String) (e : Term) :
    let after := (e.normalizeWith scope table).2
    (∃ labels, table.Lists labels ∧ after.Lists (e.normalizeIn scope labels).2 ∧
      (e.normalizeWith scope table).1 = (e.normalizeIn scope labels).1) ∧
      (∀ (x : String) (k : Nat), table[x]? = some k → after[x]? = some k) ∧
      (∃ m, n ≤ m ∧ after.Numbered m) ∧
      (∀ x, x ∈ after ↔
        x ∈ table ∨ ∃ q, e.at? q = some (var x) ∧ x ∉ e.paramsAbove scope q) ∧
      ∀ (x y : String) (j k : Nat), x ∉ table → y ∉ table → after[x]? = some j →
        after[y]? = some k →
        (j < k ↔ (e.freeOccurrencesIn scope).idxOf x < (e.freeOccurrencesIn scope).idxOf y) := by
  intro after
  obtain ⟨labels, hlists, rfl⟩ := h.exists_lists
  obtain ⟨hterm, hafter⟩ := normalizeWith_lists hlists scope e
  have hlabels := labels_normalizeIn scope labels e
  refine ⟨⟨labels, hlists, hafter, hterm⟩, ?_⟩
  rw [hlabels] at hafter
  refine ⟨fun x k hx => ?_, ⟨_, ?_, hafter.numbered⟩, fun x => ?_, ?_⟩
  · obtain ⟨hmem, rfl⟩ := (hlists.lookup x k).1 hx
    rw [hafter.getElem?_eq (mem_mergeNames.2 (.inl hmem)), idxOf_mergeNames hmem]
  · exact (List.prefix_append labels _).length_le
  · rw [hafter.mem_iff, mem_mergeNames, hlists.mem_iff, List.mem_eraseDups,
      mem_freeOccurrencesIn_iff]
  · intro x y j k hx hy hj hk
    rw [hlists.mem_iff] at hx hy
    rw [← ((hafter.lookup x j).1 hj).2, ← ((hafter.lookup y k).1 hk).2,
      idxOf_mergeNames_lt_iff hx hy, idxOf_eraseDups_lt_iff]

theorem normalizeWith_table_of_singleton :
    let table : LabelTable := (LabelTable.label ∅ "z").2
    let e := app (abs "x" (app (var "x") (app (var "y") (var "a")))) (app (var "z") (var "x"))
    let after := (e.normalizeWith ["y"] table).2
    table.Numbered 1 ∧ after["z"]? = some 0 ∧ "a" ∈ after ∧ "x" ∈ after ∧ "y" ∉ after ∧
      ∀ j k : Nat, after["a"]? = some j → after["x"]? = some k → j < k := by
  intro table e after
  have hlists : table.Lists ["z"] := (LabelTable.lists_empty.label "z").2
  have hnot : ∀ x : String, x ∉ ["z"] → x ∉ table := fun x hx hmem =>
    hx ((hlists.mem_iff x).1 hmem)
  obtain ⟨_, hstay, _, hmem, horder⟩ := normalizeWith_table hlists.numbered ["y"] e
  refine ⟨hlists.numbered, hstay "z" 0 ((hlists.lookup "z" 0).2 (by decide)), ?_, ?_, ?_, ?_⟩
  · exact (hmem "a").2 (.inr ⟨[.operator, .body, .operand, .operand], rfl, by decide⟩)
  · exact (hmem "x").2 (.inr ⟨[.operand, .operand], rfl, by decide⟩)
  · rw [hmem, ← mem_freeOccurrencesIn_iff]
    rintro (hy | hy)
    · exact hnot "y" (by decide) hy
    · exact absurd hy (by decide)
  · intro j k hj hk
    exact (horder "a" "x" j k (hnot "a" (by decide)) (hnot "x" (by decide)) hj hk).2 (by decide)

end Term

end LambdaCalculus
