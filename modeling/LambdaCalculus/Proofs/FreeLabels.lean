import LambdaCalculus.Proofs.NormalForm
import LambdaCalculus.Proofs.Position
import Mathlib.Order.Interval.Set.Defs
import Mathlib.Order.Monotone.Defs

namespace LambdaCalculus.Term

/-- Among the names are no labels from `m` on, and those from `n` on come up one after the other. -/
structure Introduces (n m : Nat) (xs : List String) : Prop where
  le : n ≤ m
  lt : ∀ k, freeName k ∈ xs → k < m
  mem : ∀ k, n ≤ k → k < m → freeName k ∈ xs
  ordered : ∀ j k, n ≤ j → j < k → k < m → xs.idxOf (freeName j) < xs.idxOf (freeName k)

namespace Introduces

variable {n m l : Nat} {xs ys : List String}

theorem bound (n k : Nat) : Introduces n n [boundName k] where
  le := Nat.le_refl n
  lt j hj := absurd (List.mem_singleton.1 hj).symm (boundName_ne_freeName k j)
  mem := by omega
  ordered := by omega

theorem known {k : Nat} (h : k < n) : Introduces n n [freeName k] where
  le := Nat.le_refl n
  lt j hj := by
    rw [freeName_inj.1 (List.mem_singleton.1 hj)]
    exact h
  mem := by omega
  ordered := by omega

theorem next (n : Nat) : Introduces n (n + 1) [freeName n] where
  le := Nat.le_succ n
  lt j hj := by
    rw [freeName_inj.1 (List.mem_singleton.1 hj)]
    exact Nat.lt_succ_self n
  mem k hn hk := by
    rw [Nat.le_antisymm (Nat.le_of_lt_succ hk) hn]
    exact List.mem_singleton_self _
  ordered := by omega

theorem append (hx : Introduces n m xs) (hy : Introduces m l ys) :
    Introduces n l (xs ++ ys) where
  le := Nat.le_trans hx.le hy.le
  lt k hk := by
    rcases List.mem_append.1 hk with hk | hk
    · exact Nat.lt_of_lt_of_le (hx.lt k hk) hy.le
    · exact hy.lt k hk
  mem k hn hl := by
    by_cases hm : k < m
    · exact List.mem_append_left ys (hx.mem k hn hm)
    · exact List.mem_append_right xs (hy.mem k (Nat.le_of_not_lt hm) hl)
  ordered j k hn hjk hl := by
    -- Both labels come up in `xs`, or both in `ys`, or the smaller one alone in `xs`.
    by_cases hk : k < m
    · have hj := Nat.lt_trans hjk hk
      rw [List.idxOf_append_of_mem (hx.mem j hn hj),
        List.idxOf_append_of_mem (hx.mem k (by omega) hk)]
      exact hx.ordered j k hn hjk hk
    · have hnot : freeName k ∉ xs := fun hmem => hk (hx.lt k hmem)
      rw [List.idxOf_append_of_notMem hnot]
      by_cases hj : j < m
      · have hmem := hx.mem j hn hj
        have hlt := List.idxOf_lt_length_of_mem hmem
        rw [List.idxOf_append_of_mem hmem]
        omega
      · have hjnot : freeName j ∉ xs := fun hmem => hj (hx.lt j hmem)
        have h := hy.ordered j k (by omega) hjk hl
        rw [List.idxOf_append_of_notMem hjnot]
        omega

end Introduces

/-- The labels that the traversal adds to the table are those that it introduces in the normal
form. -/
theorem introduces_normalizeIn (scope labels : List String) (e : Term) :
    Introduces labels.length (e.normalizeIn scope labels).2.length
      (e.normalizeIn scope labels).1.variableNames := by
  induction e generalizing scope labels with
  | var x =>
    cases hx : scope.idxOf? x with
    | some k =>
      simp only [normalizeIn, hx, variableNames]
      exact .bound _ k
    | none =>
      by_cases hl : x ∈ labels
      · simp only [normalizeIn, hx, variableNames, label, List.contains_eq_mem, hl, decide_true,
          if_true]
        exact .known (List.idxOf_lt_length_of_mem hl)
      · simp only [normalizeIn, hx, variableNames, label, List.contains_eq_mem, hl, decide_false,
          Bool.false_eq_true, if_false, List.idxOf_eq_length hl, List.length_append]
        exact .next _
  | abs p b ih => exact ih (p :: scope) labels
  | app f a hf ha => exact (hf scope labels).append (ha scope _)

theorem introduces_normalize (e : Term) :
    Introduces 0 e.freeVariables.length e.normalize.variableNames := by
  have htable : (e.normalizeIn [] []).2 = e.freeVariables := by
    rw [normalizeIn_eq, mergeNames_nil_left]
    exact freeNames_nameless e
  have h := introduces_normalizeIn [] [] e
  rwa [htable] at h

theorem freeName_mem_normalize_iff {e : Term} {n : Nat} :
    freeName n ∈ e.normalize.variableNames ↔ n < e.freeVariables.length :=
  ⟨(introduces_normalize e).lt n, (introduces_normalize e).mem n (Nat.zero_le n)⟩

theorem freeVariables_eq_nil_iff {e : Term} :
    e.freeVariables = [] ↔ ∀ n q, e.normalize.at? q ≠ some (var (freeName n)) := by
  constructor
  · intro h n q hq
    have hn := freeName_mem_normalize_iff.1 (mem_variableNames_iff.2 ⟨q, hq⟩)
    simp [h] at hn
  · intro h
    apply List.eq_nil_of_length_eq_zero
    apply Nat.eq_zero_of_not_pos
    intro hpos
    obtain ⟨q, hq⟩ := mem_variableNames_iff.1 (freeName_mem_normalize_iff.2 hpos)
    exact h 0 q hq

/-- The free variables are the names with an occurrence that is not bound above it, the scope of the
test for closed terms misses exactly these, and the normal form labels them from zero in the order in
which they first occur. -/
theorem freeVariables_agree (e : Term) :
    (∀ x, x ∈ e.freeVariables ↔ ∃ q, e.OccursFreeAt q x) ∧ e.freeVariables.Nodup ∧
      (e.isClosed = true ↔ e.freeVariables = []) ∧
      (e.isClosed = true ↔ ∀ n q, e.normalize.at? q ≠ some (var (freeName n))) ∧
      (∀ n, freeName n ∈ e.normalize.variableNames ↔ n < e.freeVariables.length) ∧
      StrictMonoOn (fun n => e.normalize.variableNames.idxOf (freeName n))
        (Set.Iio e.freeVariables.length) := by
  refine ⟨mem_freeVariables_iff e, nodup_freeVariables e, isClosed_iff e, ?_,
    fun n => freeName_mem_normalize_iff, ?_⟩
  · rw [isClosed_iff, freeVariables_eq_nil_iff]
  · intro j _ k hk hjk
    exact (introduces_normalize e).ordered j k (Nat.zero_le j) hjk hk

end LambdaCalculus.Term
