import Mathlib.Data.List.Basic
import Mathlib.Data.Set.Function

namespace LambdaCalculus

variable {α β : Type}

theorem append_eq_append_cons {front rest before after : List α} {a : α}
    (h : front ++ rest = before ++ a :: after) :
    (∃ m, before = front ++ m ∧ rest = m ++ a :: after) ∨ ∃ m, front = before ++ a :: m := by
  rcases List.append_eq_append_iff.1 h with ⟨m, hbefore, hrest⟩ | ⟨m, hfront, hm⟩
  · exact .inl ⟨m, hbefore, hrest⟩
  · cases m with
    | nil => exact .inl ⟨[], by simp [hfront], hm.symm⟩
    | cons b m =>
      obtain ⟨rfl, -⟩ := List.cons.inj hm
      exact .inr ⟨m, hfront⟩

theorem append_cons_inj_of_notMem {a b c d : List α} {x : α} (ha : x ∉ a) (hc : x ∉ c)
    (h : a ++ x :: b = c ++ x :: d) : a = c ∧ b = d := by
  rcases append_eq_append_cons h with ⟨m, rfl, hm⟩ | ⟨m, rfl⟩
  · cases m with
    | nil => simpa using hm
    | cons y m =>
      obtain ⟨rfl, -⟩ := List.cons.inj hm
      simp at hc
  · simp at ha

theorem map_inj_of_forall {f : α → β} {xs ys : List α}
    (hf : ∀ x ∈ xs, ∀ y ∈ ys, f x = f y → x = y) (h : xs.map f = ys.map f) : xs = ys := by
  induction xs generalizing ys with
  | nil => simpa [eq_comm] using h
  | cons x xs ih =>
    cases ys with
    | nil => simp at h
    | cons y ys =>
      obtain ⟨hxy, hrest⟩ := List.cons.inj h
      rw [hf x List.mem_cons_self y List.mem_cons_self hxy,
        ih (fun x hx y hy => hf x (List.mem_cons_of_mem _ hx) y (List.mem_cons_of_mem _ hy)) hrest]

/-- What is left of a list behind an element is looked at without the copies of the element. -/
@[elab_as_elim]
theorem eraseDups_induction [BEq α] {motive : List α → Prop} (nil : motive [])
    (cons : ∀ x xs, motive (xs.filter fun y => !y == x) → motive (x :: xs)) (xs : List α) :
    motive xs := by
  induction h : xs.length using Nat.strong_induction_on generalizing xs with
  | h n ih =>
    cases xs with
    | nil => exact nil
    | cons x xs =>
      have hlt : (xs.filter fun y => !y == x).length < n :=
        h ▸ Nat.lt_succ_of_le (List.length_filter_le _ xs)
      exact cons x xs (ih _ hlt _ rfl)

variable [BEq α] [LawfulBEq α] {x y : α}

theorem idxOf?_append_cons_self {xs : List α} (h : x ∉ xs) (ys : List α) :
    (xs ++ x :: ys).idxOf? x = some xs.length := by
  rw [List.idxOf?_eq_some_iff]
  refine ⟨by simp, by simp, fun j hj he => ?_⟩
  rw [List.getElem_append_left hj] at he
  exact h (he ▸ List.getElem_mem hj)

theorem idxOf_map_of_injOn [BEq β] [LawfulBEq β] {φ : α → β} {xs : List α}
    (hφ : Set.InjOn φ {x | x ∈ xs}) (hx : x ∈ xs) : (xs.map φ).idxOf (φ x) = xs.idxOf x := by
  induction xs with
  | nil => simp at hx
  | cons y ys ih =>
    by_cases he : y = x
    · simp [he]
    · have hne : φ y ≠ φ x := fun h => he (hφ List.mem_cons_self hx h)
      have hmem : x ∈ ys := (List.mem_cons.1 hx).resolve_left (Ne.symm he)
      have ht := ih (hφ.mono fun z hz => List.mem_cons_of_mem y hz) hmem
      simp [List.idxOf_cons_ne, he, hne, ht]

theorem idxOf_filter_lt_iff {p : α → Bool} (hx : p x = true) (hy : p y = true) (xs : List α) :
    (xs.filter p).idxOf x < (xs.filter p).idxOf y ↔ xs.idxOf x < xs.idxOf y := by
  induction xs with
  | nil => rfl
  | cons z xs ih =>
    by_cases hzy : z = y
    · subst hzy
      simp [hy]
    · by_cases hzx : z = x
      · subst hzx
        simp [hx, hzy]
      · cases hz : p z <;> simp [hz, hzx, hzy, ih]

theorem eraseDups_filter (p : α → Bool) (xs : List α) :
    (xs.filter p).eraseDups = xs.eraseDups.filter p := by
  induction xs using eraseDups_induction with
  | nil => rfl
  | cons x xs ih =>
    rw [List.eraseDups_cons, List.filter_cons, List.filter_cons, ← ih, List.filter_filter]
    cases hp : p x with
    | true =>
      rw [if_pos rfl, if_pos rfl, List.eraseDups_cons, List.filter_filter]
      simp only [Bool.and_comm]
    | false =>
      -- What `p` keeps is other than `x`.
      have hne : ∀ y ∈ xs, p y = (p y && !y == x) := by
        intro y _
        by_cases hy : y = x <;> simp [hy, hp]
      rw [if_neg Bool.false_ne_true, if_neg Bool.false_ne_true, List.filter_congr hne]

theorem idxOf_eraseDups_lt_iff (x y : α) (xs : List α) :
    xs.eraseDups.idxOf x < xs.eraseDups.idxOf y ↔ xs.idxOf x < xs.idxOf y := by
  induction xs using eraseDups_induction with
  | nil => rfl
  | cons z xs ih =>
    rw [List.eraseDups_cons]
    by_cases hzy : z = y
    · subst hzy
      simp
    · by_cases hzx : z = x
      · subst hzx
        simp [hzy]
      · rw [idxOf_filter_lt_iff (by simp [Ne.symm hzx]) (by simp [Ne.symm hzy])] at ih
        simpa [hzx, hzy] using ih

end LambdaCalculus
