import LambdaCalculus.Proofs.Commands
import LambdaCalculus.Proofs.FreeNames
import LambdaCalculus.Proofs.Position
import LambdaCalculus.Proofs.RoundTrip

namespace LambdaCalculus

namespace Text

def utf8 (text : String) : List UInt8 := text.toUTF8.data.toList

theorem utf8_eq (text : String) : utf8 text = text.toList.flatMap String.utf8EncodeChar := by
  conv_lhs => rw [← String.ofList_toList (s := text)]
  rw [utf8, String.toUTF8, String.toByteArray_ofList, List.utf8Encode, List.data_toByteArray]

/-- A smaller character comes first by its bytes, whatever follows the two. -/
theorem utf8EncodeChar_append_lt {c d : Char} (h : c < d) (s t : List UInt8) :
    String.utf8EncodeChar c ++ s < String.utf8EncodeChar d ++ t := by
  have hlt : c.val.toNat < d.val.toNat := h
  have hd : d.val.toNat < 0x110000 := by
    rcases d.valid with hlow | ⟨-, hhigh⟩
    · exact Nat.lt_trans hlow (by decide)
    · exact hhigh
  rw [String.utf8EncodeChar, String.utf8EncodeChar]
  generalize c.val.toNat = m at *
  generalize d.val.toNat = n at *
  -- The first byte tells how many there are. Where both have as many, they are compared as digits.
  split_ifs <;>
    simp (disch := omega) only [List.cons_append, List.nil_append, List.cons_lt_cons_iff,
      UInt8.lt_iff_toNat_lt, ← UInt8.toNat_inj, UInt8.toNat_ofNat', Nat.mod_eq_of_lt] <;>
    omega

theorem flatMap_utf8EncodeChar_lt {xs ys : List Char} (h : xs < ys) :
    xs.flatMap String.utf8EncodeChar < ys.flatMap String.utf8EncodeChar := by
  induction xs generalizing ys with
  | nil =>
    cases ys with
    | nil => exact absurd h (List.lt_irrefl [])
    | cons d ys =>
      have hpos := d.utf8Size_pos
      rw [← String.length_utf8EncodeChar] at hpos
      obtain ⟨b, bs, hb⟩ := List.exists_cons_of_length_pos hpos
      rw [List.flatMap_cons, hb]
      exact List.nil_lt_cons b _
  | cons c xs ih =>
    cases ys with
    | nil => exact absurd h (List.not_lt_nil _)
    | cons d ys =>
      rw [List.flatMap_cons, List.flatMap_cons]
      rcases List.cons_lt_cons_iff.1 h with hcd | ⟨rfl, hrest⟩
      · exact utf8EncodeChar_append_lt hcd _ _
      · exact List.append_left_lt (ih hrest)

theorem utf8_lt_iff {x y : String} : utf8 x < utf8 y ↔ x < y := by
  have hmono : ∀ {x y : String}, x < y → utf8 x < utf8 y := fun h => by
    rw [utf8_eq, utf8_eq]
    exact flatMap_utf8EncodeChar_lt (String.lt_iff.1 h)
  refine ⟨fun h => ?_, hmono⟩
  by_contra hxy
  by_cases hle : x ≤ y
  · obtain rfl := String.le_antisymm hle (String.not_lt.1 hxy)
    exact List.lt_irrefl _ h
  · exact List.lt_asymm h (hmono (String.not_le.1 hle))

end Text

namespace Analyzer

variable {names xs ys : List String}

theorem sortNames_perm (names : List String) : (sortNames names).Perm names :=
  List.mergeSort_perm names _

@[simp]
theorem mem_sortNames {x : String} : x ∈ sortNames names ↔ x ∈ names :=
  (sortNames_perm names).mem_iff

theorem pairwise_le_sortNames (names : List String) : (sortNames names).Pairwise (· ≤ ·) := by
  have htrans : ∀ x y z : String, decide (x ≤ y) = true → decide (y ≤ z) = true →
      decide (x ≤ z) = true := by
    simpa using fun x y z => String.le_trans
  have htotal : ∀ x y : String, (decide (x ≤ y) || decide (y ≤ x)) = true := by
    simpa using String.le_total
  exact (List.pairwise_mergeSort htrans htotal names).imp of_decide_eq_true

theorem pairwise_lt_sortNames (h : names.Nodup) : (sortNames names).Pairwise (· < ·) := by
  have hnodup : (sortNames names).Nodup := (sortNames_perm names).nodup_iff.2 h
  apply (pairwise_le_sortNames names).imp₂ _ hnodup
  intro x y hle hne
  apply String.not_le.1
  intro hge
  exact hne (String.le_antisymm hle hge)

theorem sortNames_congr (h : xs.Perm ys) : sortNames xs = sortNames ys := by
  have hperm : (sortNames xs).Perm (sortNames ys) :=
    (sortNames_perm xs).trans (h.trans (sortNames_perm ys).symm)
  exact hperm.eq_of_pairwise (fun _ _ _ _ => String.le_antisymm) (pairwise_le_sortNames xs)
    (pairwise_le_sortNames ys)

@[simp]
theorem sortNames_eq_nil_iff : sortNames names = [] ↔ names = [] := by
  rw [← List.length_eq_zero_iff, (sortNames_perm names).length_eq, List.length_eq_zero_iff]

/-- What stands between the spaces of a line. The empty line has no fields. -/
def fields (line : String) : List String :=
  if line = "" then [] else (line.split ' ').toList.map (·.copy)

theorem listNames_eq_empty_iff (h : ∀ x ∈ names, x ≠ "") : listNames names = "" ↔ names = [] := by
  rw [listNames, ← sortNames_eq_nil_iff]
  cases hsorted : sortNames names with
  | nil => simp
  | cons x xs =>
    have hx : x ≠ "" := h x (mem_sortNames.1 (hsorted ▸ List.mem_cons_self))
    cases xs <;> simp [hx]

theorem fields_listNames (h : ∀ x ∈ names, x ≠ "" ∧ ' ' ∉ x.toList) :
    fields (listNames names) = sortNames names := by
  have hline := listNames_eq_empty_iff fun x hx => (h x hx).1
  rw [← sortNames_eq_nil_iff] at hline
  have hsplit := String.toList_split_intercalate (c := ' ') (l := sortNames names)
    fun x hx => (h x (mem_sortNames.1 hx)).2
  by_cases hnames : sortNames names = []
  · rw [fields, if_pos (hline.2 hnames), hnames]
  · rw [if_neg hnames] at hsplit
    rw [fields, if_neg (mt hline.1 hnames)]
    exact hsplit

theorem ne_empty_and_notMem_of_isIdentifier {x : String} (h : IsIdentifier x.toList) :
    x ≠ "" ∧ ' ' ∉ x.toList := by
  obtain ⟨c, cs, hx, hc, hcs⟩ := h
  constructor
  · rintro rfl
    cases hx
  · rw [hx]
    intro hspace
    rcases List.mem_cons.1 hspace with rfl | hspace
    · exact absurd hc (by decide)
    · exact absurd (hcs _ hspace) (by decide)

/-- The free variables come out sorted by their bytes, in whatever order a set yields them, and the
line can be taken apart into them again. It is empty for the closed expressions alone. -/
theorem run_free {files : Files} {config : Config} {text : String} {e : Term}
    (hsource : config.Gives files text) (h : parse text = .ok e) :
    ∃ line, run files { config with command := .free } = .ok line ∧
      (∀ names : List String, names.Nodup → (∀ x, x ∈ names ↔ x ∈ e.freeVariables) →
        listNames names = line) ∧
      (fields line).Pairwise (fun x y => Text.utf8 x < Text.utf8 y) ∧
      (∀ x ∈ fields line, IsIdentifier x.toList) ∧
      (∀ x, x ∈ fields line ↔ ∃ q, e.OccursFreeAt q x) ∧
      (line = "" ↔ run files { config with command := .closed } = .ok "true") := by
  have hidentifier : ∀ x ∈ e.freeVariables, IsIdentifier x.toList := fun x hx =>
    isIdentifier_of_parse h x (Term.mem_names_iff.2 (.inl hx))
  have hseparate : ∀ x ∈ e.freeVariables, x ≠ "" ∧ ' ' ∉ x.toList := fun x hx =>
    ne_empty_and_notMem_of_isIdentifier (hidentifier x hx)
  have hnodup := e.nodup_freeVariables
  have hrun := run_of_source (source_eq_ok_iff.2 hsource)
  rw [hrun, hrun, execute_inspect_eq rfl, execute_inspect_eq rfl, parsed_of_parse h]
  refine ⟨listNames e.freeVariables, rfl, ?_, ?_, ?_, ?_, ?_⟩
  · intro names hnames hmem
    rw [listNames, listNames, sortNames_congr ((List.perm_ext_iff_of_nodup hnames hnodup).2 hmem)]
  · rw [fields_listNames hseparate]
    exact (pairwise_lt_sortNames hnodup).imp Text.utf8_lt_iff.2
  · rw [fields_listNames hseparate]
    exact fun x hx => hidentifier x (mem_sortNames.1 hx)
  · intro x
    rw [fields_listNames hseparate, mem_sortNames, Term.mem_freeVariables_iff]
  · rw [listNames_eq_empty_iff fun x hx => (hseparate x hx).1, ← Term.isClosed_iff,
      ← answer_eq_true]
    exact ⟨congrArg Except.ok, Except.ok.inj⟩

theorem run_free_applied :
    let files : Files := fun _ => .ok "(λx.x z) (λy.x z)".toUTF8
    let config : Config := ⟨none, some "term", false, .print⟩
    let e := Term.app (.abs "x" (.app (.var "x") (.var "z"))) (.abs "y" (.app (.var "x") (.var "z")))
    config.Gives files "(λx.x z) (λy.x z)" ∧ parse "(λx.x z) (λy.x z)" = .ok e ∧
    ∃ line, run files { config with command := .free } = .ok line ∧
      listNames ["z", "x"] = line ∧ listNames ["x", "z"] = line ∧
      (fields line).Pairwise (fun x y => Text.utf8 x < Text.utf8 y) ∧
      (∀ x ∈ fields line, IsIdentifier x.toList) ∧
      (∀ x, x ∈ fields line ↔ ∃ q, e.OccursFreeAt q x) ∧
      (line = "" ↔ run files { config with command := .closed } = .ok "true") := by
  intro files config e
  have hsource : config.Gives files "(λx.x z) (λy.x z)" := .inr ⟨rfl, "term", rfl, rfl⟩
  have h : parse "(λx.x z) (λy.x z)" = .ok e := by decide +kernel
  obtain ⟨line, hline, horder, hrest⟩ := run_free hsource h
  refine ⟨hsource, h, line, hline, horder _ (by decide) ?_, horder _ (by decide) ?_, hrest⟩
  · exact fun x => Iff.rfl
  · intro x
    rw [show e.freeVariables = ["z", "x"] from rfl]
    simp [or_comm]

end Analyzer

end LambdaCalculus
