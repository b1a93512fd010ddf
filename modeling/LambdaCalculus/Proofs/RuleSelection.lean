import LambdaCalculus.Proofs.Lossless
import Mathlib.Data.List.Pairwise
import Mathlib.Data.List.Perm.Basic

namespace LambdaCalculus

namespace Token.Rule

variable {input : List Char}

def Matches (rule : Rule) (input : List Char) : Prop := (rule.lexeme? input).isSome = true

instance (rule : Rule) (input : List Char) : Decidable (rule.Matches input) :=
  inferInstanceAs (Decidable (_ = true))

theorem not_matches_iff {rule : Rule} : ¬ rule.Matches input ↔ rule.lexeme? input = none := by
  rw [Matches, Bool.not_eq_true, Option.isSome_eq_false_iff, Option.isNone_iff_eq_none]

theorem matches_cons_iff {rule : Rule} {c : Char} {cs : List Char} :
    rule.Matches (c :: cs) ↔ rule.first c = true := by
  rw [Matches, lexeme?]
  cases rule.first c <;> simp

theorem pairwise_first_all (c : Char) :
    all.Pairwise fun rule other => rule.first c = true → other.first c = false := by
  have hglyph : c ∈ ['λ', '.', '(', ')'] → c.isAlpha = false := by
    simp only [List.mem_cons, List.not_mem_nil, or_false]
    rintro (rfl | rfl | rfl | rfl) <;> rfl
  simp only [all, single, List.pairwise_cons, List.forall_mem_cons, List.not_mem_nil,
    List.Pairwise.nil, beq_iff_eq, beq_eq_false_iff_ne, IsEmpty.forall_iff, implies_true, and_true]
  grind

theorem pairwise_matches_all (input : List Char) :
    all.Pairwise fun rule other => rule.Matches input → ¬ other.Matches input := by
  cases input with
  | nil => exact List.pairwise_of_forall fun _ _ => nofun
  | cons c cs =>
    refine (pairwise_first_all c).imp fun hdiffer hrule => ?_
    rw [matches_cons_iff] at hrule ⊢
    simp [hdiffer hrule]

theorem countP_matches_le_one {rules : List Rule}
    (h : rules.Pairwise fun rule other => rule.Matches input → ¬ other.Matches input) :
    rules.countP (·.Matches input) ≤ 1 := by
  induction h with
  | nil => exact Nat.zero_le 1
  | @cons rule rules hrule _ ih =>
    by_cases hm : rule.Matches input
    · have hnone : rules.countP (·.Matches input) = 0 :=
        List.countP_eq_zero.2 fun other hother => by simpa using hrule other hother hm
      rw [List.countP_cons_of_pos (by simpa using hm), hnone]
    · rwa [List.countP_cons_of_neg (by simpa using hm)]

/-- A rule that does not match changes nothing, so two rules of which only one matches can be
tried in either order. -/
theorem longer_comm {rule other : Rule} (h : rule.Matches input → ¬ other.Matches input)
    (best : Option (TokenKind × List Char)) :
    longer input (longer input best rule) other = longer input (longer input best other) rule := by
  have hskip : ∀ (r : Rule) best, ¬ r.Matches input → longer input best r = best := by
    intro r best hr
    simp only [longer, not_matches_iff.1 hr]
  by_cases hm : rule.Matches input
  · rw [hskip other _ (h hm), hskip other _ (h hm)]
  · rw [hskip rule _ hm, hskip rule _ hm]

theorem longest_perm {rules table : List Rule} (hperm : rules.Perm table)
    (h : table.Pairwise fun rule other => rule.Matches input → ¬ other.Matches input) :
    longest rules input = longest table input := by
  have hsymm : Std.Symm fun rule other : Rule => rule.Matches input → ¬ other.Matches input :=
    ⟨fun _ _ hdiffer hother hrule => hdiffer hrule hother⟩
  refine (hperm.symm.foldl_eq' ?_ none).symm
  intro rule hrule other hother best
  by_cases hsame : rule = other
  · rw [hsame]
  · exact longer_comm (h.forall hrule hother hsame) best

end Token.Rule

namespace Lexeme

variable {kind found : TokenKind} {text input lexeme : List Char}

theorem ne_nil (h : Lexeme kind text) : text ≠ [] := by
  obtain ⟨c, cs, rfl, -⟩ := h.isWhiteSpace_head
  exact List.cons_ne_nil c cs

theorem kind_unique (h : Lexeme kind text) (h' : Lexeme found text) : kind = found := by
  have hlongest : Token.Rule.longest Token.Rule.all (text ++ []) = some (kind, text) :=
    h.longest_append fun _ => .nil
  rw [h'.longest_append fun _ => .nil] at hlongest
  cases hlongest
  rfl

theorem isAlphanum_of_append {more : List Char} (h : Lexeme kind text)
    (h' : Lexeme found (text ++ more)) (hmore : more ≠ []) :
    kind = .identifier ∧ ∀ c ∈ more, c.isAlphanum = true := by
  generalize hwhole : text ++ more = whole at h'
  cases h' with
  | identifier ht =>
    obtain ⟨c, cs, rfl, hc, hcs⟩ := ht
    cases h with
    | identifier ht =>
      obtain ⟨d, ds, rfl, -⟩ := ht
      obtain ⟨rfl, rfl⟩ := List.cons.inj hwhole
      exact ⟨rfl, fun e he => hcs e (List.mem_append_right ds he)⟩
    | lambda | dot | openParen | closeParen =>
      obtain ⟨rfl, -⟩ := List.cons.inj hwhole
      exact absurd hc (by decide)
  | lambda | dot | openParen | closeParen =>
    obtain ⟨c, cs, rfl, -⟩ := h.isWhiteSpace_head
    obtain ⟨-, htail⟩ := List.cons.inj hwhole
    exact absurd (List.append_eq_nil_iff.1 htail).2 hmore

theorem prefix_of_longest
    (hlongest : Token.Rule.longest Token.Rule.all input = some (found, lexeme))
    (h : Lexeme kind text) (hinput : text <+: input) : text <+: lexeme := by
  obtain ⟨hlexeme, rest, rfl, hends⟩ := of_longest hlongest
  rcases List.prefix_or_prefix_of_prefix hinput (List.prefix_append lexeme rest) with
    hshort | ⟨more, rfl⟩
  · exact hshort
  · cases more with
    | nil => simp
    | cons c cs =>
      obtain ⟨hidentifier, hmore⟩ := hlexeme.isAlphanum_of_append h (List.cons_ne_nil c cs)
      obtain ⟨after, rfl⟩ := (List.prefix_append_right_inj lexeme).1 hinput
      have hstop := hends hidentifier c rfl
      rw [hmore c List.mem_cons_self] at hstop
      cases hstop

theorem longest_ne_none (h : Lexeme kind text) (hinput : text <+: input) :
    Token.Rule.longest Token.Rule.all input ≠ none := by
  obtain ⟨rest, rfl⟩ := hinput
  cases h with
  | identifier ht =>
    obtain ⟨c, cs, rfl, hc, -⟩ := ht
    rw [List.cons_append, Ne, Token.Rule.longest_all_eq_none_iff]
    simp [hc]
  | lambda | dot | openParen | closeParen =>
    rw [List.cons_append, Ne, Token.Rule.longest_all_eq_none_iff]
    simp

end Lexeme

theorem byteLength_le_of_prefix {text input : List Char} (h : text <+: input) :
    byteLength text ≤ byteLength input := by
  obtain ⟨rest, rfl⟩ := h
  rw [byteLength_append]
  exact Nat.le_add_right _ _

namespace Token.Rule

variable {input lexeme : List Char} {kind : TokenKind}

theorem longest_all_eq_some_iff : longest all input = some (kind, lexeme) ↔
    Lexeme kind lexeme ∧ lexeme <+: input ∧
      ∀ found text, Lexeme found text → text <+: input → byteLength text ≤ byteLength lexeme := by
  constructor
  · intro h
    obtain ⟨hlexeme, rest, rfl, -⟩ := Lexeme.of_longest h
    exact ⟨hlexeme, List.prefix_append _ _, fun found text htext hinput =>
      byteLength_le_of_prefix (htext.prefix_of_longest h hinput)⟩
  · rintro ⟨hlexeme, hinput, hgreatest⟩
    obtain ⟨⟨found, text⟩, h⟩ := Option.ne_none_iff_exists'.1 (hlexeme.longest_ne_none hinput)
    obtain ⟨htext, rest, hsplit, -⟩ := Lexeme.of_longest h
    obtain ⟨more, rfl⟩ := hlexeme.prefix_of_longest h hinput
    -- What is selected goes on behind `lexeme` by `more`, and the bound leaves no room for that.
    have hle := hgreatest found _ htext ⟨rest, hsplit.symm⟩
    rw [byteLength_append] at hle
    obtain rfl : more = [] := eq_nil_of_byteLength (by omega)
    rw [List.append_nil] at h htext
    rw [h, htext.kind_unique hlexeme]

theorem longest_all_eq_none_iff_forall : longest all input = none ↔
    ∀ text, text <+: input → text ≠ [] → ∀ found, ¬ Lexeme found text := by
  constructor
  · intro h text hinput _ found htext
    exact htext.longest_ne_none hinput h
  · intro h
    rw [Option.eq_none_iff_forall_ne_some]
    rintro ⟨found, text⟩ hlongest
    obtain ⟨htext, rest, rfl, -⟩ := Lexeme.of_longest hlongest
    exact h text (List.prefix_append _ _) htext.ne_nil found htext

/-- The order of the rules does not matter, because at most one of them matches. What is selected is
the longest lexeme, of whatever kind, that the input begins with, and nothing where it begins with
none. -/
theorem longest_all_selects (input : List Char) :
    all.countP (·.Matches input) ≤ 1 ∧
    (∀ rules : List Rule, rules.Perm all → longest rules input = longest all input) ∧
    (∀ kind lexeme, longest all input = some (kind, lexeme) ↔
      Lexeme kind lexeme ∧ lexeme <+: input ∧
        ∀ found text, Lexeme found text → text <+: input →
          byteLength text ≤ byteLength lexeme) ∧
    (longest all input = none ↔
      ∀ text, text <+: input → text ≠ [] → ∀ found, ¬ Lexeme found text) :=
  ⟨countP_matches_le_one (pairwise_matches_all input),
    fun _ hperm => longest_perm hperm (pairwise_matches_all input),
    fun _ _ => longest_all_eq_some_iff, longest_all_eq_none_iff_forall⟩

/-- An identifier of some length, with the rules tried from the last to the first. -/
theorem longest_all_selects_reversed :
    let input := "agenda21 x".toList
    all.reverse.Perm all ∧ longest all.reverse input = longest all input ∧
      longest all.reverse input = some (.identifier, "agenda21".toList) ∧
      ∀ found text, Lexeme found text → text <+: input → byteLength text ≤ 8 := by
  intro input
  have hperm : all.reverse.Perm all := List.reverse_perm all
  obtain ⟨-, horder, hlongest, -⟩ := longest_all_selects input
  have hselected : longest all input = some (.identifier, "agenda21".toList) := by decide +kernel
  exact ⟨hperm, horder _ hperm, (horder _ hperm).trans hselected,
    ((hlongest _ _).1 hselected).2.2⟩

end Token.Rule

end LambdaCalculus
