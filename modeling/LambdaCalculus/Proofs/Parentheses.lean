import LambdaCalculus.Proofs.ErrorPosition
import LambdaCalculus.Term.Position
import Mathlib.Order.Bounds.Defs

namespace LambdaCalculus

def Word.groups (w : Word) : Nat := w.countP (·.1 = .openParen)

namespace Word

theorem groups_cons (symbol : TokenKind × String) (w : Word) :
    groups (symbol :: w) = (decide (symbol.1 = .openParen)).toNat + w.groups := by
  rw [groups, List.countP_cons, Nat.add_comm]
  cases decide (symbol.1 = .openParen) <;> rfl

@[simp]
theorem groups_append (v w : Word) : (v ++ w).groups = v.groups + w.groups :=
  List.countP_append

@[simp]
theorem groups_groupIf (needed : Bool) (w : Word) :
    (w.groupIf needed).groups = w.groups + needed.toNat := by
  cases needed with
  | false => rfl
  | true => simp [groupIf, groups]

def Lexical (w : Word) : Prop := ∀ symbol ∈ w, Lexeme symbol.1 symbol.2.toList

namespace Lexical

variable {kind : TokenKind} {x : String} {v w : Word}

theorem nil : Lexical [] := List.forall_mem_nil _

theorem cons (hx : Lexeme kind x.toList) (hw : Lexical w) : Lexical ((kind, x) :: w) :=
  List.forall_mem_cons.2 ⟨hx, hw⟩

theorem append (hv : Lexical v) (hw : Lexical w) : Lexical (v ++ w) :=
  List.forall_mem_append.2 ⟨hv, hw⟩

theorem groupIf (hw : Lexical w) (needed : Bool) : Lexical (w.groupIf needed) := by
  cases needed with
  | false => exact hw
  | true => exact (hw.append (nil.cons (x := ")") .closeParen)).cons (x := "(") .openParen

end Lexical

end Word

namespace Term

/-- The chains that end in an abstraction and do not stand at the root. -/
def looseChainsBelow (e : Term) : Nat :=
  e.positions.countP fun p =>
    (e.at? p).any appliesToAbs ∧ p.getLast? ≠ some .operator ∧ p ≠ []

theorem getLast?_eq_operator {d : Direction} {p : Position} :
    (d :: p).getLast? = some .operator ↔
      p.getLast? = some .operator ∨ d = .operator ∧ p = [] := by
  cases p <;> simp [List.getLast?_cons_cons]

theorem looseChains_eq (e : Term) :
    e.looseChains = e.looseChainsBelow + e.appliesToAbs.toNat := by
  cases e with
  | var x => rfl
  | abs p b =>
    simp [looseChains, looseChainsBelow, positions, List.countP_map, Function.comp_def, appliesToAbs]
  | app f a =>
    cases h : (app f a).appliesToAbs <;>
      simp [looseChains, looseChainsBelow, positions, List.countP_map, Function.comp_def, h]

@[simp]
theorem looseChainsBelow_abs (p : String) (b : Term) :
    (abs p b).looseChainsBelow = b.looseChains := by
  simp [looseChains, looseChainsBelow, positions, List.countP_map, Function.comp_def, getLast?_eq_operator]

@[simp]
theorem looseChainsBelow_app (f a : Term) :
    (app f a).looseChainsBelow = f.looseChainsBelow + a.looseChains := by
  simp [looseChains, looseChainsBelow, positions, List.countP_map, Function.comp_def, getLast?_eq_operator]

@[simp]
theorem looseChains_abs (p : String) (b : Term) : (abs p b).looseChains = b.looseChains := by
  rw [looseChains_eq, looseChainsBelow_abs]
  rfl

@[simp]
theorem looseChains_app (f a : Term) : (app f a).looseChains =
    f.looseChainsBelow + a.looseChains + a.isAbs.toNat := by
  rw [looseChains_eq, looseChainsBelow_app]
  rfl

theorem isAbs_add_appliesToAbs_le (e : Term) :
    e.isAbs.toNat + e.appliesToAbs.toNat ≤ (!e.isVar).toNat := by
  cases e with
  | var x | abs p b => exact Nat.le_refl _
  | app f a => exact (Nat.zero_add _).trans_le (Bool.toNat_le _)

@[simp]
theorem groups_word_abs (p : String) (b : Term) : (abs p b).word.groups = b.word.groups := rfl

@[simp]
theorem groups_word_app (f a : Term) : (app f a).word.groups =
    f.word.groups + f.isAbs.toNat + (a.word.groups + (!a.isVar).toNat) := by
  rw [word, Word.groups_append, Word.groups_groupIf, Word.groups_groupIf]

@[simp]
theorem groups_word_abstractAll (params : List String) (body : Term) :
    (body.abstractAll params).word.groups = body.word.groups := by
  induction params with
  | nil => rfl
  | cons p params ih => exact ih

@[simp]
theorem looseChains_abstractAll (params : List String) (body : Term) :
    (body.abstractAll params).looseChains = body.looseChains := by
  induction params with
  | nil => rfl
  | cons p params ih => exact (looseChains_abs p _).trans ih

end Term

namespace Grammar

open Term

theorem Parameters.isAbs_abstractAll {v : Word} {params : List String} (h : Parameters v params)
    (body : Term) : (body.abstractAll params).isAbs = true := by
  cases h <;> rfl

-- A chain is counted as if an operand followed: if it ends in an abstraction, that is grouped.
mutual

theorem Expression.groups_word_le {w : Word} {e : Term} (h : Expression w e) :
    e.word.groups ≤ w.groups + e.looseChains := by
  match h with
  | .chain hc =>
    have hle := hc.groups_word_le
    rw [looseChains_eq]
    omega
  | .abs ha => exact ha.groups_word_le.2
  | .chainAbs (f := f) (a := a) hc ha =>
    have hf := hc.groups_word_le
    obtain ⟨habs, ha⟩ := ha.groups_word_le
    have hone := Bool.toNat_le (!a.isVar)
    rw [groups_word_app, looseChains_app, Word.groups_append, habs, Bool.toNat_true]
    omega

theorem Chain.groups_word_le {w : Word} {f : Term} (h : Chain w f) :
    f.word.groups + f.isAbs.toNat ≤ w.groups + f.looseChainsBelow := by
  match h with
  | .atom ha =>
    have hle := ha.groups_word_le
    have hkind := isAbs_add_appliesToAbs_le f
    rw [looseChains_eq] at hle
    omega
  | .app (f := f) (a := a) hc ha =>
    have hf := hc.groups_word_le
    have ha := ha.groups_word_le
    have hkind : (Term.app f a).isAbs.toNat = 0 := rfl
    rw [groups_word_app, looseChainsBelow_app, Word.groups_append, hkind]
    omega

theorem Atom.groups_word_le {w : Word} {e : Term} (h : Atom w e) :
    e.word.groups + (!e.isVar).toNat ≤ w.groups + e.looseChains := by
  match h with
  | .var x => exact Nat.le_refl _
  | .group (w := w) he =>
    have hle := he.groups_word_le
    have hone := Bool.toNat_le (!e.isVar)
    have hgroup := Word.groups_groupIf true w
    rw [Word.groupIf, if_pos rfl, Bool.toNat_true] at hgroup
    omega

theorem Abstraction.groups_word_le {w : Word} {e : Term} (h : Abstraction w e) :
    e.isAbs = true ∧ e.word.groups ≤ w.groups + e.looseChains := by
  match h with
  | .abs (w := w) hp he =>
    have hle := he.groups_word_le
    have hdot : Word.groups ((.dot, ".") :: w) = w.groups := rfl
    refine ⟨hp.isAbs_abstractAll _, ?_⟩
    rw [groups_word_abstractAll, looseChains_abstractAll, Word.groups_append, hdot]
    omega

end

end Grammar

namespace Term

/-- The tokens with no more groups than are needed: an abstraction is grouped as an operand only if
another operand follows. -/
def briefWord (followed : Bool) : Term → Word
  | var x => [(.identifier, x)]
  | abs p b => Word.groupIf followed
      ((.lambda, "λ") :: (.identifier, p) :: (.dot, ".") :: b.briefWord false)
  | app f a => f.briefWord true ++
      if a.isAbs then a.briefWord followed else (a.briefWord false).groupIf (!a.isVar)

open Grammar

theorem derives_briefWord (e : Term) :
    Expression (e.briefWord false) e ∧ Chain (e.briefWord true) e ∧
      (e.isAbs = true → Abstraction (e.briefWord false) e) := by
  induction e with
  | var x => exact ⟨.chain (.atom (.var x)), .atom (.var x), fun h => absurd h (by simp [isAbs])⟩
  | abs p b ih =>
    have h := Abstraction.abs (.last p) ih.1
    exact ⟨.abs h, .atom (.group (.abs h)), fun _ => h⟩
  | app f a hf ha =>
    obtain ⟨-, hchain, -⟩ := hf
    refine ⟨?_, ?_, fun h => absurd h (by simp [isAbs])⟩
    · cases a with
      | var x => exact .chain (.app hchain (.var x))
      | abs p b => exact .chainAbs hchain (ha.2.2 rfl)
      | app g c => exact .chain (.app hchain (.group ha.1))
    · cases a with
      | var x => exact .app hchain (.var x)
      | abs | app => exact .app hchain (.group ha.1)

theorem groups_briefWord (e : Term) :
    (e.briefWord false).groups + e.looseChains = e.word.groups ∧
      (e.briefWord true).groups + e.looseChainsBelow = e.word.groups + e.isAbs.toNat := by
  induction e with
  | var x => exact ⟨rfl, rfl⟩
  | abs p b ih =>
    have hbody : Word.groups ((.lambda, "λ") :: (.identifier, p) :: (.dot, ".") ::
      b.briefWord false) = (b.briefWord false).groups := rfl
    rw [briefWord, briefWord, Word.groups_groupIf, Word.groups_groupIf, hbody, looseChains_abs,
      looseChainsBelow_abs, groups_word_abs, isAbs, Bool.toNat_true, Bool.toNat_false]
    omega
  | app f a hf ha =>
    have hkind : (app f a).isAbs.toNat = 0 := rfl
    rw [briefWord, briefWord, Word.groups_append, Word.groups_append, looseChains_app,
      looseChainsBelow_app, groups_word_app, hkind]
    cases habs : a.isAbs with
    | false =>
      rw [if_neg (by decide), if_neg (by decide), Word.groups_groupIf, Bool.toNat_false]
      omega
    | true =>
      -- At the end of the chain the operand goes without the group that the printer writes.
      have hloose := looseChains_eq a
      have hkind := isAbs_add_appliesToAbs_le a
      have hone := Bool.toNat_le (!a.isVar)
      rw [habs, Bool.toNat_true] at ha hkind
      rw [if_pos rfl, if_pos rfl, Bool.toNat_true]
      omega

theorem lexical_briefWord {e : Term} (h : ∀ x ∈ e.names, IsIdentifier x.toList)
    (followed : Bool) : (e.briefWord followed).Lexical := by
  induction e generalizing followed with
  | var x => exact .cons (.identifier (h x List.mem_cons_self)) .nil
  | abs p b ih =>
    obtain ⟨hp, hb⟩ := List.forall_mem_cons.1 h
    have hparam := Word.Lexical.cons (.identifier hp) (.cons (x := ".") .dot (ih hb false))
    exact (Word.Lexical.cons (x := "λ") .lambda hparam).groupIf followed
  | app f a hf ha =>
    obtain ⟨hnf, hna⟩ := List.forall_mem_append.1 h
    refine (hf hnf true).append ?_
    split
    · exact ha hna followed
    · exact (ha hna false).groupIf _

end Term

theorem Lexeme.count_openParen {kind : TokenKind} {text : List Char} (h : Lexeme kind text) :
    text.count '(' = (decide (kind = .openParen)).toNat := by
  cases h with
  | identifier h =>
    obtain ⟨c, cs, rfl, hc, hcs⟩ := h
    rw [List.count_eq_zero.2]
    · rfl
    · intro hmem
      rcases List.mem_cons.1 hmem with rfl | hmem
      · exact absurd hc (by decide)
      · exact absurd (hcs _ hmem) (by decide)
  | lambda | dot | openParen | closeParen => rfl

/-- White space and the other lexemes hold no parenthesis that opens. -/
theorem Spells.count_openParen {p : Nat} {text : List Char} {ts : List Token}
    (h : Spells p text ts) : text.count '(' = Word.groups (ts.map Token.symbol) := by
  induction h with
  | nil p => rfl
  | @space p c rest ts hc _ ih =>
    have hne : c ≠ '(' := by
      rintro rfl
      exact absurd hc (by decide)
    rw [List.count_cons_of_ne hne, ih]
  | @lexeme p kind text rest ts hl _ _ ih =>
    rw [List.count_append, hl.count_openParen, ih, List.map_cons, Word.groups_cons]
    rfl

theorem SpellsWord.count_openParen {text : List Char} {w : Word} (h : SpellsWord text w) :
    text.count '(' = w.groups := by
  obtain ⟨ts, hts, rfl⟩ := h 0
  exact hts.count_openParen

namespace Term

variable {e : Term}

theorem count_print (h : ∀ x ∈ e.names, IsIdentifier x.toList) :
    e.print.toList.count '(' = e.word.groups :=
  (SpellsWord.print h).count_openParen

theorem count_print_le {text : String} (h : parse text = .ok e) :
    e.print.toList.count '(' ≤ text.toList.count '(' + e.looseChains := by
  obtain ⟨⟨position, hend⟩, he⟩ := parse_eq_ok.1 h
  obtain ⟨hspells, -⟩ := (Lexes.ofText text).spells hend
  rw [count_print (isIdentifier_of_parse h), hspells.count_openParen]
  exact he.groups_word_le

theorem exists_brief_text (h : ∀ x ∈ e.names, IsIdentifier x.toList) :
    ∃ text, parse text = .ok e ∧
      text.toList.count '(' + e.looseChains = e.print.toList.count '(' := by
  have hspells : SpellsWord (String.ofList (Word.spell (e.briefWord false))).toList
      (e.briefWord false) := by
    rw [String.toList_ofList]
    exact .spell (lexical_briefWord h false)
  refine ⟨_, parse_of_spellsWord hspells e.derives_briefWord.1, ?_⟩
  rw [hspells.count_openParen, count_print h]
  exact e.groups_briefWord.1

/-- The fewest parentheses with which a term can be written are those that the printer writes, less
one for each chain that ends in an abstraction. -/
theorem isLeast_count_openParen (h : ∀ x ∈ e.names, IsIdentifier x.toList) :
    e.looseChains ≤ e.print.toList.count '(' ∧
      IsLeast {n | ∃ text, parse text = .ok e ∧ text.toList.count '(' = n}
        (e.print.toList.count '(' - e.looseChains) ∧
      ((∀ text, parse text = .ok e → e.print.toList.count '(' ≤ text.toList.count '(') ↔
        e.looseChains = 0) := by
  obtain ⟨brief, hbrief, hcount⟩ := exists_brief_text h
  refine ⟨by omega, ⟨⟨brief, hbrief, by omega⟩, ?_⟩, ?_, ?_⟩
  · rintro n ⟨text, htext, rfl⟩
    have hle := count_print_le htext
    omega
  · intro hleast
    have hle := hleast brief hbrief
    omega
  · intro hzero text htext
    have hle := count_print_le htext
    omega

theorem isLeast_count_openParen_identities :
    let identity := abs "x" (var "x")
    let e := app (app identity identity) (abs "y" (app (var "y") identity))
    (∀ x ∈ e.names, IsIdentifier x.toList) ∧ e.looseChains = 2 ∧
      e.print = "(λx.x) (λx.x) (λy.y (λx.x))" ∧
      IsLeast {n | ∃ text, parse text = .ok e ∧ text.toList.count '(' = n}
        (e.print.toList.count '(' - e.looseChains) := by
  intro identity e
  have hparse : parse "(λx.x) (λx.x) λy.y λx.x" = .ok e := by decide +kernel
  have hnames : ∀ x ∈ e.names, IsIdentifier x.toList := isIdentifier_of_parse hparse
  exact ⟨hnames, by decide, by decide +kernel, (isLeast_count_openParen hnames).2.1⟩

end Term

end LambdaCalculus
