import LambdaCalculus.Proofs.Derivation
import LambdaCalculus.Term.Print
import LambdaCalculus.Term.Variables

namespace LambdaCalculus

open Grammar

def Word.groupIf (needed : Bool) (w : Word) : Word :=
  if needed then (.openParen, "(") :: w ++ [(.closeParen, ")")] else w

namespace Term

def word : Term → Word
  | var x => [(.identifier, x)]
  | abs p b => (.lambda, "λ") :: (.identifier, p) :: (.dot, ".") :: b.word
  | app f a => f.word.groupIf f.isAbs ++ a.word.groupIf (!a.isVar)

theorem chain_groupIf {f : Term} (he : Expression f.word f)
    (hc : f.isAbs = false → Chain f.word f) : Chain (f.word.groupIf f.isAbs) f := by
  cases hf : f.isAbs with
  | true => exact .atom (.group he)
  | false => exact hc hf

theorem atom_groupIf {a : Term} (he : Expression a.word a) :
    Atom (a.word.groupIf (!a.isVar)) a := by
  cases a with
  | var x => exact .var x
  | abs p b => exact .group he
  | app f a => exact .group he

theorem derives_word (e : Term) :
    Expression e.word e ∧ (e.isAbs = false → Chain e.word e) := by
  induction e with
  | var x => exact ⟨.chain (.atom (.var x)), fun _ => .atom (.var x)⟩
  | abs p b ih => exact ⟨.abs (.abs (.last p) ih.1), fun h => absurd h (by simp [isAbs])⟩
  | app f a hf ha =>
    have h := Chain.app (chain_groupIf hf.1 hf.2) (atom_groupIf ha.1)
    exact ⟨.chain h, fun _ => h⟩

end Term

/-- From whatever byte it begins at, the text is made of the tokens of the word. -/
def SpellsWord (text : List Char) (w : Word) : Prop :=
  ∀ p, ∃ ts, Spells p text ts ∧ ts.map Token.symbol = w

namespace SpellsWord

theorem nil : SpellsWord [] [] := fun p => ⟨[], .nil p, rfl⟩

theorem lexeme {kind : TokenKind} {x : String} {text : List Char} {w : Word}
    (hx : Lexeme kind x.toList) (htext : kind = .identifier → EndsIdentifier text)
    (h : SpellsWord text w) : SpellsWord (x.toList ++ text) ((kind, x) :: w) := by
  intro p
  obtain ⟨ts, hts, rfl⟩ := h (p + byteLength x.toList)
  refine ⟨_, .lexeme hx htext hts, ?_⟩
  simp [Token.symbol]

theorem glyph {kind : TokenKind} {c : Char} {x : String} {text : List Char} {w : Word}
    (hc : Lexeme kind [c]) (hkind : kind ≠ .identifier) (hx : x.toList = [c])
    (h : SpellsWord text w) : SpellsWord (c :: text) ((kind, x) :: w) := by
  have hl := h.lexeme (hx.symm ▸ hc) fun hk => absurd hk hkind
  rwa [hx] at hl

theorem space {c : Char} {text : List Char} {w : Word} (hc : Text.isWhiteSpace c = true)
    (h : SpellsWord text w) : SpellsWord (c :: text) w := by
  intro p
  obtain ⟨ts, hts, hw⟩ := h (p + c.utf8Size)
  exact ⟨ts, .space hc hts, hw⟩

theorem append {text rest : List Char} {v w : Word} (h : SpellsWord text v)
    (hrest : EndsIdentifier rest) (hw : SpellsWord rest w) :
    SpellsWord (text ++ rest) (v ++ w) := by
  intro p
  obtain ⟨ts, hts, rfl⟩ := h p
  obtain ⟨us, hus, rfl⟩ := hw (p + byteLength text)
  exact ⟨ts ++ us, hts.append hrest hus, List.map_append⟩

theorem groupIf (needed : Bool) {text : String} {w : Word} (h : SpellsWord text.toList w) :
    SpellsWord (Term.groupIf needed text).toList (w.groupIf needed) := by
  cases needed with
  | false => exact h
  | true =>
    have hclose : SpellsWord [')'] [(.closeParen, ")")] :=
      nil.glyph .closeParen (by decide) rfl
    have hgroup : SpellsWord ('(' :: (text.toList ++ [')']))
        ((.openParen, "(") :: (w ++ [(.closeParen, ")")])) :=
      (h.append (.cons [] (by decide)) hclose).glyph .openParen (by decide) rfl
    simpa [Term.groupIf, Word.groupIf] using hgroup

theorem print {e : Term} (h : ∀ x ∈ e.names, IsIdentifier x.toList) :
    SpellsWord e.print.toList e.word := by
  induction e with
  | var x =>
    have hx := h x (by simp)
    simpa [Term.print, Term.word] using nil.lexeme (.identifier hx) fun _ => .nil
  | abs p b ih =>
    have hp := h p (by simp)
    have hb := ih fun x hx => h x (by simp [hx])
    have hdot : SpellsWord ('.' :: b.print.toList) ((.dot, ".") :: b.word) :=
      hb.glyph .dot (by decide) rfl
    have hparam := hdot.lexeme (.identifier hp) fun _ => .cons _ (by decide)
    simpa [Term.print, Term.word] using hparam.glyph .lambda (by decide) rfl
  | app f a ihf iha =>
    have hf := (ihf fun x hx => h x (by simp [hx])).groupIf f.isAbs
    have ha := (iha fun x hx => h x (by simp [hx])).groupIf (!a.isVar)
    have hspace : SpellsWord (' ' :: (Term.groupIf (!a.isVar) a.print).toList)
        (a.word.groupIf (!a.isVar)) := ha.space (by decide)
    have happ := hf.append (.cons _ (by decide)) hspace
    simpa [Term.print, Term.word] using happ

end SpellsWord

theorem parse_of_spellsWord {text : String} {w : Word} {e : Term}
    (h : SpellsWord text.toList w) (he : Expression w e) : parse text = .ok e := by
  obtain ⟨ts, hts, rfl⟩ := h 0
  have hstream := TokenStream.ofLexer_of_spells hts
  change TokenStream.ofText text = _ at hstream
  rw [parse_eq_ok, hstream]
  exact ⟨⟨_, rfl⟩, he⟩

namespace Term

@[simp]
theorem names_abstractAll (params : List String) (body : Term) :
    (body.abstractAll params).names = params ++ body.names := by
  induction params with
  | nil => rfl
  | cons p params ih => exact congrArg (p :: ·) ih

end Term

namespace Grammar

theorem Parameters.mem_word {w : Word} {params : List String} (h : Parameters w params) :
    ∀ x ∈ params, (.identifier, x) ∈ w := by
  induction h with
  | last x => simp
  | more x _ ih =>
    intro y hy
    rcases List.mem_cons.1 hy with rfl | hy
    · exact List.mem_cons_self
    · exact List.mem_cons_of_mem _ (ih y hy)

theorem mem_append_of_app {v w : Word} {f a : Term}
    (hf : ∀ x ∈ f.names, (.identifier, x) ∈ v) (ha : ∀ x ∈ a.names, (.identifier, x) ∈ w) :
    ∀ x ∈ (Term.app f a).names, (.identifier, x) ∈ v ++ w := by
  intro x hx
  rcases List.mem_append.1 hx with hx | hx
  · exact List.mem_append_left _ (hf x hx)
  · exact List.mem_append_right _ (ha x hx)

mutual

theorem Expression.mem_word {w : Word} {e : Term} (h : Expression w e) :
    ∀ x ∈ e.names, (.identifier, x) ∈ w := by
  match h with
  | .chain hc => exact hc.mem_word
  | .abs ha => exact ha.mem_word
  | .chainAbs hc ha => exact mem_append_of_app hc.mem_word ha.mem_word

theorem Chain.mem_word {w : Word} {f : Term} (h : Chain w f) :
    ∀ x ∈ f.names, (.identifier, x) ∈ w := by
  match h with
  | .atom ha => exact ha.mem_word
  | .app hc ha => exact mem_append_of_app hc.mem_word ha.mem_word

theorem Atom.mem_word {w : Word} {e : Term} (h : Atom w e) :
    ∀ x ∈ e.names, (.identifier, x) ∈ w := by
  match h with
  | .var x => simp
  | .group he =>
    intro x hx
    exact List.mem_append_left _ (List.mem_cons_of_mem _ (he.mem_word x hx))

theorem Abstraction.mem_word {w : Word} {e : Term} (h : Abstraction w e) :
    ∀ x ∈ e.names, (.identifier, x) ∈ w := by
  match h with
  | .abs hp he =>
    intro x hx
    rw [Term.names_abstractAll] at hx
    rcases List.mem_append.1 hx with hx | hx
    · exact List.mem_append_left _ (List.mem_cons_of_mem _ (hp.mem_word x hx))
    · exact List.mem_append_right _ (List.mem_cons_of_mem _ (he.mem_word x hx))

end

end Grammar

theorem isIdentifier_of_parse {text : String} {e : Term} (h : parse text = .ok e) :
    ∀ x ∈ e.names, IsIdentifier x.toList := by
  intro x hx
  obtain ⟨-, he⟩ := parse_eq_ok.1 h
  obtain ⟨t, ht, hsymbol⟩ := List.mem_map.1 (he.mem_word x hx)
  obtain ⟨hk, rfl⟩ := Token.symbol_eq.1 hsymbol
  have hl := TokenStream.lexical_ofText text t ht
  rw [hk] at hl
  cases hl
  assumption

theorem parse_print {e : Term} (h : ∀ x ∈ e.names, IsIdentifier x.toList) :
    parse e.print = .ok e :=
  parse_of_spellsWord (.print h) e.derives_word.1

/-- What is printed can be read back exactly when all names are identifiers, as they are in every
tree that was read from a text. -/
theorem parse_print_iff :
    (∀ e : Term, parse e.print = .ok e ↔ ∀ x ∈ e.names, IsIdentifier x.toList) ∧
      ∀ (text : String) (e : Term), parse text = .ok e →
        (∀ x ∈ e.names, IsIdentifier x.toList) ∧ parse e.print = .ok e :=
  ⟨fun _ => ⟨isIdentifier_of_parse, parse_print⟩,
    fun _ _ h => ⟨isIdentifier_of_parse h, parse_print (isIdentifier_of_parse h)⟩⟩

theorem parse_print_regrouped :
    parse "(λx y.x)(z)" = .ok (.app (.abs "x" (.abs "y" (.var "x"))) (.var "z")) ∧
      parse (Term.app (.abs "x" (.abs "y" (.var "x"))) (.var "z")).print =
        .ok (.app (.abs "x" (.abs "y" (.var "x"))) (.var "z")) := by
  have h : parse "(λx y.x)(z)" = .ok (.app (.abs "x" (.abs "y" (.var "x"))) (.var "z")) := by
    decide +kernel
  exact ⟨h, (parse_print_iff.2 _ _ h).2⟩

end LambdaCalculus
