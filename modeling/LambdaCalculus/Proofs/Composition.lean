import LambdaCalculus.Proofs.Layout
import LambdaCalculus.Proofs.RoundTrip

namespace LambdaCalculus

open Grammar

/-- One identifier or more, with white space around them and between any two of them. -/
structure ParameterLayout extends Layout where
  nonempty : pieces ≠ []
  identifiers : ∀ piece ∈ pieces, piece.kind = .identifier
  separated : toLayout.Separated

namespace ParameterLayout

def names (l : ParameterLayout) : List String :=
  l.pieces.map fun piece => String.ofList piece.text

def single (x : String) (hx : IsIdentifier x.toList) : ParameterLayout where
  pieces := [⟨[], .identifier, x.toList, by simp [Text.Blank], .identifier hx⟩]
  trailing := []
  blank := by simp [Text.Blank]
  nonempty := by simp
  identifiers := by simp
  separated := .singleton _

theorem isIdentifier_of_mem_names (l : ParameterLayout) :
    ∀ x ∈ l.names, IsIdentifier x.toList := by
  intro x hx
  obtain ⟨piece, hpiece, rfl⟩ := List.mem_map.1 hx
  have hl := piece.lexeme
  rw [l.identifiers piece hpiece] at hl
  rw [String.toList_ofList]
  cases hl
  assumption

end ParameterLayout

theorem Spells.spellsWord {p : Nat} {text : List Char} {ts : List Token} (h : Spells p text ts) :
    SpellsWord text (ts.map Token.symbol) := by
  induction h with
  | nil p => exact .nil
  | space hc _ ih => exact ih.space hc
  | @lexeme p kind text rest ts ht hr _ ih =>
    have hx : Lexeme kind (String.ofList text).toList := by rwa [String.toList_ofList]
    simpa [Token.symbol] using ih.lexeme hx hr

/-- The tree that a text is read as does not depend on where the text begins, so it is the same
wherever the text is put. -/
theorem parse_eq_ok_iff_spellsWord {text : String} {e : Term} :
    parse text = .ok e ↔ ∃ w, SpellsWord text.toList w ∧ Expression w e := by
  constructor
  · intro h
    obtain ⟨⟨position, hend⟩, he⟩ := parse_eq_ok.1 h
    exact ⟨_, ((Lexes.ofText text).spells hend).1.spellsWord, he⟩
  · rintro ⟨w, hw, he⟩
    exact parse_of_spellsWord hw he

theorem parameters_of_ne_nil {names : List String} (h : names ≠ []) :
    Parameters (names.map fun x => (.identifier, x)) names := by
  induction names with
  | nil => exact absurd rfl h
  | cons x names ih =>
    cases names with
    | nil => exact .last x
    | cons y names => exact .more x (ih (List.cons_ne_nil y names))

theorem Piece.map_symbol_tokensFrom (p : Nat) (pieces : List Piece)
    (h : ∀ piece ∈ pieces, piece.kind = .identifier) :
    (tokensFrom p pieces).map Token.symbol =
      pieces.map fun piece => (.identifier, String.ofList piece.text) := by
  induction pieces generalizing p with
  | nil => rfl
  | cons piece pieces ih =>
    have hpiece := h piece List.mem_cons_self
    have hpieces := ih (p + byteLength piece.written) fun q hq => h q (List.mem_cons_of_mem _ hq)
    rw [tokensFrom, List.map_cons, List.map_cons, hpieces, Token.symbol, token, hpiece]

theorem SpellsWord.parameters (l : ParameterLayout) :
    SpellsWord l.text.toList (l.names.map fun x => (.identifier, x)) := by
  intro p
  refine ⟨Piece.tokensFrom p l.pieces, ?_, ?_⟩
  · rw [Layout.text, String.toList_ofList]
    exact (Piece.spells_iff_isChain l.pieces l.blank).2 l.separated
  · rw [Piece.map_symbol_tokensFrom p l.pieces l.identifiers, ParameterLayout.names, List.map_map]
    rfl

theorem SpellsWord.group {text : String} {w : Word} (h : SpellsWord text.toList w) :
    SpellsWord ("(" ++ text ++ ")").toList ((.openParen, "(") :: w ++ [(.closeParen, ")")]) :=
  h.groupIf true

theorem endsIdentifier_group (text : String) : EndsIdentifier ("(" ++ text ++ ")").toList := by
  simp [EndsIdentifier]

/-- A group closes whatever stands in it, so it can be followed by another at once. -/
theorem exists_chain_of_groups {front : String} {v : Word} {f : Term}
    (hfront : SpellsWord front.toList v) (hf : Chain v f) (operands : List (String × Term))
    (h : ∀ a ∈ operands, parse a.1 = .ok a.2) :
    ∃ w, SpellsWord (front ++ String.join (operands.map fun a => "(" ++ a.1 ++ ")")).toList w ∧
      Chain w ((operands.map Prod.snd).foldl .app f) := by
  induction operands generalizing front v f with
  | nil => exact ⟨v, by simpa using hfront, hf⟩
  | cons a operands ih =>
    obtain ⟨w, hw, ha⟩ := parse_eq_ok_iff_spellsWord.1 (h a List.mem_cons_self)
    have hnext := hfront.append (endsIdentifier_group a.1) hw.group
    rw [← String.toList_append] at hnext
    obtain ⟨w', hw', hchain⟩ := ih hnext (.app hf (.group ha)) fun b hb =>
      h b (List.mem_cons_of_mem a hb)
    refine ⟨w', ?_, hchain⟩
    simpa [String.append_assoc] using hw'

theorem exists_abstraction_of_parameters (l : ParameterLayout) {text : String} {e : Term}
    (h : parse text = .ok e) :
    ∃ w, SpellsWord ("λ" ++ l.text ++ "." ++ text).toList w ∧
      Abstraction w (e.abstractAll l.names) := by
  obtain ⟨w, hw, he⟩ := parse_eq_ok_iff_spellsWord.1 h
  have hnames : l.names ≠ [] := by simpa [ParameterLayout.names] using l.nonempty
  have hdot : SpellsWord ('.' :: text.toList) ((.dot, ".") :: w) := hw.glyph .dot (by decide) rfl
  have hparams := (SpellsWord.parameters l).append (.cons _ (by decide)) hdot
  refine ⟨_, ?_, .abs (parameters_of_ne_nil hnames) he⟩
  simpa using hparams.glyph .lambda (by decide) rfl

theorem parse_abstraction (l : ParameterLayout) {text : String} {e : Term}
    (h : parse text = .ok e) :
    parse ("λ" ++ l.text ++ "." ++ text) = .ok (e.abstractAll l.names) := by
  obtain ⟨w, hw, he⟩ := exists_abstraction_of_parameters l h
  exact parse_of_spellsWord hw (.abs he)

theorem parse_nested_abstractions (names : List String)
    (hnames : ∀ x ∈ names, IsIdentifier x.toList) {text : String} {e : Term}
    (h : parse text = .ok e) :
    parse (String.join (names.map fun x => "λ" ++ x ++ ".") ++ text) =
      .ok (e.abstractAll names) := by
  induction names with
  | nil => simpa [Term.abstractAll] using h
  | cons x names ih =>
    have hx := hnames x List.mem_cons_self
    have hbody := ih fun y hy => hnames y (List.mem_cons_of_mem x hy)
    have habs := parse_abstraction (.single x hx) hbody
    simpa [ParameterLayout.single, ParameterLayout.names, Layout.text, Piece.writeAll,
      Piece.written, String.append_assoc, Term.abstractAll] using habs

/-- Texts are put together like trees: brackets add nothing, groups side by side are a chain, and a
text behind parameters is the body of their abstractions, whether or not each has a `λ` of its
own. -/
theorem parse_composed {text : String} {e : Term} (h : parse text = .ok e) :
    parse ("(" ++ text ++ ")") = .ok e ∧
    (∀ operands : List (String × Term), (∀ a ∈ operands, parse a.1 = .ok a.2) →
      parse ("(" ++ text ++ ")" ++ String.join (operands.map fun a => "(" ++ a.1 ++ ")")) =
        .ok ((operands.map Prod.snd).foldl .app e)) ∧
    (∀ l : ParameterLayout,
      parse ("λ" ++ l.text ++ "." ++ text) = .ok (e.abstractAll l.names) ∧
      parse (String.join (l.names.map fun x => "λ" ++ x ++ ".") ++ text) =
        .ok (e.abstractAll l.names)) ∧
    ∀ (l : ParameterLayout) (operand : String) (a : Term), parse operand = .ok a →
      parse ("(" ++ text ++ ")" ++ ("λ" ++ l.text ++ "." ++ operand)) =
        .ok (.app e (a.abstractAll l.names)) := by
  obtain ⟨w, hw, he⟩ := parse_eq_ok_iff_spellsWord.1 h
  have hgroup := Chain.atom (.group he)
  refine ⟨parse_of_spellsWord hw.group (.chain hgroup), ?_, ?_, ?_⟩
  · intro operands hoperands
    obtain ⟨v, hv, hchain⟩ := exists_chain_of_groups hw.group hgroup operands hoperands
    exact parse_of_spellsWord hv (.chain hchain)
  · intro l
    exact ⟨parse_abstraction l h,
      parse_nested_abstractions l.names l.isIdentifier_of_mem_names h⟩
  · intro l operand a ha
    obtain ⟨v, hv, habs⟩ := exists_abstraction_of_parameters l ha
    have hends : EndsIdentifier ("λ" ++ l.text ++ "." ++ operand).toList := by
      simp [EndsIdentifier]
    have hboth := hw.group.append hends hv
    rw [← String.toList_append] at hboth
    exact parse_of_spellsWord hboth (.chainAbs hgroup habs)

/-- The abstraction at the end of the text would take what stands behind it, if no bracket did. -/
theorem parse_composed_trailing_abstraction :
    parse "y λx.x" = .ok (.app (.var "y") (.abs "x" (.var "x"))) ∧
      parse "(y λx.x)" = .ok (.app (.var "y") (.abs "x" (.var "x"))) ∧
      parse "(y λx.x)( z )(λx.x)" = .ok (.app (.app (.app (.var "y") (.abs "x" (.var "x")))
        (.var "z")) (.abs "x" (.var "x"))) ∧
      parse "λ f\tx1 .y λx.x" =
        .ok (.abs "f" (.abs "x1" (.app (.var "y") (.abs "x" (.var "x"))))) ∧
      parse "λf.λx1.y λx.x" =
        .ok (.abs "f" (.abs "x1" (.app (.var "y") (.abs "x" (.var "x"))))) ∧
      parse "(y λx.x)λ f\tx1 . z " =
        .ok (.app (.app (.var "y") (.abs "x" (.var "x"))) (.abs "f" (.abs "x1" (.var "z")))) := by
  have htext : parse "y λx.x" = .ok (.app (.var "y") (.abs "x" (.var "x"))) := by decide +kernel
  have hz : parse " z " = .ok (.var "z") := by decide +kernel
  have hid : parse "λx.x" = .ok (.abs "x" (.var "x")) := by decide +kernel
  have hspace : Text.Blank [' '] := List.forall_mem_singleton.2 rfl
  have htab : Text.Blank ['\t'] := List.forall_mem_singleton.2 rfl
  let l : ParameterLayout :=
    { pieces := [⟨[' '], .identifier, ['f'], hspace, .identifier ⟨'f', [], rfl, rfl, by simp⟩⟩,
        ⟨['\t'], .identifier, ['x', '1'], htab,
          .identifier ⟨'x', ['1'], rfl, rfl, List.forall_mem_singleton.2 rfl⟩⟩]
      trailing := [' ']
      blank := hspace
      nonempty := by simp
      identifiers := by simp
      separated := by simp [Layout.Separated, Piece.Apart] }
  obtain ⟨hgroup, hoperands, hparams, happ⟩ := parse_composed htext
  refine ⟨htext, hgroup, hoperands [(" z ", .var "z"), ("λx.x", .abs "x" (.var "x"))] ?_,
    (hparams l).1, (hparams l).2, happ l " z " (.var "z") hz⟩
  simp [hz, hid]

end LambdaCalculus
