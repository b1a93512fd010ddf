import LambdaCalculus.Term
import LambdaCalculus.Token

namespace LambdaCalculus

/-- Tokens without their positions and without the end of the text. -/
abbrev Word := List (TokenKind × String)

def Word.ofTokens (ts : List Token) : Word :=
  (ts.filter (·.kind ≠ .endOfInput)).map fun t => (t.kind, t.text)

namespace Grammar

inductive Parameters : Word → List String → Prop where
  | last (x : String) : Parameters [(.identifier, x)] [x]
  | more (x : String) {w : Word} {xs : List String} :
      Parameters w xs → Parameters ((.identifier, x) :: w) (x :: xs)

mutual

/-- The ambiguous grammar: nothing says where the body of an abstraction ends. -/
inductive IsExpression : Word → Prop where
  | single {w : Word} : IsTerm w → IsExpression w
  | chain {v w : Word} : IsTerm v → IsExpression w → IsExpression (v ++ w)

inductive IsTerm : Word → Prop where
  | var (x : String) : IsTerm [(.identifier, x)]
  | abs {v w : Word} {params : List String} : Parameters v params → IsExpression w →
      IsTerm ((.lambda, "λ") :: v ++ (.dot, ".") :: w)
  | group {w : Word} : IsExpression w →
      IsTerm ((.openParen, "(") :: w ++ [(.closeParen, ")")])

end

mutual

/-- The grammar without ambiguity: an abstraction that is not grouped ends the chain it stands in. -/
inductive Expression : Word → Term → Prop where
  | chain {w : Word} {e : Term} : Chain w e → Expression w e
  | abs {w : Word} {e : Term} : Abstraction w e → Expression w e
  | chainAbs {v w : Word} {f a : Term} : Chain v f → Abstraction w a →
      Expression (v ++ w) (.app f a)

inductive Chain : Word → Term → Prop where
  | atom {w : Word} {e : Term} : Atom w e → Chain w e
  | app {v w : Word} {f a : Term} : Chain v f → Atom w a → Chain (v ++ w) (.app f a)

inductive Atom : Word → Term → Prop where
  | var (x : String) : Atom [(.identifier, x)] (.var x)
  | group {w : Word} {e : Term} : Expression w e →
      Atom ((.openParen, "(") :: w ++ [(.closeParen, ")")]) e

inductive Abstraction : Word → Term → Prop where
  | abs {v w : Word} {params : List String} {body : Term} : Parameters v params →
      Expression w body →
      Abstraction ((.lambda, "λ") :: v ++ (.dot, ".") :: w) (body.abstractAll params)

end

end Grammar

end LambdaCalculus
