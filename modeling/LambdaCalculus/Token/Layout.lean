import LambdaCalculus.Token.Cursor
import LambdaCalculus.Token.Lexeme
import Mathlib.Data.List.Chain

namespace LambdaCalculus

def Text.Blank (text : List Char) : Prop := ∀ c ∈ text, isWhiteSpace c = true

structure Piece where
  gap : List Char
  kind : TokenKind
  text : List Char
  blank : Text.Blank gap
  lexeme : Lexeme kind text

namespace Piece

def written (piece : Piece) : List Char := piece.gap ++ piece.text

def writeAll (pieces : List Piece) : List Char := pieces.flatMap written

def token (piece : Piece) (p : Nat) : Token :=
  ⟨piece.kind, String.ofList piece.text, p + byteLength piece.gap⟩

def tokensFrom (p : Nat) : List Piece → List Token
  | [] => []
  | piece :: pieces => piece.token p :: tokensFrom (p + byteLength piece.written) pieces

def Apart (piece next : Piece) : Prop :=
  piece.kind = .identifier → next.kind = .identifier → next.gap ≠ []

end Piece

/-- Lexemes with white space before, between and behind them. -/
structure Layout where
  pieces : List Piece
  trailing : List Char
  blank : Text.Blank trailing

namespace Layout

def text (l : Layout) : String := String.ofList (Piece.writeAll l.pieces ++ l.trailing)

def tokens (l : Layout) : List Token :=
  Piece.tokensFrom 0 l.pieces ++ [.atEnd l.text.utf8ByteSize]

def Separated (l : Layout) : Prop := l.pieces.IsChain Piece.Apart

end Layout

end LambdaCalculus
