import LambdaCalculus.Token.Cursor

namespace LambdaCalculus

/-- The text between two bytes. There is none unless they are in order and each of them stands
between two characters. -/
def Text.slice? (text : String) (first last : Nat) : Option String :=
  if h : String.Pos.Raw.IsValid text ⟨first⟩ ∧ String.Pos.Raw.IsValid text ⟨last⟩ ∧
      first ≤ last then
    some (String.extract ⟨⟨first⟩, h.1⟩ ⟨⟨last⟩, h.2.1⟩)
  else none

/-- A scan that knows only the byte where it is, and cuts out of the text whatever it looks at. It
has an answer, and a byte where it stops, unless one of the cuts goes wrong. -/
def Cursor.scanAt? (text : String) (position : Nat) :
    Option (Except LexError Token × Nat) := do
  let ahead ← Text.slice? text position text.utf8ByteSize
  let start := position + byteLength (ahead.toList.takeWhile Text.isWhiteSpace)
  let rest ← Text.slice? text start text.utf8ByteSize
  match rest.toList with
  | [] => return (.ok (.atEnd start), start)
  | first :: _ =>
    match Token.Rule.longest Token.Rule.all rest.toList with
    | some (kind, lexeme) =>
      let found ← Text.slice? rest 0 (byteLength lexeme)
      return (.ok ⟨kind, found, start⟩, start + byteLength lexeme)
    | none => return (.error (.unrecognizedCharacter first start), start)

end LambdaCalculus
