import LambdaCalculus.Text.Quoted
import LambdaCalculus.Text.WhiteSpace
import LambdaCalculus.Token.Rule

namespace LambdaCalculus

inductive LexError where
  | unrecognizedCharacter (character : Char) (position : Nat)
  deriving DecidableEq, Repr

def LexError.message : LexError → String
  | unrecognizedCharacter c position =>
    let quoted := Text.Quoted.quote '\'' [c]
    s!"Unrecognized character {quoted} at position {position}"

def byteLength (text : List Char) : Nat := text.foldr (fun c n => c.utf8Size + n) 0

@[simp]
theorem byteLength_cons (c : Char) (text : List Char) :
    byteLength (c :: text) = c.utf8Size + byteLength text := rfl

@[simp]
theorem byteLength_append (s t : List Char) :
    byteLength (s ++ t) = byteLength s + byteLength t := by
  induction s with
  | nil => simp [byteLength]
  | cons c s ih => rw [List.cons_append, byteLength_cons, byteLength_cons, ih, Nat.add_assoc]

@[simp]
theorem byteLength_ofList (text : List Char) :
    (String.ofList text).utf8ByteSize = byteLength text := by
  induction text with
  | nil => rfl
  | cons c text ih =>
    have hsplit : String.ofList (c :: text) = String.singleton c ++ String.ofList text := by
      rw [String.singleton_eq_ofList, ← String.ofList_append]
      rfl
    rw [hsplit, String.utf8ByteSize_append, ih, String.utf8ByteSize_singleton, byteLength_cons]

@[simp]
theorem byteLength_toList (text : String) : byteLength text.toList = text.utf8ByteSize := by
  rw [← byteLength_ofList, String.ofList_toList]

structure Cursor where
  position : Nat
  rest : List Char
  deriving DecidableEq, Repr

namespace Cursor

def ofText (text : String) : Cursor := ⟨0, text.toList⟩

def advance (c : Cursor) (count : Nat) : Cursor :=
  ⟨c.position + byteLength (c.rest.take count), c.rest.drop count⟩

def skipSpace (c : Cursor) : Cursor :=
  c.advance (c.rest.takeWhile Text.isWhiteSpace).length

/-- The next token, and the cursor behind it. In front of a character that begins no lexeme the
cursor stays, behind the white space. -/
def scan (c : Cursor) : Except LexError Token × Cursor :=
  let c := c.skipSpace
  match c.rest with
  | [] => (.ok (.atEnd c.position), c)
  | first :: _ =>
    match Token.Rule.longest Token.Rule.all c.rest with
    | some (kind, lexeme) =>
      (.ok ⟨kind, String.ofList lexeme, c.position⟩, c.advance lexeme.length)
    | none => (.error (.unrecognizedCharacter first c.position), c)

@[simp]
theorem length_rest_advance (c : Cursor) (count : Nat) :
    (c.advance count).rest.length = c.rest.length - count :=
  List.length_drop

theorem length_rest_skipSpace_le (c : Cursor) :
    c.skipSpace.rest.length ≤ c.rest.length := by
  simp [skipSpace]

theorem length_rest_scan_le (c : Cursor) : c.scan.2.rest.length ≤ c.rest.length := by
  have hspace := c.length_rest_skipSpace_le
  unfold scan
  dsimp only
  split
  · exact hspace
  · split
    · rw [length_rest_advance]; omega
    · exact hspace

theorem length_rest_scan_lt {c c' : Cursor} {t : Token} (h : c.scan = (.ok t, c'))
    (ht : t.kind ≠ .endOfInput) : c'.rest.length < c.rest.length := by
  have hspace := c.length_rest_skipSpace_le
  unfold scan at h
  dsimp only at h
  split at h
  · cases h; exact absurd rfl ht
  · rename_i first rest hrest
    split at h
    · rename_i kind lexeme hlongest
      cases h
      obtain ⟨rule, _, _, hlexeme⟩ := Token.Rule.longest_eq_some hlongest
      have hne := List.length_pos_iff.2 (Token.Rule.lexeme?_prefix hlexeme).1
      have hpos : 0 < c.skipSpace.rest.length := by simp [hrest]
      rw [length_rest_advance]
      omega
    · cases h

end Cursor

end LambdaCalculus
