import LambdaCalculus.Proofs.Lossless
import LambdaCalculus.Token.ByteScan

namespace LambdaCalculus

theorem Text.slice?_append (before mid after : String) :
    slice? (before ++ (mid ++ after)) before.utf8ByteSize
      (before.utf8ByteSize + mid.utf8ByteSize) = some mid := by
  have hfirst : String.Pos.Raw.IsValid (before ++ (mid ++ after)) ⟨before.utf8ByteSize⟩ :=
    String.Pos.Raw.isValid_iff_exists_append.2 ⟨before, mid ++ after, rfl, rfl⟩
  have hlast : String.Pos.Raw.IsValid (before ++ (mid ++ after))
      ⟨before.utf8ByteSize + mid.utf8ByteSize⟩ := by
    refine String.Pos.Raw.isValid_iff_exists_append.2 ⟨before ++ mid, after, ?_, ?_⟩
    · rw [String.append_assoc]
    · simp [String.Pos.Raw.ext_iff]
  have hbytes : (before.toByteArray ++ (mid.toByteArray ++ after.toByteArray)).extract
      (before.toByteArray.size + 0) (before.toByteArray.size + mid.toByteArray.size) =
        mid.toByteArray := by
    rw [ByteArray.extract_append_size_add, ByteArray.extract_append_eq_left rfl]
  rw [slice?, dif_pos ⟨hfirst, hlast, Nat.le_add_right _ _⟩, Option.some.injEq,
    ← String.toByteArray_inj, String.toByteArray_extract, String.toByteArray_append,
    String.toByteArray_append]
  exact hbytes

namespace Cursor

theorem skipSpace_eq (c : Cursor) : c.skipSpace =
    ⟨c.position + byteLength (c.rest.takeWhile Text.isWhiteSpace),
      c.rest.dropWhile Text.isWhiteSpace⟩ := by
  have h := advance_append c.position (c.rest.takeWhile Text.isWhiteSpace)
    (c.rest.dropWhile Text.isWhiteSpace)
  rwa [List.takeWhile_append_dropWhile] at h

/-- How a scan can go, once the white space is behind it. -/
theorem scan_cases (c : Cursor) :
    (c.skipSpace.rest = [] ∧ c.scan = (.ok (.atEnd c.skipSpace.position), c.skipSpace)) ∨
    (∃ kind first more rest, c.skipSpace.rest = first :: (more ++ rest) ∧
      Token.Rule.longest Token.Rule.all (first :: (more ++ rest)) = some (kind, first :: more) ∧
      c.scan = (.ok ⟨kind, String.ofList (first :: more), c.skipSpace.position⟩,
        ⟨c.skipSpace.position + byteLength (first :: more), rest⟩)) ∨
    ∃ first rest, c.skipSpace.rest = first :: rest ∧
      Token.Rule.longest Token.Rule.all (first :: rest) = none ∧
      c.scan = (.error (.unrecognizedCharacter first c.skipSpace.position), c.skipSpace) := by
  rw [scan]
  generalize c.skipSpace = s
  obtain ⟨p, text⟩ := s
  cases text with
  | nil => exact .inl ⟨rfl, rfl⟩
  | cons first tail =>
    cases hlongest : Token.Rule.longest Token.Rule.all (first :: tail) with
    | none => exact .inr (.inr ⟨first, tail, rfl, hlongest, by rfl⟩)
    | some found =>
      obtain ⟨kind, lexeme⟩ := found
      obtain ⟨hlexeme, rest, hsplit, -⟩ := Lexeme.of_longest hlongest
      obtain ⟨d, more, rfl, -⟩ := hlexeme.isWhiteSpace_head
      obtain ⟨rfl, rfl⟩ := List.cons.inj hsplit
      refine .inr (.inl ⟨kind, first, more, rest, rfl, hlongest, ?_⟩)
      exact congrArg (Prod.mk _) (advance_append p (first :: more) rest)

/-- The cursor stands in the text, in front of what is left, and counts the bytes before it. -/
def Within (c : Cursor) (text : String) : Prop :=
  ∃ before : String, text = before ++ String.ofList c.rest ∧ before.utf8ByteSize = c.position

namespace Within

variable {c : Cursor} {text : String}

theorem ofText (text : String) : (Cursor.ofText text).Within text :=
  ⟨"", by simp [Cursor.ofText], rfl⟩

theorem ofList (text : List Char) : Within ⟨0, text⟩ (String.ofList text) :=
  ⟨"", by simp, rfl⟩

theorem passed {p : Nat} {front rest : List Char} (h : Within ⟨p, front ++ rest⟩ text) :
    Within ⟨p + byteLength front, rest⟩ text := by
  obtain ⟨before, rfl, rfl⟩ := h
  refine ⟨before ++ String.ofList front, ?_, ?_⟩
  · rw [String.append_assoc, ← String.ofList_append]
  · rw [String.utf8ByteSize_append, byteLength_ofList]

theorem skipSpace (h : c.Within text) : c.skipSpace.Within text := by
  rw [skipSpace_eq]
  apply passed
  rwa [List.takeWhile_append_dropWhile]

theorem isValid (h : c.Within text) : String.Pos.Raw.IsValid text ⟨c.position⟩ := by
  obtain ⟨before, htext, hposition⟩ := h
  exact String.Pos.Raw.isValid_iff_exists_append.2 ⟨before, _, htext, by rw [← hposition]; rfl⟩

theorem position_le (h : c.Within text) : c.position ≤ text.utf8ByteSize := h.isValid.le_rawEndPos

theorem slice?_eq {p : Nat} (front : List Char) {rest : List Char}
    (h : Within ⟨p, front ++ rest⟩ text) :
    Text.slice? text p (p + byteLength front) = some (String.ofList front) := by
  obtain ⟨before, rfl, rfl⟩ := h
  have hslice := Text.slice?_append before (String.ofList front) (String.ofList rest)
  rwa [byteLength_ofList, ← String.ofList_append] at hslice

theorem slice?_rest (h : c.Within text) :
    Text.slice? text c.position text.utf8ByteSize = some (String.ofList c.rest) := by
  obtain ⟨before, rfl, hposition⟩ := h
  have hslice := Text.slice?_append before (String.ofList c.rest) ""
  rwa [String.append_empty, ← String.utf8ByteSize_append, hposition] at hslice

theorem scan (h : c.Within text) : c.scan.2.Within text := by
  have hstart := h.skipSpace
  rcases c.scan_cases with ⟨-, hscan⟩ | ⟨kind, first, more, rest, hrest, -, hscan⟩ |
    ⟨first, rest, -, -, hscan⟩
  · rwa [hscan]
  · rw [hscan]
    apply passed
    rwa [List.cons_append, ← hrest]
  · rwa [hscan]

theorem slice?_of_scan {c' : Cursor} {t : Token} (h : c.Within text)
    (hscan : c.scan = (.ok t, c')) :
    t.stop = c'.position ∧ Text.slice? text t.position c'.position = some t.text := by
  have hstart := h.skipSpace
  rcases c.scan_cases with ⟨hrest, hend⟩ | ⟨kind, first, more, rest, hrest, -, hlexeme⟩ |
    ⟨first, rest, -, -, hbad⟩
  · cases hscan.symm.trans hend
    exact ⟨rfl, slice?_eq [] hstart⟩
  · cases hscan.symm.trans hlexeme
    have hlexeme : Within ⟨c.skipSpace.position, (first :: more) ++ rest⟩ text := by
      rwa [List.cons_append, ← hrest]
    exact ⟨by rw [Token.stop, byteLength_ofList], slice?_eq (first :: more) hlexeme⟩
  · cases hscan.symm.trans hbad

end Within

theorem position_le_scan (c : Cursor) : c.position ≤ c.scan.2.position := by
  have hspace : c.position ≤ c.skipSpace.position := Nat.le_add_right _ _
  rcases c.scan_cases with ⟨-, h⟩ | ⟨kind, first, more, rest, -, -, h⟩ | ⟨first, rest, -, -, h⟩
  · rwa [h]
  · rw [h]
    exact Nat.le_trans hspace (Nat.le_add_right _ _)
  · rwa [h]

theorem scanAt?_eq {c : Cursor} {text : String} (h : c.Within text) :
    scanAt? text c.position = some (c.scan.1, c.scan.2.position) := by
  have hposition : c.position + byteLength (c.rest.takeWhile Text.isWhiteSpace) =
      c.skipSpace.position := by
    rw [skipSpace_eq]
  rw [scanAt?, h.slice?_rest]
  simp only [Option.bind_eq_bind, Option.bind_some, String.toList_ofList, hposition,
    h.skipSpace.slice?_rest]
  rcases c.scan_cases with ⟨hrest, hscan⟩ | ⟨kind, first, more, rest, hrest, hlongest, hscan⟩ |
    ⟨first, rest, hrest, hlongest, hscan⟩
  · rw [hscan, hrest]
    rfl
  · have hcut := Within.slice?_eq (first :: more) (Within.ofList (first :: more ++ rest))
    rw [Nat.zero_add, List.cons_append] at hcut
    rw [hscan, hrest]
    simp only [hlongest, hcut]
    rfl
  · rw [hscan, hrest]
    simp only [hlongest]
    rfl

example : scanAt? "λx" 2 = some (.ok ⟨.identifier, "x", 2⟩, 3) ∧ scanAt? "λx" 1 = none := by
  decide +kernel

end Cursor

namespace Lexer

structure Within (l : Lexer) (text : String) : Prop where
  cursor : l.cursor.Within text
  peeked : ∀ t, l.peeked = some t → t.stop = l.cursor.position ∧
    Text.slice? text t.position l.cursor.position = some t.text

namespace Within

variable {l : Lexer} {text : String}

theorem ofText (text : String) : (Lexer.ofText text).Within text where
  cursor := .ofText text
  peeked _ h := nomatch h

theorem next (h : l.Within text) :
    l.next.2.Within text ∧ l.cursor.position ≤ l.next.2.cursor.position := by
  rw [Lexer.next]
  cases l.peeked with
  | some t => exact ⟨⟨h.cursor, fun _ hpeeked => by cases hpeeked⟩, Nat.le_refl _⟩
  | none => exact ⟨⟨h.cursor.scan, fun _ hpeeked => by cases hpeeked⟩, l.cursor.position_le_scan⟩

theorem peek (h : l.Within text) :
    l.peek.2.Within text ∧ l.cursor.position ≤ l.peek.2.cursor.position := by
  have hcursor := h.cursor.scan
  have hle := l.cursor.position_le_scan
  rw [Lexer.peek]
  cases l.peeked with
  | some t => exact ⟨h, Nat.le_refl _⟩
  | none =>
    rcases hscan : l.cursor.scan with ⟨_ | t, c⟩
    · rw [hscan] at hcursor hle
      exact ⟨⟨hcursor, fun _ hpeeked => by cases hpeeked⟩, hle⟩
    · rw [hscan] at hcursor hle
      refine ⟨⟨hcursor, fun u hu => ?_⟩, hle⟩
      obtain rfl : t = u := Option.some.inj hu
      exact h.cursor.slice?_of_scan hscan

theorem call (h : l.Within text) (c : Call) :
    (l.call c).2.Within text ∧ l.cursor.position ≤ (l.call c).2.cursor.position := by
  cases c with
  | next => exact h.next
  | peek | peekKind => exact h.peek

theorem after (h : l.Within text) (calls : List Call) : (l.after calls).Within text := by
  induction calls generalizing l with
  | nil => exact h
  | cons c calls ih => exact ih (h.call c).1

end Within

/-- Whatever has been called, the cursor is between two characters of the text and moves forward
only, so a scan can cut out what it needs, and a token that has been peeked at is the piece of the
text that ends there. -/
theorem boundary_after (text : String) (calls : List Call) :
    let l := (ofText text).after calls
    String.Pos.Raw.IsValid text ⟨l.cursor.position⟩ ∧ l.cursor.position ≤ text.utf8ByteSize ∧
      (∀ c, l.cursor.position ≤ (l.call c).2.cursor.position) ∧
      Cursor.scanAt? text l.cursor.position = some (l.cursor.scan.1, l.cursor.scan.2.position) ∧
      ∀ t, l.peeked = some t → t.position + t.text.utf8ByteSize = l.cursor.position ∧
        Text.slice? text t.position l.cursor.position = some t.text := by
  intro l
  have h : l.Within text := (Within.ofText text).after calls
  exact ⟨h.cursor.isValid, h.cursor.position_le, fun c => (h.call c).2, Cursor.scanAt?_eq h.cursor,
    h.peeked⟩

end Lexer

end LambdaCalculus
