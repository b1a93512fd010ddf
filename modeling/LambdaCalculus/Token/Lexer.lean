import LambdaCalculus.Token.Cursor

namespace LambdaCalculus

/-- A cursor with one token of lookahead; a peeked token already lies behind the cursor. -/
structure Lexer where
  cursor : Cursor
  peeked : Option Token
  deriving DecidableEq, Repr

namespace Lexer

def ofText (text : String) : Lexer := ⟨.ofText text, none⟩

def next (l : Lexer) : Except LexError Token × Lexer :=
  match l.peeked with
  | some t => (.ok t, ⟨l.cursor, none⟩)
  | none =>
    let scanned := l.cursor.scan
    (scanned.1, ⟨scanned.2, none⟩)

def peek (l : Lexer) : Except LexError Token × Lexer :=
  match l.peeked with
  | some t => (.ok t, l)
  | none =>
    match l.cursor.scan with
    | (.ok t, c) => (.ok t, ⟨c, some t⟩)
    | (.error e, c) => (.error e, ⟨c, none⟩)

def peekKind (l : Lexer) : Except LexError TokenKind × Lexer :=
  let peeked := l.peek
  (peeked.1.map Token.kind, peeked.2)

inductive Call where
  | next | peek | peekKind
  deriving DecidableEq, Repr

inductive Reply where
  | token (token : Token)
  | kind (kind : TokenKind)
  deriving DecidableEq, Repr

def call (l : Lexer) : Call → Except LexError Reply × Lexer
  | .next =>
    let answered := l.next
    (answered.1.map .token, answered.2)
  | .peek =>
    let answered := l.peek
    (answered.1.map .token, answered.2)
  | .peekKind =>
    let answered := l.peekKind
    (answered.1.map .kind, answered.2)

def replies (l : Lexer) : List Call → List (Except LexError Reply)
  | [] => []
  | c :: cs =>
    let answered := l.call c
    answered.1 :: answered.2.replies cs

def after (l : Lexer) : List Call → Lexer
  | [] => l
  | c :: cs => (l.call c).2.after cs

def remaining (l : Lexer) : Nat :=
  l.cursor.rest.length +
    match l.peeked with
    | none => 0
    | some t => if t.kind = .endOfInput then 0 else 1

theorem next_eq_ok {l l' : Lexer} {t : Token} : l.next = (.ok t, l') ↔
    (l.peeked = some t ∧ l' = ⟨l.cursor, none⟩) ∨
      (l.peeked = none ∧ ∃ c, l.cursor.scan = (.ok t, c) ∧ l' = ⟨c, none⟩) := by
  obtain ⟨cursor, _ | u⟩ := l
  · rcases h : cursor.scan with ⟨answer, c⟩
    simp [next, h, eq_comm, and_assoc]
  · simp [next, eq_comm]

theorem next_eq_error {l l' : Lexer} {e : LexError} : l.next = (.error e, l') ↔
    l.peeked = none ∧ ∃ c, l.cursor.scan = (.error e, c) ∧ l' = ⟨c, none⟩ := by
  obtain ⟨cursor, _ | u⟩ := l
  · rcases h : cursor.scan with ⟨answer, c⟩
    simp [next, h, eq_comm, and_assoc]
  · simp [next]

theorem peek_eq_ok {l l' : Lexer} {t : Token} : l.peek = (.ok t, l') ↔
    (l.peeked = some t ∧ l' = l) ∨
      (l.peeked = none ∧ ∃ c, l.cursor.scan = (.ok t, c) ∧ l' = ⟨c, some t⟩) := by
  obtain ⟨cursor, _ | u⟩ := l
  · rcases h : cursor.scan with ⟨_ | u, c⟩
    · simp [peek, h]
    · grind [peek]
  · simp [peek, eq_comm]

theorem peek_eq_error {l l' : Lexer} {e : LexError} : l.peek = (.error e, l') ↔
    l.peeked = none ∧ ∃ c, l.cursor.scan = (.error e, c) ∧ l' = ⟨c, none⟩ := by
  obtain ⟨cursor, _ | u⟩ := l
  · rcases h : cursor.scan with ⟨_ | u, c⟩
    · simp [peek, h, eq_comm, and_assoc]
    · simp [peek, h]
  · simp [peek]

theorem remaining_next_lt {l l' : Lexer} {t : Token} (h : l.next = (.ok t, l'))
    (ht : t.kind ≠ .endOfInput) : l'.remaining < l.remaining := by
  rcases next_eq_ok.1 h with ⟨hp, rfl⟩ | ⟨hp, c, hscan, rfl⟩
  · simp [remaining, hp, ht]
  · have hlt := Cursor.length_rest_scan_lt hscan ht
    simpa [remaining, hp] using hlt

theorem remaining_peek_le {l l' : Lexer} {t : Token} (h : l.peek = (.ok t, l')) :
    l'.remaining ≤ l.remaining := by
  rcases peek_eq_ok.1 h with ⟨-, rfl⟩ | ⟨hp, c, hscan, rfl⟩
  · exact Nat.le_refl _
  · have hle := Cursor.length_rest_scan_le l.cursor
    rw [hscan] at hle
    by_cases ht : t.kind = .endOfInput
    · simpa [remaining, hp, ht] using hle
    · have hlt := Cursor.length_rest_scan_lt hscan ht
      simp only [remaining, hp, ht]
      grind

def tokens (l : Lexer) : Except LexError (List Token) :=
  match h : l.next with
  | (.error e, _) => .error e
  | (.ok t, l') =>
    if ht : t.kind = .endOfInput then .ok [t]
    else
      have := remaining_next_lt h ht
      match l'.tokens with
      | .error e => .error e
      | .ok ts => .ok (t :: ts)
termination_by l.remaining

end Lexer

def tokenize (text : String) : Except LexError (List Token) := (Lexer.ofText text).tokens

end LambdaCalculus
