import LambdaCalculus.Proofs.Unrecognized

namespace LambdaCalculus

/-- A scan that fails has skipped the white space, and fails again where it stopped. -/
theorem Cursor.Scans.again {c : Cursor} {answer : Except LexError Token × Cursor}
    (h : Scans c answer) {e : LexError} (he : answer.1 = .error e) : answer.2.scan = answer := by
  induction h with
  | space _ _ ih => exact ih he
  | atEnd p => cases he
  | lexeme p _ _ => cases he
  | bad p hc hnone => exact scan_eq_of_scans (.bad p hc hnone)

namespace Lexer

theorem next_of_next_error {l l' : Lexer} {e : LexError} (h : l.next = (.error e, l')) :
    l'.next = (.error e, l') := by
  obtain ⟨-, c, hscan, rfl⟩ := next_eq_error.1 h
  have hagain := (Cursor.scans_scan l.cursor).again (by rw [hscan])
  rw [hscan] at hagain
  exact next_eq_error.2 ⟨rfl, c, hagain, rfl⟩

def Call.reply : Call → Token → Reply
  | .next, t | .peek, t => .token t
  | .peekKind, t => .kind t.kind

def Call.takes (c : Call) (answer : Except LexError Reply) : Bool := c = .next && answer.isOk

/-- Among the first `n` calls, the number of those that have taken a token. -/
def taken (calls : List Call) (replies : List (Except LexError Reply)) (n : Nat) : Nat :=
  ((calls.zip replies).take n).countP fun asked => asked.1.takes asked.2

theorem taken_cons_succ (c : Call) (calls : List Call) (answer : Except LexError Reply)
    (replies : List (Except LexError Reply)) (n : Nat) :
    taken (c :: calls) (answer :: replies) (n + 1) =
      (c.takes answer).toNat + taken calls replies n := by
  rw [taken, List.zip_cons_cons, List.take_succ_cons, List.countP_cons, Nat.add_comm]
  cases c.takes answer <;> rfl

end Lexer

namespace TokenStream

def drop (s : TokenStream) (n : Nat) : TokenStream := ⟨s.tokens.drop n, s.ending⟩

theorem next_drop (s : TokenStream) (n : Nat) :
    (s.drop n).next = (s.get n).map fun t => (t, s.drop (n + 1)) := by
  obtain ⟨ts, ending⟩ := s
  simp only [drop, get, ← List.head?_drop, ← List.tail_drop]
  cases ts.drop n with
  | nil => cases ending <;> rfl
  | cons t rest => rfl

theorem next_drop_eq_ok {s s' : TokenStream} {n : Nat} {t : Token} :
    (s.drop n).next = .ok (t, s') ↔ s.get n = .ok t ∧ s' = s.drop (n + 1) := by
  rw [next_drop]
  cases s.get n <;> simp [Except.map, eq_comm]

theorem next_drop_eq_error {s : TokenStream} {n : Nat} {e : LexError} :
    (s.drop n).next = .error e ↔ s.get n = .error e := by
  rw [next_drop]
  cases s.get n <;> simp [Except.map]

end TokenStream

namespace Lexer

/-- What the lexer has still to give is the stream from element `n` on. -/
def Follows (s : TokenStream) (n : Nat) (l : Lexer) : Prop :=
  l.Coherent ∧ TokenStream.ofLexer l = s.drop n

namespace Follows

variable {s : TokenStream} {n : Nat} {l l' : Lexer}

theorem get_of_next {t : Token} (h : Follows s n l) (hn : l.next = (.ok t, l')) :
    s.get n = .ok t ∧ Follows s (n + 1) l' := by
  have hread := TokenStream.next_ofLexer h.1 hn
  rw [h.2] at hread
  obtain ⟨hget, hrest⟩ := TokenStream.next_drop_eq_ok.1 hread
  exact ⟨hget, coherent_of_next hn, hrest⟩

theorem get_of_next_error {e : LexError} (h : Follows s n l) (hn : l.next = (.error e, l')) :
    s.get n = .error e ∧ Follows s n l' := by
  have hread := TokenStream.next_ofLexer_error hn
  have hsame : l'.next = l.next := (next_of_next_error hn).trans hn.symm
  rw [h.2] at hread
  refine ⟨TokenStream.next_drop_eq_error.1 hread, coherent_of_next hn, ?_⟩
  exact (TokenStream.ofLexer_congr hsame).trans h.2

theorem get_of_peek {t : Token} (h : Follows s n l) (hp : l.peek = (.ok t, l')) :
    s.get n = .ok t ∧ Follows s n l' := by
  obtain ⟨hn, hsame⟩ := next_of_peek hp
  obtain ⟨hget, -⟩ := h.get_of_next (Prod.ext hn rfl)
  exact ⟨hget, coherent_peek h.1 hp, (TokenStream.ofLexer_congr hsame).trans h.2⟩

theorem next (h : Follows s n l) :
    l.next.1 = s.get n ∧ Follows s (n + l.next.1.isOk.toNat) l.next.2 := by
  rcases hn : l.next with ⟨e | t, l'⟩
  · obtain ⟨hget, hl'⟩ := h.get_of_next_error hn
    exact ⟨hget.symm, hl'⟩
  · obtain ⟨hget, hl'⟩ := h.get_of_next hn
    exact ⟨hget.symm, hl'⟩

theorem peek (h : Follows s n l) : l.peek.1 = s.get n ∧ Follows s n l.peek.2 := by
  rcases hp : l.peek with ⟨e | t, l'⟩
  · obtain ⟨hget, hl'⟩ := h.get_of_next_error (next_of_peek_error hp)
    exact ⟨hget.symm, hl'⟩
  · obtain ⟨hget, hl'⟩ := h.get_of_peek hp
    exact ⟨hget.symm, hl'⟩

/-- One call is answered with element `n`, and only a token that is taken moves the lexer on. -/
theorem call (h : Follows s n l) (c : Call) :
    (l.call c).1 = (s.get n).map c.reply ∧
      Follows s (n + (c.takes (l.call c).1).toNat) (l.call c).2 := by
  cases c with
  | next =>
    obtain ⟨hget, hl'⟩ := h.next
    have htakes : Call.takes .next (l.call .next).1 = l.next.1.isOk := by
      simp only [Lexer.call]
      cases l.next.1 <;> rfl
    rw [htakes]
    exact ⟨congrArg (Except.map Reply.token) hget, hl'⟩
  | peek =>
    obtain ⟨hget, hl'⟩ := h.peek
    exact ⟨congrArg (Except.map Reply.token) hget, hl'⟩
  | peekKind =>
    obtain ⟨hget, hl'⟩ := h.peek
    refine ⟨?_, hl'⟩
    simp only [Lexer.call, peekKind, hget]
    cases s.get n <;> rfl

theorem replies (h : Follows s n l) (calls : List Call) (i : Nat) :
    (l.replies calls)[i]? = calls[i]?.map fun c =>
      (s.get (n + taken calls (l.replies calls) i)).map c.reply := by
  induction calls generalizing l n i with
  | nil => rfl
  | cons c calls ih =>
    obtain ⟨hanswer, hrest⟩ := h.call c
    cases i with
    | zero => simpa [Lexer.replies, taken] using hanswer
    | succ i =>
      have hi := ih hrest i
      rw [Nat.add_assoc, ← taken_cons_succ] at hi
      simpa only [Lexer.replies, List.getElem?_cons_succ] using hi

end Follows

end Lexer

/-- The tokens that stand in front of the character where lexing fails are those of the text up to
it. -/
theorem tokenize_before_error {text : String} {c : Char} {position : Nat}
    (h : tokenize text = .error (.unrecognizedCharacter c position)) :
    ∃ before after : String, text = before ++ String.singleton c ++ after ∧
      before.utf8ByteSize = position ∧
      tokenize before = .ok ((TokenStream.ofText text).tokens ++ [.atEnd position]) := by
  obtain ⟨before, after, htext, rfl, -, hspells⟩ :=
    (Lexes.ofText text).of_error (tokenize_eq_error.1 h)
  have hsize : (String.ofList before).utf8ByteSize = 0 + byteLength before := by
    rw [byteLength_ofList, Nat.zero_add]
  refine ⟨String.ofList before, String.ofList after, ?_, hsize, ?_⟩
  · apply String.toList_injective
    simp [htext]
  · refine tokenize_eq_ok_iff_spells.2 ⟨_, ?_, by rw [hsize]⟩
    rwa [String.toList_ofList]

/-- Calls in any order, after failures too, are answered from one stream: the tokens of the text and
then its end for ever, or the tokens in front of the failure and then the failure for ever. -/
theorem Lexer.replies_of_stream (text : String) :
    ∃ s : TokenStream,
      (∀ ts, tokenize text = .ok ts →
        ∃ position, s.ending = .ok position ∧ ts = s.tokens ++ [.atEnd position]) ∧
      (∀ c position, tokenize text = .error (.unrecognizedCharacter c position) →
        s.ending = .error (.unrecognizedCharacter c position) ∧
        ∃ before after : String, text = before ++ String.singleton c ++ after ∧
          before.utf8ByteSize = position ∧
          tokenize before = .ok (s.tokens ++ [.atEnd position])) ∧
      ∀ calls i, ((ofText text).replies calls)[i]? = calls[i]?.map fun c =>
        (s.get (taken calls ((ofText text).replies calls) i)).map c.reply := by
  refine ⟨TokenStream.ofText text, fun ts hts => tokenize_eq_ok.1 hts, fun c position h => ?_, ?_⟩
  · exact ⟨tokenize_eq_error.1 h, tokenize_before_error h⟩
  · intro calls i
    have hstart : Follows (TokenStream.ofText text) 0 (ofText text) := ⟨coherent_of_none rfl, rfl⟩
    simpa using hstart.replies calls i

example : (Lexer.ofText "x 2").replies [.peekKind, .next, .next, .peek] =
    [.ok (.kind .identifier), .ok (.token ⟨.identifier, "x", 0⟩),
      .error (.unrecognizedCharacter '2' 2), .error (.unrecognizedCharacter '2' 2)] := by
  decide +kernel

end LambdaCalculus
