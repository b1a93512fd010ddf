import LambdaCalculus.Proofs.LazyReading

namespace LambdaCalculus

theorem Lexeme.byteLength_pos {kind : TokenKind} {text : List Char} (h : Lexeme kind text) :
    0 < byteLength text := by
  obtain ⟨c, cs, rfl, _⟩ := h.isWhiteSpace_head
  have hc := c.utf8Size_pos
  rw [byteLength_cons]
  omega

namespace TokenStream

theorem prepend_eq_nil {s : TokenStream} {us : List Token} {ending : Except LexError Nat}
    (h : s.prepend us = ⟨[], ending⟩) : us = [] ∧ s = ⟨[], ending⟩ := by
  obtain ⟨ts, e⟩ := s
  rw [prepend, mk.injEq, List.append_eq_nil_iff] at h
  obtain ⟨⟨rfl, rfl⟩, rfl⟩ := h
  exact ⟨rfl, rfl⟩

theorem prepend_cons_eq {s w : TokenStream} {u t : Token} {us : List Token}
    (h : s.prepend (u :: us) = w.prepend [t]) : u = t ∧ s.prepend us = w := by
  obtain ⟨ts, e⟩ := s
  obtain ⟨ws, d⟩ := w
  simp only [prepend, List.cons_append, List.nil_append, mk.injEq, List.cons.injEq] at h
  obtain ⟨⟨rfl, rfl⟩, rfl⟩ := h
  exact ⟨rfl, rfl⟩

end TokenStream

/-- From the byte `p` on, the text holds the tokens of the stream, and ends like it. -/
inductive Lexes : Nat → List Char → TokenStream → Prop where
  | atEnd (p : Nat) : Lexes p [] ⟨[], .ok p⟩
  | space {p : Nat} {c : Char} {rest : List Char} {s : TokenStream} :
      Text.isWhiteSpace c = true → Lexes (p + c.utf8Size) rest s → Lexes p (c :: rest) s
  | lexeme {p : Nat} {kind : TokenKind} {text rest : List Char} {s : TokenStream} :
      Lexeme kind text → (kind = .identifier → EndsIdentifier rest) →
      Lexes (p + byteLength text) rest s →
      Lexes p (text ++ rest) (s.prepend [⟨kind, String.ofList text, p⟩])
  | bad (p : Nat) {c : Char} {rest : List Char} : Text.isWhiteSpace c = false →
      Token.Rule.longest Token.Rule.all (c :: rest) = none →
      Lexes p (c :: rest) ⟨[], .error (.unrecognizedCharacter c p)⟩

namespace Lexes

theorem ofLexer_eq {p : Nat} {text : List Char} {s : TokenStream} (h : Lexes p text s) :
    TokenStream.ofLexer ⟨⟨p, text⟩, none⟩ = s := by
  induction h with
  | atEnd p => exact TokenStream.ofLexer_end (Lexer.next_nil p none (by simp)) rfl
  | @space p c rest s hc _ ih =>
    have hnext : (⟨⟨p, c :: rest⟩, none⟩ : Lexer).next =
        (⟨⟨p + c.utf8Size, rest⟩, none⟩ : Lexer).next := by
      simp only [Lexer.next, Cursor.scan_space hc]
    rw [TokenStream.ofLexer_congr hnext, ih]
  | @lexeme p kind text rest s ht hr _ ih =>
    have hscan := Cursor.scan_eq_of_scans (.lexeme p ht hr)
    have hnext : (⟨⟨p, text ++ rest⟩, none⟩ : Lexer).next =
        (.ok ⟨kind, String.ofList text, p⟩, ⟨⟨p + byteLength text, rest⟩, none⟩) := by
      simp only [Lexer.next, hscan]
    rw [TokenStream.ofLexer_token hnext ht.kind_ne_endOfInput, ih]
  | @bad p c rest hc hnone =>
    have hscan := Cursor.scan_eq_of_scans (.bad p hc hnone)
    have hnext : (⟨⟨p, c :: rest⟩, none⟩ : Lexer).next =
        (.error (.unrecognizedCharacter c p), ⟨⟨p, c :: rest⟩, none⟩) := by
      simp only [Lexer.next, hscan]
    exact TokenStream.ofLexer_error hnext

theorem exists_stream (p : Nat) (text : List Char) : ∃ s, Lexes p text s := by
  induction hn : text.length using Nat.strongRecOn generalizing p text with
  | ind n ih =>
    cases text with
    | nil => exact ⟨_, .atEnd p⟩
    | cons c rest =>
      cases hc : Text.isWhiteSpace c with
      | true =>
        obtain ⟨s, hs⟩ := ih rest.length (by simp [← hn]) (p + c.utf8Size) rest rfl
        exact ⟨s, .space hc hs⟩
      | false =>
        cases hl : Token.Rule.longest Token.Rule.all (c :: rest) with
        | none => exact ⟨_, .bad p hc hl⟩
        | some found =>
          obtain ⟨ht, after, hsplit, hr⟩ := Lexeme.of_longest hl
          have hpos : 0 < found.2.length := List.length_pos_iff.2 (by
            obtain ⟨d, ds, hd, _⟩ := ht.isWhiteSpace_head
            simp [hd])
          have hshort : after.length < n := by
            rw [← hn, hsplit, List.length_append]
            omega
          obtain ⟨s, hs⟩ := ih _ hshort (p + byteLength found.2) after rfl
          rw [hsplit]
          exact ⟨_, .lexeme ht hr hs⟩

theorem ofLexer (p : Nat) (text : List Char) :
    Lexes p text (TokenStream.ofLexer ⟨⟨p, text⟩, none⟩) := by
  obtain ⟨s, hs⟩ := exists_stream p text
  rwa [hs.ofLexer_eq]

theorem ofText (text : String) : Lexes 0 text.toList (TokenStream.ofText text) := ofLexer 0 _

theorem ofText_eq {text : String} {s : TokenStream} (h : Lexes 0 text.toList s) :
    TokenStream.ofText text = s := h.ofLexer_eq

theorem lexeme_of_mem {p : Nat} {text : List Char} {s : TokenStream} (h : Lexes p text s) :
    ∀ t ∈ s.tokens, Lexeme t.kind t.text.toList := by
  induction h with
  | atEnd p | bad p _ _ => simp
  | space _ _ ih => exact ih
  | lexeme ht _ _ ih =>
    intro t hmem
    rcases List.mem_cons.1 hmem with rfl | hmem
    · simpa using ht
    · exact ih t hmem

/-- A character that begins no token stands behind all tokens. -/
theorem position_lt {p q : Nat} {c : Char} {text : List Char} {s : TokenStream}
    (h : Lexes p text s) (hs : s.ending = .error (.unrecognizedCharacter c q)) :
    p ≤ q ∧ ∀ t ∈ s.tokens, t.position < q := by
  induction h with
  | atEnd p => cases hs
  | space _ _ ih =>
    obtain ⟨hle, hlt⟩ := ih hs
    exact ⟨by omega, hlt⟩
  | lexeme ht _ _ ih =>
    obtain ⟨hle, hlt⟩ := ih hs
    have hpos := ht.byteLength_pos
    refine ⟨by omega, fun t hmem => ?_⟩
    rcases List.mem_cons.1 hmem with rfl | hmem
    · dsimp only; omega
    · exact hlt t hmem
  | bad p _ _ => cases hs; simp

/-- Behind any of its tokens, and the white space there, the text can be replaced by another, as
long as no identifier in front runs on into it. -/
theorem split {p : Nat} {text : List Char} {s : TokenStream} {us : List Token}
    (h : Lexes p text (s.prepend us)) :
    ∃ front back, text = front ++ back ∧ (∀ c ∈ back.head?, Text.isWhiteSpace c = false) ∧
      Lexes (p + byteLength front) back s ∧
      ∀ back' s', (EndsIdentifier back → EndsIdentifier back') →
        Lexes (p + byteLength front) back' s' → Lexes p (front ++ back') (s'.prepend us) := by
  generalize hw : s.prepend us = w at h
  induction h generalizing us with
  | atEnd p =>
    obtain ⟨rfl, rfl⟩ := TokenStream.prepend_eq_nil hw
    exact ⟨[], [], rfl, by simp, .atEnd p, fun _ _ _ h => h⟩
  | @bad p c rest hc hnone =>
    obtain ⟨rfl, rfl⟩ := TokenStream.prepend_eq_nil hw
    exact ⟨[], c :: rest, rfl, by simp [hc], .bad p hc hnone, fun _ _ _ h => h⟩
  | @space p c rest w hc _ ih =>
    obtain ⟨front, back, rfl, hback, hs, hreplace⟩ := ih hw
    rw [Nat.add_assoc, ← byteLength_cons] at hs
    refine ⟨c :: front, back, rfl, hback, hs, fun back' s' he hs' => .space hc ?_⟩
    rw [byteLength_cons, ← Nat.add_assoc] at hs'
    exact hreplace back' s' he hs'
  | @lexeme p kind text rest w ht hr hrest ih =>
    cases us with
    | nil =>
      obtain rfl : s = _ := hw
      refine ⟨[], text ++ rest, rfl, ?_, .lexeme ht hr hrest, fun _ _ _ h => h⟩
      obtain ⟨c, cs, rfl, hc⟩ := ht.isWhiteSpace_head
      simp [hc]
    | cons u us =>
      obtain ⟨rfl, hv⟩ := TokenStream.prepend_cons_eq hw
      obtain ⟨front, back, rfl, hback, hs, hreplace⟩ := ih hv
      rw [Nat.add_assoc, ← byteLength_append] at hs
      refine ⟨text ++ front, back, by simp, hback, hs, fun back' s' he hs' => ?_⟩
      rw [byteLength_append, ← Nat.add_assoc] at hs'
      rw [List.append_assoc]
      refine .lexeme ht (fun hk => ?_) (hreplace back' s' he hs')
      cases front with
      | nil => exact he (hr hk)
      | cons c front => exact hr hk

end Lexes

end LambdaCalculus
