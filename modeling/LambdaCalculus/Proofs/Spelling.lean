import LambdaCalculus.Proofs.Lexing

namespace LambdaCalculus

/-- The text, which begins at the byte `p`, is made of the tokens and of white space. -/
inductive Spells : Nat → List Char → List Token → Prop where
  | nil (p : Nat) : Spells p [] []
  | space {p : Nat} {c : Char} {rest : List Char} {ts : List Token} :
      Text.isWhiteSpace c = true → Spells (p + c.utf8Size) rest ts → Spells p (c :: rest) ts
  | lexeme {p : Nat} {kind : TokenKind} {text rest : List Char} {ts : List Token} :
      Lexeme kind text → (kind = .identifier → EndsIdentifier rest) →
      Spells (p + byteLength text) rest ts →
      Spells p (text ++ rest) (⟨kind, String.ofList text, p⟩ :: ts)

theorem Spells.lexes {p : Nat} {text : List Char} {ts : List Token} (h : Spells p text ts) :
    Lexes p text ⟨ts, .ok (p + byteLength text)⟩ := by
  induction h with
  | nil p => exact .atEnd p
  | space hc _ ih =>
    rw [byteLength_cons, ← Nat.add_assoc]
    exact .space hc ih
  | lexeme ht hr _ ih =>
    rw [byteLength_append, ← Nat.add_assoc]
    exact .lexeme ht hr ih

theorem Lexes.spells {p q : Nat} {text : List Char} {s : TokenStream} (h : Lexes p text s)
    (hs : s.ending = .ok q) : Spells p text s.tokens ∧ q = p + byteLength text := by
  induction h with
  | atEnd p =>
    cases hs
    exact ⟨.nil _, rfl⟩
  | space hc _ ih =>
    obtain ⟨hts, hq⟩ := ih hs
    rw [byteLength_cons, ← Nat.add_assoc]
    exact ⟨.space hc hts, hq⟩
  | lexeme ht hr _ ih =>
    obtain ⟨hts, hq⟩ := ih hs
    rw [byteLength_append, ← Nat.add_assoc]
    exact ⟨.lexeme ht hr hts, hq⟩
  | bad p _ _ => cases hs

theorem Spells.append {p : Nat} {text rest : List Char} {ts us : List Token}
    (h : Spells p text ts) (hrest : EndsIdentifier rest)
    (hus : Spells (p + byteLength text) rest us) : Spells p (text ++ rest) (ts ++ us) := by
  induction h with
  | nil p => simpa [byteLength] using hus
  | space hc _ ih =>
    refine .space hc (ih ?_)
    rwa [Nat.add_assoc, ← byteLength_cons]
  | lexeme ht hr _ ih =>
    rw [List.append_assoc]
    refine .lexeme ht (fun hk => (hr hk).append hrest) (ih ?_)
    rwa [Nat.add_assoc, ← byteLength_append]

namespace TokenStream

theorem ofLexer_of_spells {p : Nat} {text : List Char} {ts : List Token} (h : Spells p text ts) :
    ofLexer ⟨⟨p, text⟩, none⟩ = ⟨ts, .ok (p + byteLength text)⟩ := h.lexes.ofLexer_eq

def Lexical (s : TokenStream) : Prop := ∀ t ∈ s.tokens, Lexeme t.kind t.text.toList

theorem lexical_ofText (text : String) : (ofText text).Lexical :=
  (Lexes.ofText text).lexeme_of_mem

end TokenStream

end LambdaCalculus
