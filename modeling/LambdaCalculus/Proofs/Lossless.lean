import LambdaCalculus.Proofs.Layout

namespace LambdaCalculus

def Token.stop (t : Token) : Nat := t.position + t.text.utf8ByteSize

/-- The token stands in the text where its position says, and an identifier is not cut short. -/
def Token.StandsIn (t : Token) (text : String) : Prop :=
  ∃ before after : String, text = before ++ t.text ++ after ∧ before.utf8ByteSize = t.position ∧
    (t.kind = .identifier → EndsIdentifier after.toList)

structure Lossless (text : String) (ts : List Token) : Prop where
  atEnd : ∃ front, ts = front ++ [.atEnd text.utf8ByteSize] ∧
    ∀ t ∈ front, t.kind ≠ .endOfInput
  lexeme : ∀ t ∈ ts, t.kind ≠ .endOfInput → t.text ≠ "" ∧ Lexeme t.kind t.text.toList
  standsIn : ∀ t ∈ ts, t.StandsIn text
  ordered : ts.Pairwise fun t u => t.position < u.position ∧ t.stop ≤ u.position
  layout : ∃ l : Layout, l.text = text ∧ l.tokens = ts

variable {p : Nat} {text : List Char} {ts : List Token}

theorem Lexeme.position_lt_stop {t : Token} (h : Lexeme t.kind t.text.toList) :
    t.position < t.stop := by
  have hpos := h.byteLength_pos
  rw [byteLength_toList] at hpos
  rw [Token.stop]
  omega

theorem Token.standsIn_iff {t : Token} {text : String} : t.StandsIn text ↔
    ∃ before after, text.toList = before ++ (t.text.toList ++ after) ∧
      byteLength before = t.position ∧ (t.kind = .identifier → EndsIdentifier after) := by
  constructor
  · rintro ⟨before, after, rfl, hp, hends⟩
    refine ⟨before.toList, after.toList, by simp, ?_, hends⟩
    rw [byteLength_toList, hp]
  · rintro ⟨before, after, htext, hp, hends⟩
    refine ⟨String.ofList before, String.ofList after, ?_, ?_, ?_⟩
    · apply String.toList_injective
      simp [htext]
    · rw [byteLength_ofList, hp]
    · rwa [String.toList_ofList]

theorem eq_nil_of_byteLength {text : List Char} (h : byteLength text = 0) : text = [] := by
  cases text with
  | nil => rfl
  | cons c text =>
    have hc := c.utf8Size_pos
    rw [byteLength_cons] at h
    omega

theorem append_inj_of_byteLength {a b c d : List Char} (h : a ++ b = c ++ d)
    (hlength : byteLength a = byteLength c) : a = c ∧ b = d := by
  rcases List.append_eq_append_iff.1 h with ⟨m, rfl, rfl⟩ | ⟨m, rfl, rfl⟩ <;>
  · rw [byteLength_append] at hlength
    obtain rfl : m = [] := eq_nil_of_byteLength (by omega)
    simp

namespace Spells

theorem standsIn (h : Spells p text ts) : ∀ t ∈ ts, ∃ before after,
    text = before ++ (t.text.toList ++ after) ∧ p + byteLength before = t.position ∧
      (t.kind = .identifier → EndsIdentifier after) := by
  induction h with
  | nil p => simp
  | @space p c rest ts hc _ ih =>
    intro t ht
    obtain ⟨before, after, rfl, hp, hends⟩ := ih t ht
    refine ⟨c :: before, after, rfl, ?_, hends⟩
    rw [byteLength_cons, ← Nat.add_assoc, hp]
  | @lexeme p kind text rest ts hl hr _ ih =>
    intro t ht
    rcases List.mem_cons.1 ht with rfl | ht
    · exact ⟨[], rest, by simp, rfl, hr⟩
    · obtain ⟨before, after, rfl, hp, hends⟩ := ih t ht
      refine ⟨text ++ before, after, by simp, ?_, hends⟩
      rw [byteLength_append, ← Nat.add_assoc, hp]

theorem lexeme_of_mem (h : Spells p text ts) : ∀ t ∈ ts, Lexeme t.kind t.text.toList :=
  h.lexes.lexeme_of_mem

theorem bounds (h : Spells p text ts) :
    ∀ t ∈ ts, p ≤ t.position ∧ t.stop ≤ p + byteLength text := by
  intro t ht
  obtain ⟨before, after, rfl, hp, -⟩ := h.standsIn t ht
  have hsize := byteLength_toList t.text
  rw [Token.stop, byteLength_append, byteLength_append]
  omega

theorem ordered (h : Spells p text ts) :
    ts.Pairwise fun t u => t.position < u.position ∧ t.stop ≤ u.position := by
  induction h with
  | nil p => exact .nil
  | space _ _ ih => exact ih
  | @lexeme p kind text rest ts hl _ hrest ih =>
    refine List.pairwise_cons.2 ⟨fun u hu => ?_, ih⟩
    have hlow := (hrest.bounds u hu).1
    have hpos := hl.byteLength_pos
    simp only [Token.stop, byteLength_ofList]
    omega

theorem exists_pieces (h : Spells p text ts) : ∃ pieces trailing, Text.Blank trailing ∧
    text = Piece.writeAll pieces ++ trailing ∧ ts = Piece.tokensFrom p pieces := by
  induction h with
  | nil p => exact ⟨[], [], by simp [Text.Blank], rfl, rfl⟩
  | @space p c rest ts hc _ ih =>
    obtain ⟨pieces, trailing, htrailing, rfl, rfl⟩ := ih
    cases pieces with
    | nil => exact ⟨[], c :: trailing, List.forall_mem_cons.2 ⟨hc, htrailing⟩, rfl, rfl⟩
    | cons piece pieces =>
      let wider : Piece :=
        { piece with gap := c :: piece.gap, blank := List.forall_mem_cons.2 ⟨hc, piece.blank⟩ }
      refine ⟨wider :: pieces, trailing, htrailing, rfl, ?_⟩
      simp [wider, Piece.tokensFrom, Piece.token, Piece.written, Nat.add_assoc]
  | @lexeme p kind text rest ts hl _ _ ih =>
    obtain ⟨pieces, trailing, htrailing, rfl, rfl⟩ := ih
    exact ⟨⟨[], kind, text, by simp [Text.Blank], hl⟩ :: pieces, trailing, htrailing,
      by simp [Piece.writeAll, Piece.written], rfl⟩

end Spells

/-- Tokens that stand in the text as pieces of it leave no identifier directly in front of
another. -/
theorem Piece.isChain_of_standsIn (pieces : List Piece) (before : List Char)
    {trailing : List Char} (htrailing : Text.Blank trailing)
    (h : ∀ t ∈ tokensFrom (byteLength before) pieces,
      t.StandsIn (String.ofList (before ++ (writeAll pieces ++ trailing)))) :
    pieces.IsChain Apart := by
  induction pieces generalizing before with
  | nil => exact .nil
  | cons piece pieces ih =>
    have hwhole : before ++ (writeAll (piece :: pieces) ++ trailing) =
        before ++ piece.written ++ (writeAll pieces ++ trailing) := by
      simp [writeAll]
    rw [hwhole, tokensFrom, ← byteLength_append, List.forall_mem_cons] at h
    obtain ⟨hpiece, hpieces⟩ := h
    obtain ⟨front, back, hsplit, hp, hends⟩ := Token.standsIn_iff.1 hpiece
    have hsame : before ++ piece.gap ++ (piece.text ++ (writeAll pieces ++ trailing)) =
        front ++ (piece.text ++ back) := by
      simpa [token, written] using hsplit
    have hbytes : byteLength (before ++ piece.gap) = byteLength front := by
      rw [hp, byteLength_append]
      rfl
    obtain ⟨-, hback⟩ := append_inj_of_byteLength hsame hbytes
    rw [← List.append_cancel_left hback] at hends
    refine List.isChain_cons.2 ⟨fun next hnext hk => ?_, ih _ hpieces⟩
    exact (endsIdentifier_writeAll_iff pieces htrailing).1 (hends hk) next hnext

theorem Lossless.of_spells {text : String} {us : List Token} (h : Spells 0 text.toList us) :
    Lossless text (us ++ [.atEnd text.utf8ByteSize]) where
  atEnd := ⟨us, rfl, fun t ht => (h.lexeme_of_mem t ht).kind_ne_endOfInput⟩
  lexeme := by
    intro t ht hkind
    rcases List.mem_append.1 ht with ht | ht
    · have hl := h.lexeme_of_mem t ht
      obtain ⟨c, cs, htext, -⟩ := hl.isWhiteSpace_head
      exact ⟨fun hempty => by simp [hempty] at htext, hl⟩
    · obtain rfl := List.mem_singleton.1 ht
      exact absurd rfl hkind
  standsIn := by
    intro t ht
    rcases List.mem_append.1 ht with ht | ht
    · obtain ⟨before, after, htext, hp, hends⟩ := h.standsIn t ht
      rw [Nat.zero_add] at hp
      exact Token.standsIn_iff.2 ⟨before, after, htext, hp, hends⟩
    · obtain rfl := List.mem_singleton.1 ht
      exact ⟨text, "", by simp [Token.atEnd], rfl, by simp [Token.atEnd]⟩
  ordered := by
    refine List.pairwise_append.2 ⟨h.ordered, List.pairwise_singleton _ _, fun t ht u hu => ?_⟩
    obtain rfl := List.mem_singleton.1 hu
    have hlt := (h.lexeme_of_mem t ht).position_lt_stop
    have hle := (h.bounds t ht).2
    rw [Nat.zero_add, byteLength_toList] at hle
    exact ⟨Nat.lt_of_lt_of_le hlt hle, hle⟩
  layout := by
    obtain ⟨pieces, trailing, htrailing, htext, rfl⟩ := h.exists_pieces
    have hlayout : (⟨pieces, trailing, htrailing⟩ : Layout).text = text := by
      rw [Layout.text, ← htext, String.ofList_toList]
    exact ⟨⟨pieces, trailing, htrailing⟩, hlayout, by rw [Layout.tokens, hlayout]⟩

/-- Lexing loses nothing, and no other tokens than its own come from the text without a loss. -/
theorem tokenize_eq_ok_iff_lossless (text : String) (ts : List Token) :
    tokenize text = .ok ts ↔ Lossless text ts := by
  rw [tokenize_eq_ok_iff_spells]
  constructor
  · rintro ⟨us, hus, rfl⟩
    exact .of_spells hus
  · intro h
    obtain ⟨l, rfl, rfl⟩ := h.layout
    have hchain : l.pieces.IsChain Piece.Apart :=
      Piece.isChain_of_standsIn l.pieces [] l.blank fun t ht =>
        h.standsIn t (List.mem_append_left _ ht)
    refine ⟨Piece.tokensFrom 0 l.pieces, ?_, rfl⟩
    rw [Layout.text, String.toList_ofList]
    exact (Piece.spells_iff_isChain l.pieces l.blank).2 hchain

end LambdaCalculus
