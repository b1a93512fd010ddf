import LambdaCalculus.Proofs.Unrecognized
import LambdaCalculus.Token.Layout

namespace LambdaCalculus

variable {p : Nat} {gap text rest : List Char} {ts : List Token} {kind : TokenKind}

theorem Lexeme.not_isWhiteSpace (h : Lexeme kind text) {c : Char} {cs after : List Char}
    (hsplit : c :: cs = text ++ after) : Text.isWhiteSpace c = false := by
  obtain ⟨d, ds, rfl, hd⟩ := h.isWhiteSpace_head
  obtain ⟨rfl, -⟩ := List.cons.inj hsplit
  exact hd

theorem spells_space_iff {c : Char} (hc : Text.isWhiteSpace c = true) :
    Spells p (c :: rest) ts ↔ Spells (p + c.utf8Size) rest ts := by
  refine ⟨fun h => ?_, .space hc⟩
  generalize hwhole : c :: rest = whole at h
  cases h with
  | nil => cases hwhole
  | space _ h => cases hwhole; exact h
  | lexeme ht _ _ => simp [ht.not_isWhiteSpace hwhole] at hc

theorem spells_blank_iff (hgap : Text.Blank gap) :
    Spells p (gap ++ rest) ts ↔ Spells (p + byteLength gap) rest ts := by
  induction gap generalizing p with
  | nil => rfl
  | cons c gap ih =>
    rw [List.cons_append, spells_space_iff (hgap c List.mem_cons_self),
      ih fun d hd => hgap d (List.mem_cons_of_mem c hd), byteLength_cons, Nat.add_assoc]

theorem spells_lexeme_iff (ht : Lexeme kind text) :
    Spells p (text ++ rest) (⟨kind, String.ofList text, p⟩ :: ts) ↔
      (kind = .identifier → EndsIdentifier rest) ∧ Spells (p + byteLength text) rest ts := by
  refine ⟨fun h => ?_, fun ⟨hr, hrest⟩ => .lexeme ht hr hrest⟩
  generalize hwhole : text ++ rest = whole at h
  generalize hus : (⟨kind, String.ofList text, p⟩ : Token) :: ts = us at h
  cases h with
  | nil => cases hus
  | space hc _ => simp [ht.not_isWhiteSpace hwhole.symm] at hc
  | @lexeme _ _ text' _ _ _ hr hrest =>
    simp only [List.cons.injEq, Token.mk.injEq, String.ofList_inj] at hus
    obtain ⟨⟨rfl, rfl, -⟩, rfl⟩ := hus
    obtain rfl := List.append_cancel_left hwhole
    exact ⟨hr, hrest⟩

theorem Lexeme.endsIdentifier_append_iff (h : Lexeme kind text) :
    EndsIdentifier (text ++ rest) ↔ kind ≠ .identifier := by
  cases h with
  | identifier h =>
    obtain ⟨c, cs, rfl, hc, -⟩ := h
    simp [EndsIdentifier, Char.isAlphanum, hc]
  | lambda | dot | openParen | closeParen => simp [EndsIdentifier]

theorem Text.Blank.endsIdentifier_append (h : Text.Blank gap) (hrest : EndsIdentifier rest) :
    EndsIdentifier (gap ++ rest) := by
  cases gap with
  | nil => exact hrest
  | cons c gap => exact .cons _ (Text.isAlphanum_of_isWhiteSpace (h c List.mem_cons_self))

theorem Text.Blank.clean (h : Text.Blank gap) : Clean gap := by
  induction gap with
  | nil => exact .nil
  | cons c gap ih =>
    have hgap := ih fun d hd => h d (List.mem_cons_of_mem c hd)
    exact (Clean.space (h c List.mem_cons_self)).append hgap

namespace Piece

variable {trailing : List Char}

theorem endsIdentifier_written_iff (piece : Piece) :
    EndsIdentifier (piece.written ++ rest) ↔ (piece.kind = .identifier → piece.gap ≠ []) := by
  rw [written, List.append_assoc]
  cases hgap : piece.gap with
  | nil =>
    rw [List.nil_append, piece.lexeme.endsIdentifier_append_iff]
    simp
  | cons c gap =>
    have hc := piece.blank c (by simp [hgap])
    have hends : EndsIdentifier (c :: (gap ++ (piece.text ++ rest))) :=
      .cons _ (Text.isAlphanum_of_isWhiteSpace hc)
    simp [hends]

theorem endsIdentifier_writeAll_iff (pieces : List Piece) (htrailing : Text.Blank trailing) :
    EndsIdentifier (writeAll pieces ++ trailing) ↔
      ∀ next ∈ pieces.head?, next.kind = .identifier → next.gap ≠ [] := by
  cases pieces with
  | nil => simpa [writeAll] using htrailing.endsIdentifier_append .nil
  | cons piece pieces =>
    rw [writeAll, List.flatMap_cons, List.append_assoc, endsIdentifier_written_iff]
    simp

theorem spells_cons_iff (piece : Piece) :
    Spells p (piece.written ++ rest) (piece.token p :: ts) ↔
      (piece.kind = .identifier → EndsIdentifier rest) ∧
        Spells (p + byteLength piece.written) rest ts := by
  rw [written, List.append_assoc, spells_blank_iff piece.blank, byteLength_append, ← Nat.add_assoc]
  exact spells_lexeme_iff piece.lexeme

/-- The pieces are read as they were written as long as no two identifiers run into one. -/
theorem spells_iff_isChain (pieces : List Piece) (htrailing : Text.Blank trailing) :
    Spells p (writeAll pieces ++ trailing) (tokensFrom p pieces) ↔ pieces.IsChain Apart := by
  induction pieces generalizing p with
  | nil =>
    have hempty : Spells (p + byteLength trailing) [] [] := .nil _
    rw [← spells_blank_iff htrailing, List.append_nil] at hempty
    simpa [writeAll, tokensFrom] using hempty
  | cons piece pieces ih =>
    have hends := endsIdentifier_writeAll_iff pieces htrailing
    rw [writeAll, List.flatMap_cons, List.append_assoc, tokensFrom, spells_cons_iff, ← writeAll,
      ih, hends, List.isChain_cons]
    exact and_congr_left fun _ =>
      ⟨fun h next hnext hk => h hk next hnext, fun h hk next hnext => h next hnext hk⟩

theorem clean_writeAll (pieces : List Piece) : Clean (writeAll pieces) := by
  induction pieces with
  | nil => exact .nil
  | cons piece pieces ih =>
    rw [writeAll, List.flatMap_cons]
    exact (piece.blank.clean.append piece.lexeme.clean).append ih

end Piece

/-- Lexemes with white space around them can always be read. They are read as they were written
exactly when no two identifiers run into one. -/
theorem tokenize_layout (l : Layout) :
    (∃ ts, tokenize l.text = .ok ts) ∧ (tokenize l.text = .ok l.tokens ↔ l.Separated) := by
  have htext : l.text.toList = Piece.writeAll l.pieces ++ l.trailing := String.toList_ofList
  constructor
  · apply exists_tokenize_of_clean
    rw [htext]
    exact (Piece.clean_writeAll l.pieces).append l.blank.clean
  · have hspells := Piece.spells_iff_isChain (p := 0) l.pieces l.blank
    rw [tokenize_eq_ok_iff_spells, htext, Layout.Separated, ← hspells]
    constructor
    · rintro ⟨us, hus, htokens⟩
      rwa [List.append_cancel_right htokens]
    · intro h
      exact ⟨_, h, rfl⟩

end LambdaCalculus
