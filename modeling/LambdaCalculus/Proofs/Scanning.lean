import LambdaCalculus.Token.Cursor
import LambdaCalculus.Token.Lexeme
import Mathlib.Data.List.TakeWhile
import Mathlib.Tactic.Common

namespace LambdaCalculus

def EndsIdentifier (text : List Char) : Prop := ∀ c ∈ text.head?, c.isAlphanum = false

theorem EndsIdentifier.nil : EndsIdentifier [] := by simp [EndsIdentifier]

theorem EndsIdentifier.cons {c : Char} (text : List Char) (h : c.isAlphanum = false) :
    EndsIdentifier (c :: text) := by
  simpa [EndsIdentifier] using h

theorem EndsIdentifier.append {text rest : List Char} (h : EndsIdentifier text)
    (hrest : EndsIdentifier rest) : EndsIdentifier (text ++ rest) := by
  cases text with
  | nil => exact hrest
  | cons c text => exact h

theorem Text.toNat_of_isAlpha {c : Char} (h : c.isAlpha = true) :
    (65 ≤ c.toNat ∧ c.toNat ≤ 90) ∨ (97 ≤ c.toNat ∧ c.toNat ≤ 122) := by
  rcases Bool.or_eq_true_iff.1 h with hu | hl
  · exact .inl (of_decide_eq_true hu)
  · obtain ⟨hlo, hhi⟩ := Bool.and_eq_true_iff.1 hl
    exact .inr ⟨of_decide_eq_true hlo, of_decide_eq_true hhi⟩

theorem Text.toNat_of_isDigit {c : Char} (h : c.isDigit = true) :
    48 ≤ c.toNat ∧ c.toNat ≤ 57 := by
  obtain ⟨hlo, hhi⟩ := Bool.and_eq_true_iff.1 h
  exact ⟨of_decide_eq_true hlo, of_decide_eq_true hhi⟩

theorem Text.isDigit_of_isAlpha {c : Char} (h : c.isAlpha = true) : c.isDigit = false := by
  by_contra hd
  have hdigit := Text.toNat_of_isDigit (Bool.not_eq_false _ ▸ hd)
  have halpha := Text.toNat_of_isAlpha h
  omega

theorem Text.isWhiteSpace_of_isAlphanum {c : Char} (h : c.isAlphanum = true) :
    Text.isWhiteSpace c = false := by
  by_contra hw
  rw [Bool.not_eq_false, Text.isWhiteSpace, Text.CodePoints.contains_iff] at hw
  obtain ⟨r, hr, hlo, hhi⟩ := hw
  have hn := (Bool.or_eq_true_iff.1 h).imp Text.toNat_of_isAlpha Text.toNat_of_isDigit
  simp only [Text.whiteSpace, List.mem_cons, List.not_mem_nil, or_false] at hr
  rcases hr with rfl | rfl | rfl | rfl | rfl | rfl | rfl | rfl | rfl | rfl <;> omega

theorem Text.isAlphanum_of_isWhiteSpace {c : Char} (h : Text.isWhiteSpace c = true) :
    c.isAlphanum = false := by
  by_contra ha
  rw [Text.isWhiteSpace_of_isAlphanum (Bool.not_eq_false _ ▸ ha)] at h
  cases h

namespace Token.Rule

theorem longest_all_cons (c : Char) (cs : List Char) :
    longest all (c :: cs) =
      if c = 'λ' then some (.lambda, ['λ'])
      else if c.isAlpha then some (.identifier, c :: cs.takeWhile Char.isAlphanum)
      else if c = '.' then some (.dot, ['.'])
      else if c = '(' then some (.openParen, ['('])
      else if c = ')' then some (.closeParen, [')'])
      else none := by
  have hnone : cs.takeWhile (fun _ => false) = [] := by cases cs <;> rfl
  simp only [longest, all, List.foldl_cons, List.foldl_nil, longer, lexeme?, single, hnone,
    beq_iff_eq]
  by_cases hl : c = 'λ'
  · subst hl
    simp [show Char.isAlpha 'λ' = false by decide]
  · by_cases ha : c.isAlpha = true
    · have hd : c ≠ '.' := by rintro rfl; revert ha; decide
      have ho : c ≠ '(' := by rintro rfl; revert ha; decide
      have hc : c ≠ ')' := by rintro rfl; revert ha; decide
      simp [hl, ha, hd, ho, hc]
    · by_cases hd : c = '.'
      · subst hd; simp [ha]
      · by_cases ho : c = '('
        · subst ho; simp [ha]
        · by_cases hc : c = ')'
          · subst hc; simp [ha]
          · simp [hl, ha, hd, ho, hc]

theorem longest_all_eq_none_iff {c : Char} {cs : List Char} :
    longest all (c :: cs) = none ↔ c ∉ ['λ', '.', '(', ')'] ∧ c.isAlpha = false := by
  rw [longest_all_cons]
  grind

end Token.Rule

theorem Lexeme.longest_append {kind : TokenKind} {text rest : List Char} (h : Lexeme kind text)
    (hr : kind = .identifier → EndsIdentifier rest) :
    Token.Rule.longest Token.Rule.all (text ++ rest) = some (kind, text) := by
  cases h with
  | identifier ht =>
    obtain ⟨c, cs, rfl, hc, hcs⟩ := ht
    have hl : c ≠ 'λ' := by rintro rfl; revert hc; decide
    have hcut : (cs ++ rest).takeWhile Char.isAlphanum = cs := by
      rw [List.takeWhile_append_of_pos hcs]
      cases rest with
      | nil => simp
      | cons d ds => simp [hr rfl d rfl]
    rw [List.cons_append, Token.Rule.longest_all_cons, if_neg hl, if_pos hc, hcut]
  | lambda | dot | openParen | closeParen =>
    rw [List.cons_append, Token.Rule.longest_all_cons]
    rfl

theorem Lexeme.of_longest {kind : TokenKind} {input text : List Char}
    (h : Token.Rule.longest Token.Rule.all input = some (kind, text)) :
    Lexeme kind text ∧ ∃ rest, input = text ++ rest ∧
      (kind = .identifier → EndsIdentifier rest) := by
  cases input with
  | nil => cases h
  | cons c cs =>
    rw [Token.Rule.longest_all_cons] at h
    split at h
    · rename_i hl
      cases h
      exact ⟨.lambda, cs, by simp [hl], by simp⟩
    · split at h
      · rename_i ha
        cases h
        refine ⟨.identifier ⟨c, _, rfl, ha, fun d hd => List.mem_takeWhile_imp hd⟩,
          cs.dropWhile Char.isAlphanum, by simp, fun _ d hd => ?_⟩
        have hh := List.head?_dropWhile_not Char.isAlphanum cs
        rw [Option.mem_def.1 hd] at hh
        exact hh
      · split at h
        · rename_i hd
          cases h
          exact ⟨.dot, cs, by simp [hd], by simp⟩
        · split at h
          · rename_i ho
            cases h
            exact ⟨.openParen, cs, by simp [ho], by simp⟩
          · split at h
            · rename_i hc
              cases h
              exact ⟨.closeParen, cs, by simp [hc], by simp⟩
            · cases h

theorem Lexeme.isWhiteSpace_head {kind : TokenKind} {text : List Char} (h : Lexeme kind text) :
    ∃ c cs, text = c :: cs ∧ Text.isWhiteSpace c = false := by
  cases h with
  | identifier ht =>
    obtain ⟨c, cs, rfl, hc, _⟩ := ht
    exact ⟨c, cs, rfl, Text.isWhiteSpace_of_isAlphanum (by simp [Char.isAlphanum, hc])⟩
  | lambda | dot | openParen | closeParen => exact ⟨_, _, rfl, by decide⟩

theorem Lexeme.kind_ne_endOfInput {kind : TokenKind} {text : List Char} (h : Lexeme kind text) :
    kind ≠ .endOfInput := by
  cases h <;> decide

namespace Cursor

inductive Scans : Cursor → Except LexError Token × Cursor → Prop where
  | space {p : Nat} {c : Char} {rest : List Char} {answer : Except LexError Token × Cursor} :
      Text.isWhiteSpace c = true → Scans ⟨p + c.utf8Size, rest⟩ answer → Scans ⟨p, c :: rest⟩ answer
  | atEnd (p : Nat) : Scans ⟨p, []⟩ (.ok (.atEnd p), ⟨p, []⟩)
  | lexeme (p : Nat) {kind : TokenKind} {text rest : List Char} : Lexeme kind text →
      (kind = .identifier → EndsIdentifier rest) →
      Scans ⟨p, text ++ rest⟩
        (.ok ⟨kind, String.ofList text, p⟩, ⟨p + byteLength text, rest⟩)
  | bad (p : Nat) {c : Char} {rest : List Char} : Text.isWhiteSpace c = false →
      Token.Rule.longest Token.Rule.all (c :: rest) = none →
      Scans ⟨p, c :: rest⟩ (.error (.unrecognizedCharacter c p), ⟨p, c :: rest⟩)

@[simp]
theorem advance_zero (c : Cursor) : c.advance 0 = c := rfl

theorem advance_cons (p : Nat) (c : Char) (rest : List Char) (count : Nat) :
    (⟨p, c :: rest⟩ : Cursor).advance (count + 1) =
      (⟨p + c.utf8Size, rest⟩ : Cursor).advance count := by
  simp [advance, byteLength, Nat.add_assoc]

@[simp]
theorem advance_append (p : Nat) (text rest : List Char) :
    (⟨p, text ++ rest⟩ : Cursor).advance text.length = ⟨p + byteLength text, rest⟩ := by
  simp [advance]

theorem skipSpace_of_not {p : Nat} {c : Char} {rest : List Char}
    (h : Text.isWhiteSpace c = false) :
    (⟨p, c :: rest⟩ : Cursor).skipSpace = ⟨p, c :: rest⟩ := by
  simp [skipSpace, h]

theorem scan_space {p : Nat} {c : Char} {rest : List Char} (h : Text.isWhiteSpace c = true) :
    (⟨p, c :: rest⟩ : Cursor).scan = (⟨p + c.utf8Size, rest⟩ : Cursor).scan := by
  have hs : (⟨p, c :: rest⟩ : Cursor).skipSpace = (⟨p + c.utf8Size, rest⟩ : Cursor).skipSpace := by
    simp [skipSpace, h, advance_cons]
  unfold scan
  rw [hs]

theorem scan_eq_of_scans {c : Cursor} {answer : Except LexError Token × Cursor}
    (h : Scans c answer) : c.scan = answer := by
  induction h with
  | space hw _ ih => rw [scan_space hw, ih]
  | atEnd p => rfl
  | @lexeme p kind text rest ht hr =>
    have hlongest := ht.longest_append hr
    obtain ⟨c, cs, rfl, hc⟩ := ht.isWhiteSpace_head
    rw [List.cons_append] at hlongest ⊢
    simp only [scan, skipSpace_of_not hc, hlongest]
    rw [← List.cons_append, advance_append]
  | bad p hc hnone => simp only [scan, skipSpace_of_not hc, hnone]

theorem scans_scan (c : Cursor) : Scans c c.scan := by
  obtain ⟨p, rest⟩ := c
  induction rest generalizing p with
  | nil => exact .atEnd p
  | cons c rest ih =>
    cases hc : Text.isWhiteSpace c with
    | true =>
      rw [scan_space hc]
      exact .space hc (ih _)
    | false =>
      cases hl : Token.Rule.longest Token.Rule.all (c :: rest) with
      | none =>
        have hs := Scans.bad p hc hl
        rwa [scan_eq_of_scans hs]
      | some found =>
        obtain ⟨ht, after, hsplit, hr⟩ := Lexeme.of_longest hl
        have hs := Scans.lexeme p ht hr
        rw [← hsplit] at hs
        rwa [scan_eq_of_scans hs]

end Cursor

end LambdaCalculus
