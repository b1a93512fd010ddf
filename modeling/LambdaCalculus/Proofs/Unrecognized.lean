import LambdaCalculus.Data.List
import LambdaCalculus.Proofs.Tokenizing

namespace LambdaCalculus

/-- Behind `before`, the character can be neither in a token nor between two: it is of no use
anywhere, or it is a digit that begins a run of letters and digits. -/
def IsBad (before : List Char) (c : Char) : Prop :=
  (Text.isWhiteSpace c = false ∧ c ∉ ['λ', '.', '(', ')'] ∧ c.isAlphanum = false) ∨
    (c.isDigit = true ∧ ∀ d ∈ before.getLast?, d.isAlphanum = false)

def BadAt (text before : List Char) (c : Char) : Prop :=
  (∃ after, text = before ++ c :: after) ∧ IsBad before c

def FirstBad (text before : List Char) (c : Char) : Prop :=
  BadAt text before c ∧ ∀ before' c', BadAt text before' c' → before.length ≤ before'.length

def Clean (text : List Char) : Prop := ∀ before c, ¬ BadAt text before c

variable {text before after front rest : List Char} {c : Char}

theorem IsBad.of_append (h : IsBad (front ++ before) c) : IsBad before c := by
  refine h.imp_right fun ⟨hdigit, hlast⟩ => ⟨hdigit, fun d hd => hlast d ?_⟩
  rw [List.getLast?_append, Option.mem_def.1 hd]
  rfl

/-- More text in front matters only to a digit that would begin the text without it. -/
theorem IsBad.append (h : IsBad before c)
    (hfront : before = [] → c.isDigit = true → ∀ d ∈ front.getLast?, d.isAlphanum = false) :
    IsBad (front ++ before) c := by
  refine h.imp_right fun ⟨hdigit, hlast⟩ => ⟨hdigit, fun d hd => ?_⟩
  rw [List.getLast?_append] at hd
  cases hb : before.getLast? with
  | none =>
    rw [hb] at hd
    exact hfront (List.getLast?_eq_none_iff.1 hb) hdigit d hd
  | some b =>
    rw [hb] at hd
    exact hlast d (hb ▸ hd)

theorem not_isBad_of_isAlphanum {d : Char} (hc : c.isAlphanum = true)
    (hlast : before.getLast? = some d) (hd : d.isAlphanum = true) : ¬ IsBad before c := by
  rintro (⟨-, -, ha⟩ | ⟨-, hnone⟩)
  · simp [ha] at hc
  · simp [hnone d hlast] at hd

namespace Clean

theorem nil : Clean [] := by
  rintro before c ⟨⟨after, h⟩, -⟩
  simp at h

theorem append (h : Clean front) (hrest : Clean rest) : Clean (front ++ rest) := by
  rintro before c ⟨⟨after, hsplit⟩, hbad⟩
  rcases append_eq_append_cons hsplit with ⟨m, rfl, hm⟩ | ⟨m, hm⟩
  · exact hrest m c ⟨⟨after, hm⟩, hbad.of_append⟩
  · exact h before c ⟨⟨m, hm⟩, hbad⟩

theorem singleton (hc : Text.isWhiteSpace c = true ∨ c ∈ ['λ', '.', '(', ')'])
    (hdigit : c.isDigit = false) : Clean [c] := by
  rintro before d ⟨⟨after, h⟩, hbad⟩
  obtain ⟨rfl, rfl⟩ : before = [] ∧ d = c := by
    cases before with
    | nil => exact ⟨rfl, (List.cons.inj h).1.symm⟩
    | cons b before => simp at h
  rcases hbad with ⟨hspace, hglyph, -⟩ | ⟨hd, -⟩
  · rcases hc with hc | hc
    · simp [hc] at hspace
    · exact hglyph hc
  · simp [hd] at hdigit

theorem space (h : Text.isWhiteSpace c = true) : Clean [c] := by
  have ha := Text.isAlphanum_of_isWhiteSpace h
  exact singleton (.inl h) (Bool.or_eq_false_iff.1 ha).2

theorem identifier (h : IsIdentifier text) : Clean text := by
  obtain ⟨c, cs, rfl, hc, hcs⟩ := h
  have halnum : ∀ d ∈ c :: cs, d.isAlphanum = true := by
    simpa [Char.isAlphanum, hc] using hcs
  rintro before d ⟨⟨after, hsplit⟩, hbad⟩
  have hd : d.isAlphanum = true := halnum d (by simp [hsplit])
  cases hlast : before.getLast? with
  | none =>
    rw [List.getLast?_eq_none_iff] at hlast
    subst hlast
    obtain ⟨rfl, rfl⟩ := List.cons.inj hsplit
    rcases hbad with ⟨-, -, ha⟩ | ⟨hdigit, -⟩
    · simp [ha] at hd
    · simp [Text.isDigit_of_isAlpha hc] at hdigit
  | some b =>
    have hb : b ∈ before := List.mem_of_getLast? hlast
    exact not_isBad_of_isAlphanum hd hlast (halnum b (by simp [hsplit, hb])) hbad

end Clean

theorem Lexeme.clean {kind : TokenKind} (h : Lexeme kind text) : Clean text := by
  cases h with
  | identifier h => exact .identifier h
  | lambda | dot | openParen | closeParen => exact .singleton (.inr (by simp)) (by decide)

theorem Spells.clean {p : Nat} {ts : List Token} (h : Spells p text ts) : Clean text := by
  induction h with
  | nil p => exact .nil
  | space hc _ ih => exact (Clean.space hc).append ih
  | lexeme ht _ _ ih => exact ht.clean.append ih

theorem Lexes.of_error {p q : Nat} {s : TokenStream} (h : Lexes p text s)
    (hs : s.ending = .error (.unrecognizedCharacter c q)) :
    ∃ before after, text = before ++ c :: after ∧ q = p + byteLength before ∧ IsBad before c ∧
      Spells p before s.tokens := by
  induction h with
  | atEnd p => cases hs
  | @space p d rest s hd _ ih =>
    obtain ⟨before, after, rfl, rfl, hbad, hspells⟩ := ih hs
    refine ⟨d :: before, after, rfl, ?_, ?_, .space hd hspells⟩
    · rw [byteLength_cons, Nat.add_assoc]
    · have halnum : ∀ b ∈ [d].getLast?, b.isAlphanum = false := by
        simpa using Text.isAlphanum_of_isWhiteSpace hd
      exact hbad.append fun _ _ => halnum
  | @lexeme p kind text rest s ht hr _ ih =>
    obtain ⟨before, after, rfl, rfl, hbad, hspells⟩ := ih hs
    refine ⟨text ++ before, after, by simp, ?_, ?_, .lexeme ht ?_ hspells⟩
    · rw [byteLength_append, Nat.add_assoc]
    · refine hbad.append fun hbefore hdigit => ?_
      subst hbefore
      cases ht with
      -- a digit behind an identifier would have been read as part of it
      | identifier h =>
        have hc := hr rfl c rfl
        simp [Char.isAlphanum, hdigit] at hc
      | lambda | dot | openParen | closeParen => simp
    · intro hk
      cases before with
      | nil => exact .nil
      | cons d before => exact hr hk
  | @bad p d rest hd hnone =>
    cases hs
    refine ⟨[], rest, rfl, rfl, ?_, .nil _⟩
    obtain ⟨hglyph, ha⟩ := Token.Rule.longest_all_eq_none_iff.1 hnone
    cases hdigit : c.isDigit with
    | true => exact .inr ⟨hdigit, by simp⟩
    | false => exact .inl ⟨hd, hglyph, by simp [Char.isAlphanum, ha, hdigit]⟩

theorem FirstBad.of_split (hbad : IsBad before c) (hclean : Clean before)
    (h : text = before ++ c :: after) : FirstBad text before c := by
  refine ⟨⟨⟨after, h⟩, hbad⟩, fun before' c' ⟨⟨after', h'⟩, hbad'⟩ => ?_⟩
  rcases append_eq_append_cons (h.symm.trans h') with ⟨m, rfl, -⟩ | ⟨m, hm⟩
  · simp
  · exact absurd ⟨⟨m, hm⟩, hbad'⟩ (hclean before' c')

theorem FirstBad.unique {before' : List Char} {c' : Char} (h : FirstBad text before c)
    (h' : FirstBad text before' c') : before' = before ∧ c' = c := by
  obtain ⟨⟨after, hsplit⟩, -⟩ := h.1
  obtain ⟨⟨after', hsplit'⟩, -⟩ := h'.1
  have hlength := Nat.le_antisymm (h'.2 _ _ h.1) (h.2 _ _ h'.1)
  obtain ⟨hbefore, hrest⟩ := List.append_inj (hsplit'.symm.trans hsplit) hlength
  exact ⟨hbefore, (List.cons.inj hrest).1⟩

theorem clean_of_tokenize {text : String} {ts : List Token} (h : tokenize text = .ok ts) :
    Clean text.toList := by
  obtain ⟨us, hus, -⟩ := tokenize_eq_ok_iff_spells.1 h
  exact hus.clean

theorem firstBad_of_tokenize {text : String} {c : Char} {q : Nat}
    (h : tokenize text = .error (.unrecognizedCharacter c q)) :
    ∃ before, FirstBad text.toList before c ∧ q = (String.ofList before).utf8ByteSize := by
  obtain ⟨before, after, htext, rfl, hbad, hspells⟩ :=
    (Lexes.ofText text).of_error (tokenize_eq_error.1 h)
  refine ⟨before, .of_split hbad hspells.clean htext, ?_⟩
  rw [byteLength_ofList, Nat.zero_add]

theorem exists_tokenize_of_clean {text : String} (h : Clean text.toList) :
    ∃ ts, tokenize text = .ok ts := by
  cases hts : tokenize text with
  | ok ts => exact ⟨ts, rfl⟩
  | error e =>
    obtain ⟨c, q⟩ := e
    obtain ⟨before, hfirst, -⟩ := firstBad_of_tokenize hts
    exact absurd hfirst.1 (h before c)

/-- Lexing fails exactly on the texts that hold a bad character, and reports the first one. -/
theorem tokenize_eq_error_iff_firstBad (text : String) :
    ((∃ e, tokenize text = .error e) ↔ ∃ before c, BadAt text.toList before c) ∧
      ∀ e, tokenize text = .error e ↔ ∃ before c, FirstBad text.toList before c ∧
        e = .unrecognizedCharacter c (String.ofList before).utf8ByteSize := by
  have hfail : (∃ e, tokenize text = .error e) ↔ ∃ before c, BadAt text.toList before c := by
    constructor
    · rintro ⟨⟨c, q⟩, h⟩
      obtain ⟨before, hfirst, -⟩ := firstBad_of_tokenize h
      exact ⟨before, c, hfirst.1⟩
    · rintro ⟨before, c, hbad⟩
      cases h : tokenize text with
      | ok ts => exact absurd hbad (clean_of_tokenize h before c)
      | error e => exact ⟨e, rfl⟩
  refine ⟨hfail, fun e => ⟨fun h => ?_, ?_⟩⟩
  · obtain ⟨c, q⟩ := e
    obtain ⟨before, hfirst, rfl⟩ := firstBad_of_tokenize h
    exact ⟨before, c, hfirst, rfl⟩
  · rintro ⟨before, c, hfirst, rfl⟩
    obtain ⟨⟨c', q⟩, h⟩ := hfail.2 ⟨before, c, hfirst.1⟩
    obtain ⟨before', hfirst', rfl⟩ := firstBad_of_tokenize h
    obtain ⟨rfl, rfl⟩ := hfirst.unique hfirst'
    exact h

example : tokenize "λx2. x2 2x" = .error (.unrecognizedCharacter '2' 9) := by decide +kernel

end LambdaCalculus
