import LambdaCalculus.Proofs.CallSequence
import LambdaCalculus.Proofs.EagerReading
import LambdaCalculus.Proofs.Lossless
import Mathlib.Data.List.Nodup

namespace LambdaCalculus

namespace TokenStream

theorem peek_drop (s : TokenStream) (n : Nat) :
    (s.drop n).peek = (s.get n).map fun t => (t, s.drop n) := by
  rw [peek, next_drop]
  cases s.get n <;> rfl

/-- A parser treats two streams alike if their elements are equal but for the positions, one by
one. -/
theorem simulates_drop {P : Nat → Nat → Prop} {s u : TokenStream}
    (h : ∀ n, Alike (· = ·) (Token.Similar P) (s.get n) (u.get n)) :
    Parser.Simulates P fun a b => ∃ n, a = s.drop n ∧ b = u.drop n where
  next := by
    rintro _ _ ⟨n, rfl, rfl⟩
    change Alike _ _ (s.drop n).next (u.drop n).next
    rw [next_drop, next_drop]
    exact (h n).map fun a b hab => ⟨hab, n + 1, rfl, rfl⟩
  peek := by
    rintro _ _ ⟨n, rfl, rfl⟩
    change Alike _ _ (s.drop n).peek (u.drop n).peek
    rw [peek_drop, peek_drop]
    exact (h n).map fun a b hab => ⟨hab, n, rfl, rfl⟩

theorem get_prepend_length (s : TokenStream) (us : List Token) :
    (s.prepend us).get us.length = s.get 0 := by
  rw [get, prepend, List.getElem?_append_right (Nat.le_refl _), Nat.sub_self]
  rfl

end TokenStream

variable {text : String} {ts us : List Token}

theorem get_of_tokenize (h : tokenize text = .ok ts) (n : Nat) :
    ∃ t, (TokenStream.ofText text).get n = .ok t ∧ ts[min n (ts.length - 1)]? = some t := by
  obtain ⟨position, hend, rfl⟩ := tokenize_eq_ok.1 h
  rw [TokenStream.get, hend, List.length_append, List.length_singleton, Nat.add_sub_cancel]
  cases hn : (TokenStream.ofText text).tokens[n]? with
  | some t =>
    have hlt := (List.getElem?_eq_some_iff.1 hn).1
    rw [Nat.min_eq_left (Nat.le_of_lt hlt), List.getElem?_append_left hlt]
    exact ⟨t, rfl, hn⟩
  | none =>
    rw [Nat.min_eq_right (List.getElem?_eq_none_iff.1 hn)]
    exact ⟨.atEnd position, rfl, by simp⟩

theorem eq_of_position_eq (h : tokenize text = .ok ts) {t u : Token} (ht : t ∈ ts) (hu : u ∈ ts)
    (hp : t.position = u.position) : t = u := by
  obtain ⟨us, hus, rfl⟩ := tokenize_eq_ok_iff_spells.1 h
  have hordered := (Lossless.of_spells hus).ordered
  have hnodup : ((us ++ [Token.atEnd text.utf8ByteSize]).map Token.position).Nodup :=
    List.pairwise_map.2 (hordered.imp fun hlt => Nat.ne_of_lt hlt.1)
  exact List.inj_on_of_nodup_map hnodup ht hu hp

theorem exists_token_of_parse_error (hts : tokenize text = .ok ts) {e : ParseError}
    (h : parse text = .error e) :
    ∃ expected, ∃ t ∈ ts, e = .unexpected expected t.kind t.position := by
  obtain ⟨us, s, hs, hraise, -⟩ := parse_rejects h
  obtain ⟨u, hu, hmem⟩ := get_of_tokenize hts us.length
  rw [hs, TokenStream.get_prepend_length] at hu
  cases hraise with
  | lex hget =>
    rw [hu] at hget
    cases hget
  | unexpected expected hget _ =>
    rw [hu] at hget
    cases hget
    exact ⟨expected, _, List.mem_of_getElem? hmem, rfl⟩

theorem symbol_eq_of_map_eq (h : ts.map Token.symbol = us.map Token.symbol) {i : Nat}
    {a b : Token} (ha : ts[i]? = some a) (hb : us[i]? = some b) : a.symbol = b.symbol := by
  have hi := congrArg (·[i]?) h
  simpa [ha, hb] using hi

def SameIndex (ts us : List Token) (p q : Nat) : Prop :=
  ∃ (i : Nat) (a b : Token), ts[i]? = some a ∧ us[i]? = some b ∧ a.position = p ∧ b.position = q

theorem get_alike {s t : String} (hs : tokenize s = .ok ts) (ht : tokenize t = .ok us)
    (h : ts.map Token.symbol = us.map Token.symbol) (n : Nat) :
    Alike (· = ·) (Token.Similar (SameIndex ts us)) ((TokenStream.ofText s).get n)
      ((TokenStream.ofText t).get n) := by
  obtain ⟨a, hget, ha⟩ := get_of_tokenize hs n
  obtain ⟨b, hget', hb⟩ := get_of_tokenize ht n
  have hlength : ts.length = us.length := by simpa using congrArg List.length h
  rw [← hlength] at hb
  obtain ⟨hkind, htext⟩ := Token.symbol_eq.1 (symbol_eq_of_map_eq h ha hb)
  rw [hget, hget']
  exact .ok ⟨hkind, htext, _, a, b, ha, hb, rfl, rfl⟩

/-- Texts with the same tokens but for the positions, whatever white space stands between them, are
read as the same tree, or the parser fails on both in the same way and at the same token. -/
theorem parse_same_tokens {s t : String} {ts us : List Token} (hs : tokenize s = .ok ts)
    (ht : tokenize t = .ok us) (h : ts.map Token.symbol = us.map Token.symbol) :
    (∃ e, parse s = .ok e ∧ parse t = .ok e) ∨
    ∃ (expected : Expected) (i : Nat) (a b : Token), ts[i]? = some a ∧ us[i]? = some b ∧
      a.kind = b.kind ∧ parse s = .error (.unexpected expected a.kind a.position) ∧
      parse t = .error (.unexpected expected b.kind b.position) := by
  have halike : Alike (ParseError.Similar (SameIndex ts us)) (· = ·) (parse s) (parse t) := by
    rw [parse_eq_program, parse_eq_program]
    exact Parser.program_alike (TokenStream.simulates_drop (get_alike hs ht h)) ⟨0, rfl, rfl⟩
  generalize parse t = answer at halike ⊢
  cases hparse : parse s with
  | ok e =>
    rw [hparse] at halike
    cases halike with
    | ok he => exact .inl ⟨e, rfl, congrArg Except.ok he.symm⟩
  | error d =>
    -- The token that the error is about is known from the one run alone; that it has the same
    -- number in the other text is known from its position.
    obtain ⟨expected, c, hc, rfl⟩ := exists_token_of_parse_error hs hparse
    rw [hparse] at halike
    cases halike with
    | error hd =>
      cases hd with
      | unexpected _ _ hp =>
        obtain ⟨i, a, b, ha, hb, hac, rfl⟩ := hp
        obtain rfl := eq_of_position_eq hs (List.mem_of_getElem? ha) hc hac
        obtain ⟨hkind, -⟩ := Token.symbol_eq.1 (symbol_eq_of_map_eq h ha hb)
        exact .inr ⟨expected, i, a, b, ha, hb, hkind, rfl, by rw [hkind]⟩

theorem parse_same_tokens_missing_dot :
    let ts : List Token := [⟨.lambda, "λ", 0⟩, ⟨.identifier, "x", 2⟩, ⟨.closeParen, ")", 3⟩,
      .atEnd 4]
    let us : List Token := [⟨.lambda, "λ", 1⟩, ⟨.identifier, "x", 4⟩, ⟨.closeParen, ")", 6⟩,
      .atEnd 7]
    tokenize "λx)" = .ok ts ∧ tokenize " λ x\n)" = .ok us ∧
      ts.map Token.symbol = us.map Token.symbol ∧
      ∃ (expected : Expected) (i : Nat) (a b : Token), ts[i]? = some a ∧ us[i]? = some b ∧
        a.kind = b.kind ∧ parse "λx)" = .error (.unexpected expected a.kind a.position) ∧
        parse " λ x\n)" = .error (.unexpected expected b.kind b.position) := by
  intro ts us
  have hts : tokenize "λx)" = .ok ts := by decide +kernel
  have hus : tokenize " λ x\n)" = .ok us := by decide +kernel
  have hfails : parse "λx)" = .error (.unexpected .dot .closeParen 3) := by decide +kernel
  refine ⟨hts, hus, rfl, (parse_same_tokens hts hus rfl).resolve_left ?_⟩
  rintro ⟨e, he, -⟩
  rw [hfails] at he
  cases he

end LambdaCalculus
