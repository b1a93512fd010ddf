import LambdaCalculus.Proofs.Commands
import LambdaCalculus.Proofs.Unrecognized
import Std.Data.String.ToNat

namespace LambdaCalculus

theorem TokenKind.description_inj {k l : TokenKind} (h : k.description = l.description) :
    k = l := by
  cases k <;> cases l <;> simp_all [description]

namespace Text

theorem CodePoints.contains_eq_false {s : CodePoints} {c : Char}
    (h : ∀ r ∈ s, r.2 < 0x20 ∨ 0x7e < r.1) (hlow : 0x20 ≤ c.toNat) (hhigh : c.toNat ≤ 0x7e) :
    s.contains c = false := by
  by_contra hc
  rw [Bool.not_eq_false, contains_iff] at hc
  obtain ⟨r, hr, hfirst, hlast⟩ := hc
  rcases h r hr with hout | hout <;> omega

theorem isPrintable_of_ascii {c : Char} (hlow : 0x20 ≤ c.toNat) (hhigh : c.toNat ≤ 0x7e) :
    isPrintable c = true := by
  have hinvisible : ∀ r ∈ invisible, r.2 < 0x20 ∨ 0x7e < r.1 := by decide +kernel
  have hignorable : ∀ r ∈ defaultIgnorable, r.2 < 0x20 ∨ 0x7e < r.1 := by decide +kernel
  have hcombining : ∀ r ∈ combiningMarks, r.2 < 0x20 ∨ 0x7e < r.1 := by decide +kernel
  rw [isPrintable, CodePoints.contains_eq_false hinvisible hlow hhigh,
    CodePoints.contains_eq_false hignorable hlow hhigh,
    CodePoints.contains_eq_false hcombining hlow hhigh]
  rfl

theorem isPrintable_of_isAlphanum {c : Char} (h : c.isAlphanum = true) : isPrintable c = true := by
  rcases Bool.or_eq_true_iff.1 h with halpha | hdigit
  · have hn := toNat_of_isAlpha halpha
    exact isPrintable_of_ascii (by omega) (by omega)
  · have hn := toNat_of_isDigit hdigit
    exact isPrintable_of_ascii (by omega) (by omega)

def Quoted.Plain (text : List Char) : Prop := ∀ c ∈ text, Quoted.escape '"' c = [c]

namespace Quoted

theorem escape_of_isAlphanum {c : Char} (h : c.isAlphanum = true) : escape '"' c = [c] := by
  have hother : ¬(c = '\\' ∨ c = '"') := by
    rintro (rfl | rfl) <;> exact absurd h (by decide)
  unfold escape
  split
  · exact absurd h (by decide)
  · exact absurd h (by decide)
  · exact absurd h (by decide)
  · exact absurd h (by decide)
  · rw [if_neg hother, if_pos (isPrintable_of_isAlphanum h)]

theorem Plain.toList_quote {text : List Char} (h : Plain text) :
    (quote '"' text).toList = '"' :: (text ++ ['"']) := by
  have hflat : text.flatMap (escape '"') = text :=
    (List.flatMap_congr h).trans (List.flatMap_singleton' text)
  simp [quote, hflat]

theorem Plain.notMem {text : List Char} (h : Plain text) : '\n' ∉ text := by
  intro hn
  exact absurd (h _ hn) (by decide)

end Quoted

end Text

theorem Lexeme.plain {kind : TokenKind} {text : List Char} (h : Lexeme kind text) :
    Text.Quoted.Plain text := by
  cases h with
  | identifier ht =>
    obtain ⟨c, cs, rfl, hc, hcs⟩ := ht
    refine List.forall_mem_cons.2 ⟨?_, fun d hd => Text.Quoted.escape_of_isAlphanum (hcs d hd)⟩
    exact Text.Quoted.escape_of_isAlphanum (by simp [Char.isAlphanum, hc])
  | lambda | dot | openParen | closeParen =>
    simp only [Text.Quoted.Plain, List.mem_singleton, forall_eq]
    decide +kernel

theorem plain_of_tokenize {text : String} {ts : List Token} (h : tokenize text = .ok ts) :
    ∀ t ∈ ts, Text.Quoted.Plain t.text.toList := by
  obtain ⟨position, -, rfl⟩ := tokenize_eq_ok.1 h
  refine List.forall_mem_append.2 ⟨fun t ht => ?_, ?_⟩
  · exact (TokenStream.lexical_ofText text t ht).plain
  · simp [Token.atEnd, Text.Quoted.Plain]

namespace Analyzer

open Text.Quoted (Plain)

variable {t u : Token} {ts us : List Token}

theorem toList_tokenLine (h : Plain t.text.toList) :
    (tokenLine t).toList = t.position.repr.toList ++ ' ' ::
      (t.kind.description.toList ++ [' '] ++ '"' :: (t.text.toList ++ ['"'])) := by
  change (t.position.repr ++ " " ++ t.kind.description ++ " " ++
    Text.Quoted.quote '"' t.text.toList).toList = _
  simp [h.toList_quote]

theorem notMem_repr {c : Char} (hc : c.isDigit = false) (n : Nat) : c ∉ n.repr.toList := by
  rw [Nat.toList_repr]
  intro h
  have hdigit := Nat.isDigit_of_mem_toDigits (by decide) (by decide) h
  rw [hc] at hdigit
  cases hdigit

theorem notMem_description {c : Char} (hc : c ∈ ['"', '\n']) (k : TokenKind) :
    c ∉ k.description.toList := by
  have hmark : c = '"' ∨ c = '\n' := by simpa using hc
  rcases hmark with rfl | rfl <;> cases k <;> decide

/-- The position ends at the first space, and the kind at the first quotation mark, although a kind
may be described in several words, and in single quotation marks. -/
theorem tokenLine_inj (ht : Plain t.text.toList) (hu : Plain u.text.toList)
    (h : tokenLine t = tokenLine u) : t = u := by
  have hline := congrArg String.toList h
  rw [toList_tokenLine ht, toList_tokenLine hu] at hline
  obtain ⟨hposition, hline⟩ := append_cons_inj_of_notMem (notMem_repr (by decide) _)
    (notMem_repr (by decide) _) hline
  have hmark : ∀ k : TokenKind, '"' ∉ k.description.toList ++ [' '] := fun k => by
    simpa using notMem_description (by decide) k
  obtain ⟨hkind, htext⟩ := append_cons_inj_of_notMem (hmark _) (hmark _) hline
  obtain ⟨kind, text, position⟩ := t
  obtain ⟨kind', text', position'⟩ := u
  obtain rfl : kind = kind' :=
    TokenKind.description_inj (String.toList_injective (List.append_cancel_right hkind))
  obtain rfl : text = text' := String.toList_injective (List.append_cancel_right htext)
  obtain rfl : position = position' := Nat.repr_inj.1 (String.toList_injective hposition)
  rfl

theorem notMem_tokenLine (h : Plain t.text.toList) : '\n' ∉ (tokenLine t).toList := by
  have hposition := notMem_repr (c := '\n') (by decide) t.position
  have hkind := notMem_description (c := '\n') (by decide) t.kind
  rw [toList_tokenLine h]
  simp [-Nat.toList_repr, hposition, hkind, h.notMem]

/-- The lines end where the text is broken, because no line is broken itself. -/
theorem listTokens_inj (hts : ∀ t ∈ ts, Plain t.text.toList) (hus : ∀ u ∈ us, Plain u.text.toList)
    (hts' : ts ≠ []) (hus' : us ≠ []) (h : listTokens ts = listTokens us) : ts = us := by
  have hlines : ∀ {ts : List Token}, (∀ t ∈ ts, Plain t.text.toList) → ts ≠ [] →
      ((listTokens ts).split '\n').toList.map (·.copy) = ts.map tokenLine := by
    intro ts hts hne
    have hsplit := String.toList_split_intercalate (c := '\n') (l := ts.map tokenLine)
      (List.forall_mem_map.2 fun t ht => notMem_tokenLine (hts t ht))
    rwa [if_neg (by simpa using hne)] at hsplit
  apply map_inj_of_forall fun t ht u hu => tokenLine_inj (hts t ht) (hus u hu)
  rw [← hlines hts hts', ← hlines hus hus', h]

theorem ne_nil_of_tokenize {text : String} (h : tokenize text = .ok ts) : ts ≠ [] := by
  obtain ⟨position, -, rfl⟩ := tokenize_eq_ok.1 h
  simp

theorem listTokens_inj_of_tokenize {s t : String} (hs : tokenize s = .ok ts)
    (ht : tokenize t = .ok us) : listTokens ts = listTokens us ↔ ts = us :=
  ⟨listTokens_inj (plain_of_tokenize hs) (plain_of_tokenize ht) (ne_nil_of_tokenize hs)
    (ne_nil_of_tokenize ht), congrArg listTokens⟩

theorem parse_eq_of_tokenize_eq {s t : String} (hs : tokenize s = .ok ts)
    (ht : tokenize t = .ok ts) : parse s = parse t := by
  rw [parse_eq_program, parse_eq_program, ← ofTokens_of_tokenize hs, ofTokens_of_tokenize ht]

theorem execute_tokens_eq_ok {text output : String} : execute text .tokens = .ok output ↔
    ∃ ts, tokenize text = .ok ts ∧ listTokens ts = output := by
  rw [execute_tokens_eq, map_eq_ok_iff]
  simp only [mapError_eq_ok_iff]

/-- Two texts have the same listing exactly when they have the same tokens at the same positions,
and then they are parsed to the same tree, or to the same error at the same position. -/
theorem run_tokens_faithful {files files' : Files} {config config' : Config} {s t a b : String}
    (hs : config.Gives files s) (ht : config'.Gives files' t)
    (ha : run files { config with command := .tokens } = .ok a)
    (hb : run files' { config' with command := .tokens } = .ok b) :
    (a = b ↔ tokenize s = tokenize t) ∧ (a = b → parse s = parse t) := by
  rw [run_of_source (source_eq_ok_iff.2 hs)] at ha
  rw [run_of_source (source_eq_ok_iff.2 ht)] at hb
  obtain ⟨ts, hts, rfl⟩ := execute_tokens_eq_ok.1 ha
  obtain ⟨us, hus, rfl⟩ := execute_tokens_eq_ok.1 hb
  rw [listTokens_inj_of_tokenize hts hus]
  constructor
  · rw [hts, hus, Except.ok.injEq]
  · rintro rfl
    exact parse_eq_of_tokenize_eq hts hus

theorem run_tokens_faithful_missing_dot :
    let files : Files := fun _ => .ok "λx\t)".toUTF8
    let c : Config := ⟨some "λx )", none, false, .print⟩
    let d : Config := ⟨none, some "term", true, .valid⟩
    c.Gives files "λx )" ∧ d.Gives files "λx\t)" ∧
      ∃ a b, run files { c with command := .tokens } = .ok a ∧
        run files { d with command := .tokens } = .ok b ∧
        (a = b ↔ tokenize "λx )" = tokenize "λx\t)") ∧
        (a = b → parse "λx )" = parse "λx\t)") := by
  intro files c d
  let ts : List Token := [⟨.lambda, "λ", 0⟩, ⟨.identifier, "x", 2⟩, ⟨.closeParen, ")", 4⟩, .atEnd 5]
  have hc : c.Gives files "λx )" := .inl ⟨rfl, rfl⟩
  have hd : d.Gives files "λx\t)" := .inr ⟨rfl, "term", rfl, rfl⟩
  have ha : run files { c with command := .tokens } = .ok (listTokens ts) := by
    rw [run_of_source (source_eq_ok_iff.2 hc)]
    exact execute_tokens_eq_ok.2 ⟨ts, by decide +kernel, rfl⟩
  have hb : run files { d with command := .tokens } = .ok (listTokens ts) := by
    rw [run_of_source (source_eq_ok_iff.2 hd)]
    exact execute_tokens_eq_ok.2 ⟨ts, by decide +kernel, rfl⟩
  exact ⟨hc, hd, _, _, ha, hb, run_tokens_faithful hc hd ha hb⟩

end Analyzer

end LambdaCalculus
