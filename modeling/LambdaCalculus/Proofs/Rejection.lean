import LambdaCalculus.Proofs.Lookahead

namespace LambdaCalculus

def Expected.refuses : Expected → TokenKind → Bool
  | term, found => !Parser.beginsTerm found
  | parameter, found => found != .identifier
  | dot, found => found != .identifier && found != .dot
  | closeParen, found => !Parser.beginsTerm found && found != .closeParen
  | endOfInput, found => !Parser.beginsTerm found && found != .endOfInput

@[simp]
theorem Expected.refuses_identifier (expected : Expected) :
    expected.refuses .identifier = false := by
  cases expected <;> rfl

inductive TokenStream.Raises (s : TokenStream) : ParseError → Prop where
  | lex {e : LexError} : s.get 0 = .error e → s.Raises (.lex e)
  | unexpected {t : Token} (expected : Expected) : s.get 0 = .ok t →
      expected.refuses t.kind = true → s.Raises (.unexpected expected t.kind t.position)

/-- Some lexemes behind the word make it one of `C`. -/
def Completable (C : Word → Prop) (w : Word) : Prop :=
  ∃ v : Word, (∀ symbol ∈ v, Lexeme symbol.1 symbol.2.toList) ∧ C (w ++ v)

theorem Completable.refl {C : Word → Prop} {w : Word} (h : C w) : Completable C w :=
  ⟨[], by simp, by rwa [List.append_nil]⟩

theorem Completable.trans {C D : Word → Prop} {w : Word} (h : Completable C w)
    (hCD : ∀ v, C v → Completable D v) : Completable D w := by
  obtain ⟨v, hv, hc⟩ := h
  obtain ⟨u, hu, hd⟩ := hCD _ hc
  refine ⟨v ++ u, fun symbol hs => ?_, by rwa [← List.append_assoc]⟩
  rcases List.mem_append.1 hs with hs | hs
  · exact hv symbol hs
  · exact hu symbol hs

theorem Completable.append {C : Word → Prop} {u v : Word} (h : Completable C (u ++ v)) :
    Completable (fun w => C (u ++ w)) v := by
  obtain ⟨w, hw, hc⟩ := h
  rw [List.append_assoc] at hc
  exact ⟨w, hw, hc⟩

namespace Grammar

def Derivable {α : Type} (D : Word → α → Prop) (w : Word) : Prop := ∃ a, D w a

end Grammar

namespace Parser

open Grammar

variable {α β : Type} {C D : Word → Prop} {f : Run α} {s : TokenStream}

/-- A run that fails has read a word that can still become one of `C`, and fails at what comes
next, whatever comes behind that. -/
def Rejects (C : Word → Prop) (f : Run α) (s : TokenStream) : Prop :=
  ∀ e, f s = .error e → ∃ us, ∃ s' : TokenStream, s = s'.prepend us ∧ s'.Raises e ∧
    Completable C (us.map Token.symbol) ∧
    ∀ u : TokenStream, u.get 0 = s'.get 0 → f (u.prepend us) = .error e

theorem Rejects.congr {g : Run α} (hfg : ∀ s, f s = g s) (h : Rejects C g s) :
    Rejects C f s := by
  obtain rfl : f = g := funext hfg
  exact h

theorem Rejects.mono (h : Rejects C f s) (hCD : ∀ w, C w → Completable D w) :
    Rejects D f s := by
  intro e he
  obtain ⟨us, s', hus, hraise, hc, hf⟩ := h e he
  exact ⟨us, s', hus, hraise, hc.trans hCD, hf⟩

theorem Rejects.map (g : α × TokenStream → β × TokenStream) (h : Rejects C f s) :
    Rejects C (fun s => (f s).map g) s := by
  have hmap : ∀ e u, (f u).map g = .error e ↔ f u = .error e := by
    intro e u
    cases f u <;> simp [Except.map]
  intro e he
  obtain ⟨us, s', hus, hraise, hc, hf⟩ := h e ((hmap e s).1 he)
  exact ⟨us, s', hus, hraise, hc, fun u hu => (hmap e _).2 (hf u hu)⟩

theorem Rejects.of_ok {a : α} {s' : TokenStream} (h : f s = .ok (a, s')) : Rejects C f s := by
  intro e he
  rw [h] at he
  cases he

theorem Rejects.of_error {e : ParseError} (h : s.Raises e) (hc : Completable C []) :
    Rejects C (fun _ => .error e : Run α) s := by
  intro d hd
  cases hd
  exact ⟨[], s, rfl, h, hc, fun _ _ => rfl⟩

theorem Rejects.bind {E : Word → α → TokenStream → Prop}
    {k : α × TokenStream → Except ParseError (β × TokenStream)} (hs : s.Lexical)
    (hfail : Rejects C f s) (hok : Repeats E f s)
    (hk : ∀ w a s', f s = .ok (a, s') → s'.Lexical → E w a s' →
      Rejects (fun v => C (w ++ v)) (fun s' => k (a, s')) s') :
    Rejects C (fun s => f s >>= k) s := by
  intro e he
  dsimp only at he ⊢
  rcases hrun : f s with d | ⟨a, s'⟩
  · obtain rfl : d = e := by
      rw [hrun] at he
      cases he
      rfl
    obtain ⟨us, s', hus, hraise, hc, hfinal⟩ := hfail d hrun
    refine ⟨us, s', hus, hraise, hc, fun u hu => ?_⟩
    rw [hfinal u hu]
    rfl
  · rw [hrun] at he
    obtain ⟨us, rfl, hE, hrepeat⟩ := hok a s' hrun
    obtain ⟨vs, s₂, rfl, hraise, hc, hfinal⟩ := hk _ a s' hrun hs.of_prepend hE e he
    refine ⟨us ++ vs, s₂, (TokenStream.prepend_append _ _ _).symm, hraise, ?_, fun u hu => ?_⟩
    · obtain ⟨v, hv, hcv⟩ := hc
      refine ⟨v, hv, ?_⟩
      rwa [List.map_append, List.append_assoc]
    · rw [TokenStream.prepend_append, hrepeat _ (TokenStream.get_zero_prepend hu vs)]
      exact hfinal u hu

theorem ahead_rejects (h : Completable C []) : Rejects C ahead s := by
  intro e he
  obtain ⟨d, hd, rfl⟩ := ahead_eq_error.1 he
  exact ⟨[], s, rfl, .lex hd, h, fun u hu => ahead_eq_error.2 ⟨d, hu.trans hd, rfl⟩⟩

theorem take_rejects {kind : TokenKind} {expected : Expected} (h : Completable C [])
    (hrefuse : ∀ t, s.get 0 = .ok t → t.kind ≠ kind → expected.refuses t.kind = true) :
    Rejects C (take kind expected) s := by
  intro e he
  refine ⟨[], s, rfl, ?_, h, fun u hu => ?_⟩
  · rcases take_eq_error.1 he with ⟨d, hd, rfl⟩ | ⟨t, ht, hk, rfl⟩
    · exact .lex hd
    · exact .unexpected expected ht (hrefuse t ht hk)
  · rw [take_eq_error, ← hu] at he
    exact take_eq_error.2 he

theorem take_rejects_of_get {kind : TokenKind} {expected : Expected} {t : Token}
    (ht : s.get 0 = .ok t) (hk : t.kind = kind) : Rejects C (take kind expected) s := by
  intro e he
  rcases take_eq_error.1 he with ⟨d, hd, -⟩ | ⟨u, hu, hne, -⟩
  · rw [ht] at hd
    cases hd
  · rw [ht] at hu
    cases hu
    exact absurd hk hne

theorem lexeme_x : Lexeme .identifier "x".toList := .identifier ⟨'x', [], rfl, rfl, by simp⟩

theorem parameters_rejects (s : TokenStream) :
    s.Lexical → Rejects (Derivable Parameters) (fun s => outcome (parameters s)) s := by
  induction s using parameters_induction with
  | step s ih =>
    intro hs
    refine .congr outcome_parameters (.bind hs (take_rejects ?_ fun t _ hk => ?_)
      (take_identifier_repeats _ s) fun w p s₁ hp hs₁ hw => ?_)
    · exact ⟨[(.identifier, "x")], by simpa using lexeme_x, _, .last "x"⟩
    · simpa [Expected.refuses] using hk
    · subst hw
      refine .bind hs₁ (ahead_rejects (.refl ⟨_, .last _⟩)) (ahead_repeats s₁)
        fun w t s₂ ht hs₂ hw => ?_
      obtain ⟨rfl, rfl, -⟩ := hw
      dsimp only
      by_cases hk : t.kind = .identifier
      · simp only [if_pos hk]
        refine .bind hs₂ ((ih p _ t _ hp ht hk hs₂).mono fun w hw => ?_) (parameters_repeats hs₂)
          fun w ps s₃ _ _ _ => .of_ok rfl
        obtain ⟨ps, hps⟩ := hw
        exact .refl ⟨_, .more _ hps⟩
      · simp only [if_neg hk]
        exact .of_ok rfl

theorem chain_rejects_of_stops {f : Term} (hs : Stops s) :
    Rejects C (fun s => outcome (chain f s)) s := .of_ok (chain_of_stops hs f)

theorem completable_nil_term : Completable (Derivable fun w e => Atom w e ∨ Abstraction w e) [] :=
  ⟨[(.identifier, "x")], by simpa using lexeme_x, _, .inl (.var "x")⟩

theorem completable_abstraction {v : Word} {ps : List String} (h : Parameters v ps) :
    Completable (Derivable Abstraction) ((.lambda, "λ") :: v) := by
  refine ⟨[(.dot, "."), (.identifier, "x")], ?_, _, .abs h (.chain (.atom (.var "x")))⟩
  simpa using ⟨Lexeme.dot, lexeme_x⟩

theorem completable_group {w : Word} {e : Term} (h : Expression w e) :
    Completable (Derivable Atom) ((.openParen, "(") :: w) :=
  ⟨[(.closeParen, ")")], by simpa using Lexeme.closeParen, _, .group h⟩

/-- Each rule fails at the first token that it cannot use. What it has read till then can be
completed by the body or the bracket that is missing, or by a variable. -/
theorem rules_reject : (∀ s : TokenStream,
      (s.Lexical → Rejects (Derivable fun w e => Atom w e ∨ Abstraction w e)
        (fun s => outcome (term s)) s) ∧
      (s.Lexical → (∃ t, s.get 0 = .ok t ∧ t.kind = .lambda) →
        Rejects (Derivable Abstraction) (fun s => outcome (abstraction s)) s) ∧
      (s.Lexical → (∃ t, s.get 0 = .ok t ∧ t.kind = .openParen) →
        Rejects (Derivable Atom) (fun s => outcome (group s)) s) ∧
      (s.Lexical → Rejects (Derivable Expression) (fun s => outcome (expression s)) s)) ∧
    ∀ f (s : TokenStream), s.Lexical → ∀ v, Chain v f →
      Rejects (fun w => Derivable Expression (v ++ w)) (fun s => outcome (chain f s)) s := by
  refine rules_induction _ _ _ _ _ ?term ?abstraction ?group ?expression ?chain
  case term =>
    intro s habs hgroup hs
    refine .congr outcome_term (.bind hs (ahead_rejects completable_nil_term) (ahead_repeats s)
      fun w t s₁ ht hs₁ hw => ?_)
    obtain ⟨rfl, rfl, hget⟩ := hw
    dsimp only
    cases hk : t.kind with
    | identifier =>
      exact .bind hs₁ (take_rejects_of_get hget hk)
        (take_identifier_repeats .term _) fun _ _ _ _ _ _ => .of_ok rfl
    | lambda =>
      refine (habs t _ ht hk hs₁ ⟨t, hget, hk⟩).mono fun w hw => ?_
      obtain ⟨e, he⟩ := hw
      exact .refl ⟨e, .inr he⟩
    | openParen =>
      refine (hgroup t _ ht hk hs₁ ⟨t, hget, hk⟩).mono fun w hw => ?_
      obtain ⟨e, he⟩ := hw
      exact .refl ⟨e, .inl he⟩
    | dot | closeParen | endOfInput =>
      have hraise := TokenStream.Raises.unexpected .term hget (by rw [hk]; rfl)
      rw [hk] at hraise
      exact .of_error hraise completable_nil_term
  case abstraction =>
    intro s ih hs hget
    obtain ⟨t, ht, hk⟩ := hget
    refine .congr outcome_abstraction (.bind hs (take_rejects_of_get ht hk)
      (take_glyph_repeats "λ" _ hs .lambda (by decide)) fun w l s₁ hl hs₁ hw => ?_)
    subst hw
    refine .bind hs₁ ((parameters_rejects s₁ hs₁).mono fun v hv => ?_) (parameters_repeats hs₁)
      fun v ps s₂ hps hs₂ hv => ?_
    · obtain ⟨ps, hps⟩ := hv
      exact (completable_abstraction hps).append
    obtain ⟨hv, t, ht, hk⟩ := hv
    refine .bind hs₂ (take_rejects ?_ fun u hu hne => ?_)
      (take_glyph_repeats "." _ hs₂ .dot (by decide)) fun w d s₃ hd hs₃ hw => ?_
    · refine Completable.append (C := fun w => Derivable Abstraction ([(.lambda, "λ")] ++ w)) ?_
      exact Completable.append (by simpa using completable_abstraction hv)
    -- The parameters have ended in front of a token that is no identifier.
    · rw [ht] at hu
      cases hu
      simp [Expected.refuses, hk, hne]
    subst hw
    refine .bind hs₃ ((ih l s₁ ps s₂ d s₃ hl hps hd hs₃).mono fun w hw => ?_)
      (expression_repeats hs₃) fun _ _ _ _ _ _ => .of_ok rfl
    obtain ⟨e, he⟩ := hw
    refine .refl ⟨e.abstractAll ps, ?_⟩
    simpa using Abstraction.abs hv he
  case group =>
    intro s ih hs hget
    obtain ⟨t, ht, hk⟩ := hget
    refine .congr outcome_group (.bind hs (take_rejects_of_get ht hk)
      (take_glyph_repeats "(" _ hs .openParen (by decide)) fun w l s₁ hl hs₁ hw => ?_)
    subst hw
    refine .bind hs₁ ((ih l s₁ hl hs₁).mono fun w hw => ?_) (expression_repeats hs₁)
      fun w e s₂ _ hs₂ he => ?_
    · obtain ⟨e, he⟩ := hw
      exact (completable_group he).append
    obtain ⟨he, hstops⟩ := he
    refine .bind hs₂ (take_rejects ?_ fun u hu hne => ?_)
      (take_glyph_repeats ")" _ hs₂ .closeParen (by decide)) fun _ _ _ _ _ _ => .of_ok rfl
    · refine Completable.append (C := fun w => Derivable Atom ([(.openParen, "(")] ++ w)) ?_
      exact Completable.append (by simpa using completable_group he)
    · simp [Expected.refuses, hstops.beginsTerm_eq_false hu, hne]
  case expression =>
    intro s hterm hchain hs
    refine .congr outcome_expression (.bind hs ((hterm hs).mono fun w hw => ?_)
      (term_repeats hs) fun w f s₁ hf hs₁ hw => ?_)
    · obtain ⟨e, he | he⟩ := hw
      · exact .refl ⟨e, .chain (.atom he)⟩
      · exact .refl ⟨e, .abs he⟩
    · rcases hw with ha | ⟨-, hstops⟩
      · exact hchain f s₁ hf hs₁ w (.atom ha)
      -- Nothing is left for the chain to fail at once an abstraction has taken all it could.
      · exact chain_rejects_of_stops hstops
  case chain =>
    intro f s ih hs v hv
    have hdone : Completable (fun w => Derivable Expression (v ++ w)) [] :=
      .refl ⟨f, by simpa using Expression.chain hv⟩
    refine .congr (outcome_chain f) (.bind hs (ahead_rejects hdone) (ahead_repeats s)
      fun w t s₁ ht hs₁ hw => ?_)
    obtain ⟨rfl, rfl, -⟩ := hw
    dsimp only
    by_cases hk : beginsTerm t.kind = true
    · simp only [if_pos hk]
      obtain ⟨hterm, hchain⟩ := ih t _ ht hk
      refine .bind hs₁ ((hterm hs₁).mono fun w hw => ?_) (term_repeats hs₁)
        fun w a s₂ ha hs₂ hw => ?_
      · obtain ⟨e, he | he⟩ := hw
        · exact .refl ⟨_, .chain (.app hv he)⟩
        · exact .refl ⟨_, .chainAbs hv he⟩
      · rcases hw with hatom | ⟨-, hstops⟩
        · simpa using hchain a s₂ ha hs₂ _ (.app hv hatom)
        · exact chain_rejects_of_stops hstops
    · simp only [if_neg hk]
      exact .of_ok rfl

theorem program_rejects {e : ParseError} (hs : s.Lexical) (h : program s = .error e) :
    ∃ us, ∃ s' : TokenStream, s = s'.prepend us ∧ s'.Raises e ∧
      Completable (Derivable Expression) (us.map Token.symbol) ∧
      ∀ u : TokenStream, u.get 0 = s'.get 0 → program (u.prepend us) = .error e := by
  -- The end of the text is no token to take off the stream, so what is read there is not bound
  -- but mapped.
  let run : Run Term := fun u => outcome (expression u) >>= fun r =>
    (take .endOfInput .endOfInput r.2).map fun q => (r.1, q.2)
  have hprogram : ∀ u : TokenStream, program u = .error e ↔ run u = .error e := by
    intro u
    rw [program_eq]
    dsimp only [run]
    rcases outcome (expression u) with d | ⟨f, u₁⟩
    · simp [bind, Except.bind]
    · simp only [ok_bind]
      cases take .endOfInput .endOfInput u₁ <;>
        simp [Except.map, bind, Except.bind, pure, Except.pure]
  have hrun : Rejects (Derivable Expression) run s := by
    refine .bind hs ((rules_reject.1 s).2.2.2 hs) (expression_repeats hs)
      fun w f s₁ _ _ hw => ?_
    obtain ⟨he, hstops⟩ := hw
    refine Rejects.map _ (take_rejects (.refl ⟨f, by rwa [List.append_nil]⟩) fun t ht hne => ?_)
    simp [Expected.refuses, hstops.beginsTerm_eq_false ht, hne]
  obtain ⟨us, s', hus, hraise, hc, hf⟩ := hrun e ((hprogram s).1 h)
  exact ⟨us, s', hus, hraise, hc, fun u hu => (hprogram _).2 (hf u hu)⟩

end Parser

theorem parse_rejects {text : String} {e : ParseError} (h : parse text = .error e) :
    ∃ us, ∃ s : TokenStream, TokenStream.ofText text = s.prepend us ∧ s.Raises e ∧
      Completable (Grammar.Derivable Grammar.Expression) (us.map Token.symbol) ∧
      ∀ u : TokenStream, u.get 0 = s.get 0 →
        Parser.program (u.prepend us) = .error e :=
  Parser.program_rejects (TokenStream.lexical_ofText text) (parse_eq_program text ▸ h)

end LambdaCalculus
