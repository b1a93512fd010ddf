import LambdaCalculus.Grammar
import LambdaCalculus.Proofs.Descent
import LambdaCalculus.Proofs.Spelling

namespace LambdaCalculus

def Token.symbol (t : Token) : TokenKind × String := (t.kind, t.text)

theorem Token.symbol_eq {t : Token} {kind : TokenKind} {text : String} :
    t.symbol = (kind, text) ↔ t.kind = kind ∧ t.text = text := by
  rw [Token.symbol, Prod.mk.injEq]

theorem Lexeme.eq_of_glyph {kind : TokenKind} {a b : List Char} (ha : Lexeme kind a)
    (hb : Lexeme kind b) (hkind : kind ≠ .identifier) : a = b := by
  cases ha with
  | identifier => exact absurd rfl hkind
  | lambda | dot | openParen | closeParen => cases hb; rfl

namespace TokenStream

@[simp]
theorem prepend_append (s : TokenStream) (ts us : List Token) :
    s.prepend (ts ++ us) = (s.prepend us).prepend ts := by
  simp [prepend]

theorem prepend_cons (s : TokenStream) (t : Token) (ts : List Token) :
    s.prepend (t :: ts) = (s.prepend ts).prepend [t] := rfl

theorem Lexical.of_prepend {s : TokenStream} {ts : List Token} (h : (s.prepend ts).Lexical) :
    s.Lexical :=
  fun t ht => h t (List.mem_append_right ts ht)

end TokenStream

namespace Parser

open Grammar

theorem take_prepend {kind : TokenKind} (expected : Expected) {t : Token} (s : TokenStream)
    (h : t.kind = kind) : take kind expected (s.prepend [t]) = .ok (t, s) := by
  change (if t.kind = kind then _ else _) = _
  rw [if_pos h]
  rfl

@[simp]
theorem ahead_prepend (s : TokenStream) (t : Token) (ts : List Token) :
    ahead (s.prepend (t :: ts)) = .ok (t, s.prepend (t :: ts)) := rfl

theorem eq_of_take {kind : TokenKind} {expected : Expected} {s s' : TokenStream} {t : Token}
    (hkind : kind ≠ .endOfInput) (h : take kind expected s = .ok (t, s')) :
    s = s'.prepend [t] ∧ t.kind = kind := by
  obtain ⟨ts, ending⟩ := s
  rw [take_eq, bind_eq_ok_iff] at h
  obtain ⟨⟨u, rest⟩, hnext, h⟩ := h
  have hu : u.kind = kind ∧ u = t ∧ rest = s' := by
    split at h
    · rename_i hu
      cases h
      exact ⟨hu, rfl, rfl⟩
    · cases h
  obtain ⟨hu, rfl, rfl⟩ := hu
  cases ts with
  | cons v ts => cases hnext; exact ⟨rfl, hu⟩
  | nil =>
    cases ending with
    | error e => cases hnext
    | ok position => cases hnext; exact absurd hu.symm hkind

theorem ahead_eq_get (s : TokenStream) :
    ahead s = ((s.get 0).map fun t => (t, s)).mapError .lex := by
  obtain ⟨_ | ⟨t, ts⟩, _ | position⟩ := s <;> rfl

theorem ahead_eq_ok {s u : TokenStream} {t : Token} :
    ahead s = .ok (t, u) ↔ s.get 0 = .ok t ∧ u = s := by
  rw [ahead_eq_get]
  cases s.get 0 <;> simp [Except.map, Except.mapError, eq_comm]

def Stops (s : TokenStream) : Prop := ∃ t, ahead s = .ok (t, s) ∧ beginsTerm t.kind = false

theorem chain_of_stops {s : TokenStream} (h : Stops s) (f : Term) :
    outcome (chain f s) = .ok (f, s) := by
  obtain ⟨t, ht, hkind⟩ := h
  rw [outcome_chain, ht, ok_bind]
  dsimp only
  rw [if_neg (by simp [hkind])]
  rfl

theorem parameters_reads {w : Word} {xs : List String} (h : Parameters w xs) {us : List Token}
    {s : TokenStream} {t : Token} (hus : us.map Token.symbol = w) (ht : ahead s = .ok (t, s))
    (hkind : t.kind ≠ .identifier) : outcome (parameters (s.prepend us)) = .ok (xs, s) := by
  induction h generalizing us with
  | last x =>
    obtain ⟨p, rfl, hp⟩ := List.map_eq_singleton_iff.1 hus
    obtain ⟨hk, rfl⟩ := Token.symbol_eq.1 hp
    rw [outcome_parameters, take_prepend _ _ hk, ok_bind]
    dsimp only
    rw [ht, ok_bind]
    dsimp only
    rw [if_neg hkind]
    rfl
  | @more x w xs hw ih =>
    obtain ⟨p, vs, rfl, hp, hvs⟩ := List.map_eq_cons_iff.1 hus
    obtain ⟨hk, rfl⟩ := Token.symbol_eq.1 hp
    have hnext : ∃ q qs, vs = q :: qs ∧ q.kind = .identifier := by
      cases hw <;> obtain ⟨q, qs, rfl, hq, -⟩ := List.map_eq_cons_iff.1 hvs <;>
        exact ⟨q, qs, rfl, (Token.symbol_eq.1 hq).1⟩
    obtain ⟨q, qs, rfl, hq⟩ := hnext
    rw [TokenStream.prepend_cons, outcome_parameters, take_prepend _ _ hk, ok_bind]
    dsimp only
    rw [ahead_prepend, ok_bind]
    dsimp only
    rw [if_pos hq, ih hvs]
    rfl

theorem beginsTerm_of_atom {w : Word} {e : Term} (h : Atom w e) {us : List Token}
    (hus : us.map Token.symbol = w) : ∃ t ts, us = t :: ts ∧ beginsTerm t.kind = true := by
  cases h <;> obtain ⟨t, ts, rfl, ht, -⟩ := List.map_eq_cons_iff.1 hus <;>
    exact ⟨t, ts, rfl, (Token.symbol_eq.1 ht).1 ▸ rfl⟩

theorem beginsTerm_of_abstraction {w : Word} {e : Term} (h : Abstraction w e) {us : List Token}
    (hus : us.map Token.symbol = w) : ∃ t ts, us = t :: ts ∧ beginsTerm t.kind = true := by
  cases h
  obtain ⟨t, ts, rfl, ht, -⟩ := List.map_eq_cons_iff.1 hus
  exact ⟨t, ts, rfl, (Token.symbol_eq.1 ht).1 ▸ rfl⟩

theorem chain_operand {f a : Term} {us : List Token} {s s' : TokenStream}
    (hus : ∃ t ts, us = t :: ts ∧ beginsTerm t.kind = true)
    (h : outcome (term (s.prepend us)) = .ok (a, s')) :
    outcome (chain f (s.prepend us)) = outcome (chain (.app f a) s') := by
  obtain ⟨t, ts, rfl, ht⟩ := hus
  rw [outcome_chain, ahead_prepend, ok_bind]
  dsimp only
  rw [if_pos ht, h, ok_bind]

mutual

theorem expression_reads {w : Word} {e : Term} (h : Expression w e) {us : List Token}
    {s : TokenStream} (hus : us.map Token.symbol = w) (hs : Stops s) :
    outcome (expression (s.prepend us)) = .ok (e, s) := by
  match h with
  | .chain hc => rw [expression_reads_chain hc hus, chain_of_stops hs]
  | .abs ha =>
    rw [outcome_expression, term_reads_abstraction ha hus hs, ok_bind]
    exact chain_of_stops hs e
  | .chainAbs hc ha =>
    obtain ⟨vs, ws, rfl, hvs, hws⟩ := List.map_eq_append_iff.1 hus
    have hoperand := term_reads_abstraction ha hws hs
    rw [TokenStream.prepend_append, expression_reads_chain hc hvs,
      chain_operand (beginsTerm_of_abstraction ha hws) hoperand, chain_of_stops hs]

theorem expression_reads_chain {w : Word} {f : Term} (h : Chain w f) {us : List Token}
    {s : TokenStream} (hus : us.map Token.symbol = w) :
    outcome (expression (s.prepend us)) = outcome (chain f s) := by
  match h with
  | .atom ha => rw [outcome_expression, term_reads_atom ha hus, ok_bind]
  | .app hc ha =>
    obtain ⟨vs, ws, rfl, hvs, hws⟩ := List.map_eq_append_iff.1 hus
    rw [TokenStream.prepend_append, expression_reads_chain hc hvs,
      chain_operand (beginsTerm_of_atom ha hws) (term_reads_atom ha hws)]

theorem term_reads_atom {w : Word} {e : Term} (h : Atom w e) {us : List Token}
    {s : TokenStream} (hus : us.map Token.symbol = w) :
    outcome (term (s.prepend us)) = .ok (e, s) := by
  match h with
  | .var x =>
    obtain ⟨t, rfl, ht⟩ := List.map_eq_singleton_iff.1 hus
    obtain ⟨hk, rfl⟩ := Token.symbol_eq.1 ht
    rw [outcome_term, ahead_prepend, ok_bind]
    simp only [hk]
    rw [take_prepend _ _ hk]
    rfl
  | .group he =>
    obtain ⟨l, vs, rfl, hl, hvs⟩ := List.map_eq_cons_iff.1 hus
    obtain ⟨ws, rs, rfl, hws, hrs⟩ := List.map_eq_append_iff.1 hvs
    obtain ⟨r, rfl, hr⟩ := List.map_eq_singleton_iff.1 hrs
    have hkl := (Token.symbol_eq.1 hl).1
    have hkr := (Token.symbol_eq.1 hr).1
    have hstops : Stops (s.prepend [r]) := ⟨r, rfl, by rw [hkr]; rfl⟩
    rw [outcome_term, ahead_prepend, ok_bind]
    simp only [hkl]
    rw [TokenStream.prepend_cons, outcome_group, take_prepend _ _ hkl, ok_bind]
    dsimp only
    rw [TokenStream.prepend_append, expression_reads he hws hstops, ok_bind]
    dsimp only
    rw [take_prepend _ _ hkr]
    rfl

theorem term_reads_abstraction {w : Word} {e : Term} (h : Abstraction w e) {us : List Token}
    {s : TokenStream} (hus : us.map Token.symbol = w) (hs : Stops s) :
    outcome (term (s.prepend us)) = .ok (e, s) := by
  match h with
  | .abs hp he =>
    obtain ⟨l, vs, rfl, hl, hvs⟩ := List.map_eq_cons_iff.1 hus
    obtain ⟨ps, ds, rfl, hps, hds⟩ := List.map_eq_append_iff.1 hvs
    obtain ⟨d, ws, rfl, hd, hws⟩ := List.map_eq_cons_iff.1 hds
    have hkl := (Token.symbol_eq.1 hl).1
    have hkd := (Token.symbol_eq.1 hd).1
    have hdot : ahead (s.prepend (d :: ws)) = .ok (d, s.prepend (d :: ws)) := rfl
    rw [outcome_term, ahead_prepend, ok_bind]
    simp only [hkl]
    rw [TokenStream.prepend_cons, outcome_abstraction, take_prepend _ _ hkl, ok_bind]
    dsimp only
    rw [TokenStream.prepend_append, parameters_reads hp hps hdot (by simp [hkd]), ok_bind]
    dsimp only
    rw [TokenStream.prepend_cons, take_prepend _ _ hkd, ok_bind]
    dsimp only
    rw [expression_reads he hws hs]
    rfl

end

/-- A run that succeeds takes a word off the stream which stands in `D` to the value and to the
stream behind it. -/
def Consumes {α : Type} (D : Word → α → TokenStream → Prop) (s : TokenStream)
    (run : Except ParseError (α × TokenStream)) : Prop :=
  ∀ a s', run = .ok (a, s') → ∃ us, s = s'.prepend us ∧ D (us.map Token.symbol) a s'

theorem Consumes.ok {α : Type} {D : Word → α → TokenStream → Prop} {s : TokenStream} {a : α}
    (h : D [] a s) : Consumes D s (.ok (a, s)) := by
  intro b s' hb
  cases hb
  exact ⟨[], rfl, h⟩

theorem Consumes.error {α : Type} {D : Word → α → TokenStream → Prop} {s : TokenStream}
    (e : ParseError) : Consumes D s (.error e) := by
  intro b s' hb
  cases hb

theorem Consumes.imp {α : Type} {D E : Word → α → TokenStream → Prop} {s : TokenStream}
    {run : Except ParseError (α × TokenStream)} (h : Consumes D s run)
    (hDE : ∀ w a s', D w a s' → E w a s') : Consumes E s run := by
  intro a s' ha
  obtain ⟨us, hus, hd⟩ := h a s' ha
  exact ⟨us, hus, hDE _ a s' hd⟩

theorem Consumes.bind {α β : Type} {D : Word → α → TokenStream → Prop}
    {E : Word → β → TokenStream → Prop} {s : TokenStream}
    {run : Except ParseError (α × TokenStream)}
    {k : α × TokenStream → Except ParseError (β × TokenStream)} (hs : s.Lexical)
    (hrun : Consumes D s run) (hk : ∀ w a s', run = .ok (a, s') → s'.Lexical → D w a s' →
      Consumes (fun v b s'' => E (w ++ v) b s'') s' (k (a, s'))) : Consumes E s (run >>= k) := by
  intro b s'' hb
  obtain ⟨⟨a, s'⟩, ha, hb⟩ := bind_eq_ok_iff.1 hb
  obtain ⟨us, rfl, hus⟩ := hrun a s' ha
  obtain ⟨vs, rfl, hvs⟩ := hk _ a s' ha hs.of_prepend hus b s'' hb
  refine ⟨us ++ vs, (TokenStream.prepend_append _ _ _).symm, ?_⟩
  rw [List.map_append]
  exact hvs

theorem take_consumes {kind : TokenKind} (expected : Expected) (s : TokenStream)
    (hkind : kind ≠ .endOfInput) :
    Consumes (fun w t _ => w = [(kind, t.text)]) s (take kind expected s) := by
  intro t s' h
  obtain ⟨rfl, hk⟩ := eq_of_take hkind h
  refine ⟨[t], rfl, ?_⟩
  rw [List.map_singleton, Token.symbol_eq.2 ⟨hk, rfl⟩]

theorem take_glyph_consumes {kind : TokenKind} (glyph : String) (expected : Expected)
    {s : TokenStream} (hs : s.Lexical) (hglyph : Lexeme kind glyph.toList)
    (hkind : kind ≠ .identifier) :
    Consumes (fun w _ _ => w = [(kind, glyph)]) s (take kind expected s) := by
  intro t s' h
  obtain ⟨rfl, rfl⟩ := eq_of_take hglyph.kind_ne_endOfInput h
  have ht : Lexeme t.kind t.text.toList := hs t List.mem_cons_self
  have htext := String.toList_inj.1 (ht.eq_of_glyph hglyph hkind)
  refine ⟨[t], rfl, ?_⟩
  rw [List.map_singleton, Token.symbol_eq.2 ⟨rfl, htext⟩]

theorem ahead_consumes (s : TokenStream) :
    Consumes (fun w _ s' => w = [] ∧ s' = s) s (ahead s) := by
  intro t s' h
  obtain ⟨-, rfl⟩ := ahead_eq_ok.1 h
  exact ⟨[], rfl, rfl, rfl⟩

theorem parameters_consumes (s : TokenStream) :
    s.Lexical → Consumes (fun w xs _ => Parameters w xs) s (outcome (parameters s)) := by
  induction s using parameters_induction with
  | step s ih =>
    intro hs
    rw [outcome_parameters]
    refine (take_consumes _ s (by decide)).bind hs fun _ p s₁ hp hs₁ hv => ?_
    subst hv
    refine (ahead_consumes s₁).bind hs₁ fun _ t s₂ ht hs₂ hv => ?_
    obtain ⟨rfl, rfl⟩ := hv
    dsimp only
    split
    · rename_i hkt
      refine (ih p _ t _ hp ht hkt hs₂).bind hs₂ fun w ps s₃ _ _ hps => ?_
      refine .ok ?_
      simp only [List.nil_append, List.append_nil, List.singleton_append]
      exact .more _ hps
    · exact .ok (.last _)

theorem chain_consumes_of_stops {D : Word → Term → TokenStream → Prop} {s : TokenStream}
    {f : Term} (hs : Stops s) (h : D [] f s) : Consumes D s (outcome (chain f s)) := by
  rw [chain_of_stops hs]
  exact .ok h

/-- A run of the parser takes off the stream a word that derives its tree, and unless the tree is
an atom it ends where no term can follow. -/
theorem rules_consume : (∀ s : TokenStream,
      (s.Lexical → Consumes (fun w e s' => Atom w e ∨ Abstraction w e ∧ Stops s') s
        (outcome (term s))) ∧
      (s.Lexical → Consumes (fun w e s' => Abstraction w e ∧ Stops s') s
        (outcome (abstraction s))) ∧
      (s.Lexical → Consumes (fun w e _ => Atom w e) s (outcome (group s))) ∧
      (s.Lexical → Consumes (fun w e s' => Expression w e ∧ Stops s') s
        (outcome (expression s)))) ∧
    ∀ f (s : TokenStream), s.Lexical → ∀ v, Chain v f →
      Consumes (fun w e s' => Expression (v ++ w) e ∧ Stops s') s (outcome (chain f s)) := by
  refine rules_induction _ _ _ _ _ ?term ?abstraction ?group ?expression ?chain
  case term =>
    intro s habs hgroup hs
    rw [outcome_term]
    refine (ahead_consumes s).bind hs fun _ t s₁ ht hs₁ hv => ?_
    obtain ⟨rfl, rfl⟩ := hv
    dsimp only
    split
    · refine (take_consumes .term s₁ (by decide)).bind hs₁ fun _ x s₂ _ _ hx => ?_
      subst hx
      exact .ok (.inl (.var _))
    · rename_i hk
      exact (habs t s₁ ht hk hs₁).imp fun _ _ _ he => .inr he
    · rename_i hk
      exact (hgroup t s₁ ht hk hs₁).imp fun _ _ _ he => .inl he
    · exact .error _
  case abstraction =>
    intro s ih hs
    rw [outcome_abstraction]
    refine (take_glyph_consumes "λ" _ hs .lambda (by decide)).bind hs fun _ l s₁ hl hs₁ hv => ?_
    subst hv
    refine (parameters_consumes s₁ hs₁).bind hs₁ fun v ps s₂ hps hs₂ hv => ?_
    refine (take_glyph_consumes "." _ hs₂ .dot (by decide)).bind hs₂ fun _ d s₃ hd hs₃ hu => ?_
    subst hu
    refine (ih l s₁ ps s₂ d s₃ hl hps hd hs₃).bind hs₃ fun w e s₄ _ _ he => ?_
    refine .ok ⟨?_, he.2⟩
    simpa using Abstraction.abs hv he.1
  case group =>
    intro s ih hs
    rw [outcome_group]
    refine (take_glyph_consumes "(" _ hs .openParen (by decide)).bind hs fun _ l s₁ hl hs₁ hv => ?_
    subst hv
    refine (ih l s₁ hl hs₁).bind hs₁ fun w e s₂ _ hs₂ he => ?_
    refine (take_glyph_consumes ")" _ hs₂ .closeParen (by decide)).bind hs₂ fun _ r s₃ _ _ hv => ?_
    subst hv
    refine .ok ?_
    simpa using Atom.group he.1
  case expression =>
    intro s hterm hchain hs
    rw [outcome_expression]
    refine (hterm hs).bind hs fun v f s₁ hf hs₁ hv => ?_
    rcases hv with ha | ⟨ha, hstops⟩
    · exact hchain f s₁ hf hs₁ v (.atom ha)
    · refine chain_consumes_of_stops hstops ⟨?_, hstops⟩
      simpa using Expression.abs ha
  case chain =>
    intro f s ih hs v hv
    rw [outcome_chain]
    refine (ahead_consumes s).bind hs fun _ t s₁ ht hs₁ hw => ?_
    obtain ⟨rfl, rfl⟩ := hw
    dsimp only
    split
    · rename_i hk
      obtain ⟨hterm, hchain⟩ := ih t s₁ ht hk
      refine (hterm hs₁).bind hs₁ fun w a s₂ ha hs₂ hw => ?_
      rcases hw with hatom | ⟨habs, hstops⟩
      · simpa using hchain a s₂ ha hs₂ _ (.app hv hatom)
      -- The body of the abstraction has taken every term that could have come behind it.
      · refine chain_consumes_of_stops hstops ⟨?_, hstops⟩
        simpa using Expression.chainAbs hv habs
    · rename_i hk
      refine .ok ⟨?_, t, ht, by simpa using hk⟩
      simpa using Expression.chain hv

theorem stops_at_end (position : Nat) : Stops ⟨[], .ok position⟩ := ⟨_, rfl, rfl⟩

theorem take_endOfInput_eq_ok {s s' : TokenStream} {t : Token} (hs : s.Lexical)
    (h : take .endOfInput .endOfInput s = .ok (t, s')) : ∃ position, s = ⟨[], .ok position⟩ := by
  obtain ⟨_ | ⟨u, ts⟩, _ | position⟩ := s
  · cases h
  · exact ⟨position, rfl⟩
  all_goals
    have hu : u.kind ≠ .endOfInput := (hs u List.mem_cons_self).kind_ne_endOfInput
    change (if u.kind = .endOfInput then _ else _) = _ at h
    rw [if_neg hu] at h
    cases h

theorem program_eq_ok {s : TokenStream} (hs : s.Lexical) {e : Term} :
    program s = .ok e ↔
      (∃ position, s.ending = .ok position) ∧ Expression (s.tokens.map Token.symbol) e := by
  rw [program_eq]
  constructor
  · intro hrun
    obtain ⟨⟨f, s₁⟩, hf, hrest⟩ := bind_eq_ok_iff.1 hrun
    obtain ⟨⟨t, s₂⟩, ht, h⟩ := bind_eq_ok_iff.1 hrest
    obtain ⟨us, rfl, hus, -⟩ := (rules_consume.1 s).2.2.2 hs f s₁ hf
    obtain ⟨position, rfl⟩ := take_endOfInput_eq_ok hs.of_prepend ht
    cases h
    refine ⟨⟨position, rfl⟩, ?_⟩
    simpa [TokenStream.prepend] using hus
  · rintro ⟨⟨position, hend⟩, he⟩
    have hsplit : s = TokenStream.prepend s.tokens ⟨[], .ok position⟩ := by
      obtain ⟨ts, ending⟩ := s
      cases hend
      simp [TokenStream.prepend]
    rw [hsplit, expression_reads he rfl (stops_at_end position)]
    rfl

end Parser

theorem parse_eq_ok {text : String} {e : Term} :
    parse text = .ok e ↔ (∃ position, (TokenStream.ofText text).ending = .ok position) ∧
      Grammar.Expression ((TokenStream.ofText text).tokens.map Token.symbol) e := by
  rw [parse_eq_program]
  exact Parser.program_eq_ok (TokenStream.lexical_ofText text)

end LambdaCalculus
