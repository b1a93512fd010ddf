import LambdaCalculus.Proofs.Execution

namespace LambdaCalculus.Parser

@[simp]
def Control.weight : Control → Nat
  | abstraction | parameters _ | group => 1
  | term => 2
  | returned _ => 4
  | expression | chain _ => 5

@[simp]
def Frame.weight : Frame → Nat
  | closing => 0
  | body _ => 1
  | operator | operand _ => 2

/-- The steps that are still to be done where no more tokens come. -/
def pending (control : Control) (frames : List Frame) : Nat :=
  control.weight + frames.foldr (fun frame rest => frame.weight + rest) 0

namespace Machine

variable {σ : Type} [TokenSource σ] {control control' : Control} {frames frames' : List Frame}
  {s s' : σ}

/-- The tokens that a step takes pay for the work that it adds, and for an expression that it
begins. -/
theorem step_passes
    (h : (running control frames s).step = .ok (running control' frames' s')) :
    ∃ ts, Passes s ts s' ∧ pending control' frames' < pending control frames + 5 * ts.length ∧
      (running control' frames' s').nesting ≤
        (running control frames s).nesting + ts.countP Token.opens := by
  simp only [pending, nesting]
  cases control with
  | term =>
    rw [step] at h
    obtain ⟨⟨t, s₁⟩, ht, h⟩ := bind_eq_ok_iff.1 h
    have hahead := passes_of_ahead ht
    dsimp only at h
    cases hk : t.kind with
    | identifier =>
      simp only [hk] at h
      obtain ⟨⟨x, s₂⟩, hx, h⟩ := bind_eq_ok_iff.1 h
      cases h
      refine ⟨[x], hahead.trans (passes_of_take (by decide) hx).1, ?_, ?_⟩
      · simp; omega
      · simp
    | lambda | openParen =>
      simp only [hk] at h
      cases h
      refine ⟨[], hahead, ?_, ?_⟩ <;> simp
    | dot | closeParen | endOfInput =>
      simp only [hk] at h
      cases h
  | abstraction =>
    rw [step] at h
    obtain ⟨⟨t, s₁⟩, ht, h⟩ := bind_eq_ok_iff.1 h
    cases h
    refine ⟨[t], (passes_of_take (by decide) ht).1, ?_, ?_⟩ <;> simp
  | parameters found =>
    rw [step] at h
    obtain ⟨⟨p, s₁⟩, hp, h⟩ := bind_eq_ok_iff.1 h
    obtain ⟨⟨t, s₂⟩, ht, h⟩ := bind_eq_ok_iff.1 h
    have hfirst := (passes_of_take (by decide) hp).1.trans (passes_of_ahead ht)
    dsimp only at h
    split at h
    · cases h
      refine ⟨[p], hfirst, ?_, ?_⟩ <;> simp
    · obtain ⟨⟨d, s₃⟩, hd, h⟩ := bind_eq_ok_iff.1 h
      cases h
      obtain ⟨hdot, hkind⟩ := passes_of_take (by decide) hd
      have hopens : d.opens = true := by rw [Token.opens, hkind]; rfl
      refine ⟨[p, d], hfirst.trans hdot, ?_, ?_⟩
      · simp; omega
      · simp [List.countP_cons, hopens]; omega
  | group =>
    rw [step] at h
    obtain ⟨⟨t, s₁⟩, ht, h⟩ := bind_eq_ok_iff.1 h
    cases h
    obtain ⟨hopen, hkind⟩ := passes_of_take (by decide) ht
    have hopens : t.opens = true := by rw [Token.opens, hkind]; rfl
    refine ⟨[t], hopen, ?_, ?_⟩
    · simp; omega
    · simp [hopens]; omega
  | expression =>
    cases h
    refine ⟨[], .refl s, ?_, ?_⟩
    · simp; omega
    · simp +arith [List.countP_cons]
  | chain f =>
    rw [step] at h
    obtain ⟨⟨t, s₁⟩, ht, h⟩ := bind_eq_ok_iff.1 h
    have hahead := passes_of_ahead ht
    dsimp only at h
    split at h
    · cases h
      refine ⟨[], hahead, ?_, ?_⟩
      · simp; omega
      · simp +arith [List.countP_cons]
    · cases h
      refine ⟨[], hahead, ?_, ?_⟩ <;> simp
  | returned e =>
    cases frames with
    | nil =>
      rw [step] at h
      obtain ⟨_, -, h⟩ := bind_eq_ok_iff.1 h
      cases h
    | cons frame frames =>
      cases frame with
      | body =>
        cases h
        refine ⟨[], .refl s, ?_, ?_⟩ <;> simp
      | operator | operand =>
        cases h
        refine ⟨[], .refl s, ?_, ?_⟩
        · simp; omega
        · simp +arith [List.countP_cons]
      | closing =>
        rw [step] at h
        obtain ⟨⟨t, s₁⟩, ht, h⟩ := bind_eq_ok_iff.1 h
        cases h
        refine ⟨[t], (passes_of_take (by decide) ht).1, ?_, ?_⟩ <;> simp

theorem run_passes {n : Nat}
    (h : (running control frames s).run n = .ok (running control' frames' s')) :
    ∃ ts, Passes s ts s' ∧ (running control' frames' s').nesting ≤
      (running control frames s).nesting + ts.countP Token.opens := by
  induction n generalizing control frames s with
  | zero =>
    cases h
    exact ⟨[], .refl _, Nat.le_refl _⟩
  | succ n ih =>
    obtain ⟨next, hstep, hrest⟩ := bind_eq_ok_iff.1 h
    cases next with
    | running control₁ frames₁ s₁ =>
      obtain ⟨ts, hts, -, hfirst⟩ := step_passes hstep
      obtain ⟨us, hus, hlater⟩ := ih hrest
      refine ⟨ts ++ us, hts.trans hus, ?_⟩
      rw [List.countP_append]
      omega
    | stopped e =>
      rw [run_stopped] at hrest
      cases hrest

open TokenSource in
def potential : Machine σ → Nat
  | running control frames s => 5 * remaining s + pending control frames
  | stopped _ => 0

theorem potential_step_le {m next : Machine σ} (h : m.step = .ok next) :
    next.potential ≤ m.potential - 1 := by
  cases next with
  | stopped e => exact Nat.zero_le _
  | running control' frames' s' =>
    cases m with
    | stopped e => cases h
    | running control frames s =>
      obtain ⟨ts, hts, hless, -⟩ := step_passes h
      have hremaining := hts.remaining_add_length_le
      rw [potential, potential]
      omega

theorem pending_pos (control : Control) (frames : List Frame) : 0 < pending control frames := by
  have hcontrol : 0 < control.weight := by cases control <;> simp
  exact Nat.add_pos_left hcontrol _

theorem exists_run_eq {m : Machine σ} {n : Nat} (h : m.potential ≤ n) :
    ∃ answer : Except ParseError Term, m.run n = answer.map stopped := by
  induction n generalizing m with
  | zero =>
    cases m with
    | stopped e => exact ⟨.ok e, rfl⟩
    | running control frames s =>
      have hpos := pending_pos control frames
      rw [potential] at h
      omega
  | succ n ih =>
    rw [run_succ]
    cases hstep : m.step with
    | error e => exact ⟨.error e, rfl⟩
    | ok next =>
      have hle := potential_step_le hstep
      exact ih (by omega)

theorem map_stopped_run (answer : Except ParseError Term) (n : Nat) :
    (answer.map stopped >>= fun m : Machine σ => m.run n) = answer.map stopped := by
  cases answer with
  | error e => rfl
  | ok e => exact run_stopped e n

theorem run_eq_of_leads {m : Machine σ} {answer : Except ParseError Term} {n : Nat}
    (h : Leads (pure m) (answer.map stopped)) (hn : m.potential ≤ n) :
    m.run n = answer.map stopped := by
  obtain ⟨k, hk⟩ := h
  obtain ⟨found, hfound⟩ := exists_run_eq hn
  rw [pure_bind] at hk
  have hlate : m.run (n + k) = found.map stopped := by rw [run_add, hfound, map_stopped_run]
  have hearly : m.run (k + n) = answer.map stopped := by rw [run_add, hk, map_stopped_run]
  rw [hfound, ← hlate, Nat.add_comm, hearly]

theorem run_start (text : String) :
    (start text).run (5 * (text.length + 1)) = (parse text).map stopped := by
  have hremaining : TokenSource.remaining (Lexer.ofText text) = text.length :=
    String.length_toList
  refine run_eq_of_leads (start_leads text) ?_
  rw [start, potential, hremaining]
  exact Nat.le_refl _

theorem nesting_le {text : String} {n : Nat} {m : Machine Lexer} (h : (start text).run n = .ok m) :
    m.nesting ≤ (TokenStream.ofText text).tokens.countP Token.opens + 1 := by
  cases m with
  | stopped e => exact Nat.zero_le _
  | running control frames l =>
    obtain ⟨ts, hts, hle⟩ := run_passes h
    have htokens : (TokenStream.ofText text).tokens = ts ++ (TokenStream.ofLexer l).tokens :=
      congrArg TokenStream.tokens hts.ofLexer_eq
    have hstart : (start text).nesting = 1 := rfl
    rw [start] at hstart
    rw [htokens, List.countP_append]
    omega

end Machine

/-- A rule that succeeds has taken a token, an expression has also looked at what ends it, and no
loop goes round and no expression is begun in another before a token has been taken. So the parser
comes to an end, and its expressions stand no deeper in each other than the text has tokens behind
which they are begun. -/
theorem rules_progress :
    (∀ (l : Lexer) read, term l = .ok read → ∃ ts, ts ≠ [] ∧ Passes l ts read.rest) ∧
    (∀ (l : Lexer) read, expression l = .ok read →
      (∃ ts, ts ≠ [] ∧ Passes l ts read.rest) ∧
      ∃ t, read.rest.peeked = some t ∧ t.kind ∈ [.dot, .closeParen, .endOfInput]) ∧
    (∀ entry next : Entry Lexer, Enters entry next →
      next.rule ∈ [.parameters, .chain, .expression] →
      ∃ ts, ts ≠ [] ∧ Passes entry.source ts next.source) ∧
    ∀ text : String,
      (Machine.start text).run (5 * (text.length + 1)) = (parse text).map .stopped ∧
      ∀ n m, (Machine.start text).run n = .ok m →
        m.nesting ≤ (TokenStream.ofText text).tokens.countP Token.opens + 1 := by
  refine ⟨fun l read h => ?_, fun l read h => ?_, fun _ _ => Enters.exists_passes,
    fun text => ⟨Machine.run_start text, fun _ _ => Machine.nesting_le⟩⟩
  · have hread : outcome (term l) = .ok (read.value, read.rest) := by rw [h]; rfl
    exact (rules_take.1 l).1 _ _ hread
  · have hread : outcome (expression l) = .ok (read.value, read.rest) := by rw [h]; rfl
    exact ⟨(rules_take.1 l).2.2.2 _ _ hread, (atBreak_of_expression hread).exists_peeked⟩

theorem rules_progress_nested :
    let text := "λx.(x)"
    let l := Lexer.ofText text
    let outer : Lexer := ⟨⟨5, ['x', ')']⟩, some ⟨.openParen, "(", 4⟩⟩
    let inner : Lexer := ⟨⟨5, ['x', ')']⟩, none⟩
    (∃ read, term l = .ok read ∧ ∃ ts, ts ≠ [] ∧ Passes l ts read.rest) ∧
    (∃ read, expression inner = .ok read ∧ (∃ ts, ts ≠ [] ∧ Passes inner ts read.rest) ∧
      ∃ t, read.rest.peeked = some t ∧ t.kind ∈ [.dot, .closeParen, .endOfInput]) ∧
    (Enters ⟨.group, outer⟩ ⟨.expression, inner⟩ ∧ ∃ ts, ts ≠ [] ∧ Passes outer ts inner) ∧
    ∃ m, (Machine.start text).run 10 = .ok m ∧ m.nesting = 3 ∧
      m.nesting ≤ (TokenStream.ofText text).tokens.countP Token.opens + 1 := by
  intro text l outer inner
  obtain ⟨hterm, hexpression, henters, htext⟩ := rules_progress
  have houtcome : outcome (term l) =
      .ok (.abs "x" (.var "x"), ⟨⟨7, []⟩, some ⟨.endOfInput, "", 7⟩⟩) := by decide +kernel
  have hinner : outcome (expression inner) =
      .ok (.var "x", ⟨⟨7, []⟩, some ⟨.closeParen, ")", 6⟩⟩) := by decide +kernel
  obtain ⟨read, hread, -⟩ := map_eq_ok_iff.1 houtcome
  obtain ⟨readInner, hreadInner, -⟩ := map_eq_ok_iff.1 hinner
  have htake : take .openParen .term outer = .ok (⟨.openParen, "(", 4⟩, inner) := rfl
  have hgrouped : Enters ⟨.group, outer⟩ ⟨.expression, inner⟩ := .grouped htake
  have hrun : (Machine.start text).run 10 = .ok (.running (.chain (.var "x"))
      [.closing, .operator, .body ["x"], .operator] ⟨⟨6, [')']⟩, none⟩) := by decide +kernel
  exact ⟨⟨read, hread, hterm _ read hread⟩,
    ⟨readInner, hreadInner, hexpression _ readInner hreadInner⟩,
    ⟨hgrouped, henters _ _ hgrouped (by decide)⟩,
    _, hrun, rfl, (htext text).2 10 _ hrun⟩

end LambdaCalculus.Parser
