import LambdaCalculus.Parser.Machine
import LambdaCalculus.Proofs.Progress

namespace LambdaCalculus.Parser

namespace Machine

variable {σ : Type} [TokenSource σ] {α : Type}

theorem run_succ (m : Machine σ) (n : Nat) :
    m.run (n + 1) = m.step >>= fun next => next.run n := rfl

theorem run_add (m : Machine σ) (n k : Nat) :
    m.run (n + k) = m.run n >>= fun next => next.run k := by
  induction n generalizing m with
  | zero => rw [Nat.zero_add]; rfl
  | succ n ih =>
    rw [Nat.add_right_comm, run_succ, run_succ, bind_assoc]
    exact bind_congr fun next => ih next

@[simp]
theorem run_stopped (e : Term) (n : Nat) : (stopped e : Machine σ).run n = .ok (stopped e) := by
  induction n with
  | zero => rfl
  | succ n ih => exact ih

/-- Some steps of the machine lead from the one to the other. A failure leads to itself. -/
def Leads (before after : Except ParseError (Machine σ)) : Prop :=
  ∃ n, (before >>= fun m => m.run n) = after

namespace Leads

variable {before between after : Except ParseError (Machine σ)}

theorem refl (before : Except ParseError (Machine σ)) : Leads before before :=
  ⟨0, by cases before <;> rfl⟩

theorem trans (h : Leads before between) (h' : Leads between after) : Leads before after := by
  obtain ⟨n, rfl⟩ := h
  obtain ⟨k, rfl⟩ := h'
  refine ⟨n + k, ?_⟩
  rw [bind_assoc]
  exact bind_congr fun m => m.run_add n k

theorem step (m : Machine σ) : Leads (pure m) m.step := by
  refine ⟨1, ?_⟩
  rw [pure_bind, run_succ]
  cases m.step <;> rfl

theorem bind {x : Except ParseError α} {k g : α → Except ParseError (Machine σ)}
    (h : ∀ a, x = .ok a → Leads (k a) (g a)) : Leads (x >>= k) (x >>= g) := by
  cases x with
  | error e => exact refl _
  | ok a => exact h a rfl

end Leads

theorem parameters_leads (s : σ) : ∀ found frames,
    Leads (pure (running (.parameters found) frames s)) (do
      let (params, s₁) ← outcome (parameters s)
      let (_, s₂) ← take .dot .dot s₁
      return running .expression (.body (found ++ params) :: frames) s₂) := by
  induction s using parameters_induction with
  | step s ih =>
    intro found frames
    refine (Leads.step _).trans ?_
    rw [outcome_parameters, Machine.step, bind_assoc]
    refine Leads.bind fun p hp => ?_
    rw [bind_assoc]
    refine Leads.bind fun t ht => ?_
    dsimp only
    split
    · rename_i hk
      have hrest := ih p.1 p.2 t.1 t.2 hp ht hk (found ++ [p.1.text]) frames
      simpa only [bind_assoc, pure_bind, List.append_assoc, List.singleton_append] using hrest
    · rw [pure_bind]
      exact Leads.refl _

/-- Begun with a rule, the machine comes to hand back what the rule has read, with the calls that
wait as they were. -/
def Performs (control : Control) (rule : σ → Except ParseError (Term × σ)) (s : σ) : Prop :=
  ∀ frames, Leads (pure (running control frames s)) (do
    let (e, s') ← rule s
    return running (.returned e) frames s')

theorem rules_perform :
    (∀ s : σ, Performs .term (fun s => outcome (term s)) s ∧
      Performs .abstraction (fun s => outcome (abstraction s)) s ∧
      Performs .group (fun s => outcome (group s)) s ∧
      Performs .expression (fun s => outcome (expression s)) s) ∧
    ∀ f (s : σ), Performs (.chain f) (fun s => outcome (chain f s)) s := by
  refine rules_induction _ _ _ _ _ ?term ?abstraction ?group ?expression ?chain
  case term =>
    intro s habs hgroup frames
    refine (Leads.step _).trans ?_
    dsimp only
    rw [outcome_term, Machine.step, bind_assoc]
    refine Leads.bind fun t ht => ?_
    dsimp only
    cases hk : t.1.kind with
    | identifier =>
      simp only [bind_assoc, pure_bind]
      exact Leads.refl _
    | lambda => exact habs t.1 t.2 ht hk frames
    | openParen => exact hgroup t.1 t.2 ht hk frames
    | dot | closeParen | endOfInput => exact Leads.refl _
  case abstraction =>
    intro s ih frames
    refine (Leads.step _).trans ?_
    dsimp only
    rw [outcome_abstraction, Machine.step, bind_assoc]
    refine Leads.bind fun t ht => (parameters_leads t.2 [] frames).trans ?_
    rw [bind_assoc]
    refine Leads.bind fun ps hps => ?_
    rw [bind_assoc]
    refine Leads.bind fun d hd => ?_
    refine (ih t.1 t.2 ps.1 ps.2 d.1 d.2 ht hps hd _).trans ?_
    rw [bind_assoc]
    exact Leads.bind fun b _ => Leads.step _
  case group =>
    intro s ih frames
    refine (Leads.step _).trans ?_
    dsimp only
    rw [outcome_group, Machine.step, bind_assoc]
    refine Leads.bind fun t ht => (ih t.1 t.2 ht _).trans ?_
    rw [bind_assoc]
    refine Leads.bind fun e _ => (Leads.step _).trans ?_
    rw [bind_assoc]
    exact Leads.refl _
  case expression =>
    intro s hterm hchain frames
    refine (Leads.step _).trans ((hterm _).trans ?_)
    dsimp only
    rw [outcome_expression, bind_assoc]
    exact Leads.bind fun f hf => (Leads.step _).trans (hchain f.1 f.2 hf frames)
  case chain =>
    intro f s ih frames
    refine (Leads.step _).trans ?_
    dsimp only
    rw [outcome_chain, Machine.step, bind_assoc]
    refine Leads.bind fun t ht => ?_
    dsimp only
    split
    · rename_i hb
      obtain ⟨hterm, hchain⟩ := ih t.1 t.2 ht hb
      refine (hterm _).trans ?_
      rw [bind_assoc]
      exact Leads.bind fun a ha => (Leads.step _).trans (hchain a.1 a.2 ha frames)
    · rw [pure_bind]
      exact Leads.refl _

theorem start_leads (text : String) :
    Leads (pure (start text)) ((parse text).map stopped) := by
  have hmap : (parse text).map stopped =
      parse text >>= fun e => pure (stopped e : Machine Lexer) := by
    cases parse text <;> rfl
  rw [hmap, parse, program_eq, bind_assoc]
  refine ((rules_perform.1 _).2.2.2 []).trans (Leads.bind fun read _ => ?_)
  refine (Leads.step _).trans ?_
  rw [bind_assoc]
  exact Leads.refl _

end Machine

end LambdaCalculus.Parser
