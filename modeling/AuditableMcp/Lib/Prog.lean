import Mathlib.Logic.Relation
import Mathlib.Logic.Function.Basic
/-!
# Programs that ask their environment

An asynchronous program is a tree: it has returned, or it asks the environment something and
continues on the reply (`Prog`). What it does between two asks is pure, so other programs can only
come between at an ask.

* `Wp` — the weakest precondition under interference: before each ask the shared state may move by
  `rely`, and the ask must be one the program `may` make there. Sequential runs are the instance
  with no interference (`Setting.seq`), and `Runs` is their big-step execution.
* `Tandem` — two programs that ask the same whatever they are answered, and return related values.
* `Pool` — any number of threads over one shared state, interleaving at every ask; `pool_ok` is the
  rely–guarantee rule for them, and `pool_invariant` the case where all threads rely on one thing.
* `Act` — a program over a thread's own state that can also raise; a raise keeps the state.
-/
namespace Effect

/-- A program asking queries of `Q`, `q` being answered by an `R q`. -/
inductive Prog (Q : Type) (R : Q → Type) (α : Type)
  | ret (a : α)
  | ask (q : Q) (k : R q → Prog Q R α)

variable {Q : Type} {R : Q → Type} {α β : Type} {σ : Type}

namespace Prog

def bind : Prog Q R α → (α → Prog Q R β) → Prog Q R β
  | .ret a, f => f a
  | .ask q k, f => .ask q fun r => (k r).bind f

instance : Monad (Prog Q R) where
  pure := .ret
  bind := bind

end Prog

/-- A shared state's environment, the interference on it, and what a program may ask in it. -/
structure Setting (Q : Type) (R : Q → Type) (σ : Type) where
  env : σ → (q : Q) → R q → σ → Prop
  rely : σ → σ → Prop
  may : σ → Q → Prop

/-- No interference, and no restriction. -/
def Setting.seq (env : σ → (q : Q) → R q → σ → Prop) : Setting Q R σ := ⟨env, Eq, fun _ _ => True⟩

/-- Every run of `p` from `s` asks only what it may, and ends in `P`. -/
def Wp (E : Setting Q R σ) : Prog Q R α → (α → σ → Prop) → σ → Prop
  | .ret a, P, s => P a s
  | .ask q k, P, s => ∀ s₁, E.rely s s₁ → E.may s₁ q ∧ ∀ r s', E.env s₁ q r s' → Wp E (k r) P s'

theorem Wp.mono {E : Setting Q R σ} {P P' : α → σ → Prop} (hP : ∀ a s, P a s → P' a s) :
    ∀ {p : Prog Q R α} {s : σ}, Wp E p P s → Wp E p P' s
  | .ret _, _, h => hP _ _ h
  | .ask _ _, _, h => fun s₁ hs =>
    ⟨(h s₁ hs).1, fun r s' he => Wp.mono hP ((h s₁ hs).2 r s' he)⟩

theorem Wp_bind {E : Setting Q R σ} {P : β → σ → Prop} {f : α → Prog Q R β} :
    ∀ {p : Prog Q R α} {s : σ}, Wp E (p.bind f) P s ↔ Wp E p (fun a => Wp E (f a) P) s
  | .ret _, _ => Iff.rfl
  | .ask q k, s => by
    simp only [Prog.bind, Wp]
    constructor
    · intro h s₁ hs
      exact ⟨(h s₁ hs).1, fun r s' he => Wp_bind.1 ((h s₁ hs).2 r s' he)⟩
    · intro h s₁ hs
      exact ⟨(h s₁ hs).1, fun r s' he => Wp_bind.2 ((h s₁ hs).2 r s' he)⟩

/-- Interference before the program starts is interference it already allows for. -/
theorem Wp.stable {E : Setting Q R σ} (htrans : ∀ a b c, E.rely a b → E.rely b c → E.rely a c)
    {P : α → σ → Prop} (hP : ∀ a s s', P a s → E.rely s s' → P a s') {p : Prog Q R α} {s s' : σ}
    (h : Wp E p P s) (hs : E.rely s s') : Wp E p P s' := by
  cases p with
  | ret a => exact hP a s s' h hs
  | ask q k => exact fun s₁ hs₁ => h s₁ (htrans _ _ _ hs hs₁)

/-! ## Sequential runs -/

/-- `p` runs from `s` to `a` and `s'`. -/
inductive Runs (env : σ → (q : Q) → R q → σ → Prop) : Prog Q R α → σ → α → σ → Prop
  | ret (a : α) (s : σ) : Runs env (.ret a) s a s
  | ask {q : Q} {k : R q → Prog Q R α} {s s₁ s' : σ} {r : R q} {a : α} :
      env s q r s₁ → Runs env (k r) s₁ a s' → Runs env (.ask q k) s a s'

theorem Runs.bind {env : σ → (q : Q) → R q → σ → Prop} {p : Prog Q R α} {f : α → Prog Q R β} {s s₁ s' : σ}
    {a : α} {b : β} (hp : Runs env p s a s₁) (hf : Runs env (f a) s₁ b s') : Runs env (p.bind f) s b s' := by
  induction hp with
  | ret a s => exact hf
  | ask he _ ih => exact .ask he (ih hf)

theorem Runs.mono {env env' : σ → (q : Q) → R q → σ → Prop} (henv : ∀ s q r s', env s q r s' → env' s q r s')
    {p : Prog Q R α} {s s' : σ} {a : α} (h : Runs env p s a s') : Runs env' p s a s' := by
  induction h with
  | ret a s => exact .ret a s
  | ask he _ ih => exact .ask (henv _ _ _ _ he) ih

/-- A program runs to its end where every ask has an answer. -/
theorem runs_total {env : σ → (q : Q) → R q → σ → Prop} (henv : ∀ s q, ∃ r s', env s q r s') :
    ∀ (p : Prog Q R α) (s : σ), ∃ a s', Runs env p s a s'
  | .ret a, s => ⟨a, s, .ret a s⟩
  | .ask q k, s => by
    obtain ⟨r, s₁, he⟩ := henv s q
    obtain ⟨a, s', hr⟩ := runs_total henv (k r) s₁
    exact ⟨a, s', .ask he hr⟩

/-- The run in which a strategy gives the answers, as long as it has them. -/
def Prog.exec (f : σ → (q : Q) → Option (R q × σ)) : Prog Q R α → σ → Option (α × σ)
  | .ret a, s => some (a, s)
  | .ask q k, s =>
    match f s q with
    | some (r, s') => (k r).exec f s'
    | none => none

theorem Prog.exec_runs {env : σ → (q : Q) → R q → σ → Prop} {f : σ → (q : Q) → Option (R q × σ)}
    (hf : ∀ s q r s', f s q = some (r, s') → env s q r s') : ∀ {p : Prog Q R α} {s s' : σ} {a : α},
    p.exec f s = some (a, s') → Runs env p s a s'
  | .ret a, s, s', b, h => by
    obtain ⟨rfl, rfl⟩ := Prod.mk.inj (Option.some.inj h)
    exact .ret _ _
  | .ask q k, s, s', b, h => by
    rw [exec] at h
    cases hq : f s q with
    | none =>
      rw [hq] at h
      cases h
    | some x =>
      rw [hq] at h
      exact .ask (hf s q x.1 x.2 hq) (exec_runs hf h)

theorem Wp.runs {env : σ → (q : Q) → R q → σ → Prop} {P : α → σ → Prop} {p : Prog Q R α}
    {s s' : σ} {a : α} (h : Wp (.seq env) p P s) (hr : Runs env p s a s') : P a s' := by
  induction hr with
  | ret a s => exact h
  | ask he _ ih => exact ih ((h _ rfl).2 _ _ he)

/-- The environment of a setting, its interference put before each answer. -/
def Setting.interfered (E : Setting Q R σ) (s : σ) (q : Q) (r : R q) (s' : σ) : Prop :=
  ∃ s₁, E.rely s s₁ ∧ E.env s₁ q r s'

/-- A program that runs to its end, other programs coming between its asks. -/
theorem Wp.runs_interfered {E : Setting Q R σ} {P : α → σ → Prop} {p : Prog Q R α} {s s' : σ} {a : α} (h : Wp E p P s)
    (hr : Runs E.interfered p s a s') : P a s' := by
  induction hr with
  | ret a s => exact h
  | ask he _ ih =>
    obtain ⟨s₁, hrely, henv⟩ := he
    exact ih ((h s₁ hrely).2 _ _ henv)

@[simp] theorem Wp_seq_ret {env : σ → (q : Q) → R q → σ → Prop} {P : α → σ → Prop} {a : α} {s : σ} :
    Wp (.seq env) (.ret a) P s ↔ P a s := Iff.rfl

@[simp] theorem Wp_seq_ask {env : σ → (q : Q) → R q → σ → Prop} {P : α → σ → Prop} {q : Q}
    {k : R q → Prog Q R α} {s : σ} :
    Wp (.seq env) (.ask q k) P s ↔ ∀ r s', env s q r s' → Wp (.seq env) (k r) P s' := by
  constructor
  · intro h r s' he; exact (h s rfl).2 r s' he
  · rintro h s₁ rfl; exact ⟨trivial, h⟩

/-! ## Two programs in tandem -/

/-- They ask the same, whatever they are answered, and what they return is related. -/
inductive Tandem (P : α → β → Prop) : Prog Q R α → Prog Q R β → Prop
  | ret {a : α} {b : β} : P a b → Tandem P (.ret a) (.ret b)
  | ask {q : Q} {k : R q → Prog Q R α} {k' : R q → Prog Q R β} :
      (∀ r, Tandem P (k r) (k' r)) → Tandem P (.ask q k) (.ask q k')

section Tandem

variable {α' β' : Type} {P : α → β → Prop} {p : Prog Q R α} {p' : Prog Q R β}

theorem Tandem.mono {P' : α → β → Prop} (hP : ∀ a b, P a b → P' a b) (h : Tandem P p p') : Tandem P' p p' := by
  induction h with
  | ret hp => exact .ret (hP _ _ hp)
  | ask _ ih => exact .ask ih

theorem Tandem.flip (h : Tandem P p p') : Tandem (fun b a => P a b) p' p := by
  induction h with
  | ret hp => exact .ret hp
  | ask _ ih => exact .ask ih

theorem Tandem.bind {P' : α' → β' → Prop} {f : α → Prog Q R α'} {f' : β → Prog Q R β'} (h : Tandem P p p')
    (hf : ∀ a b, P a b → Tandem P' (f a) (f' b)) : Tandem P' (p.bind f) (p'.bind f') := by
  induction h with
  | ret hp => exact hf _ _ hp
  | ask _ ih => exact .ask ih

/-- What one can do in an environment, the other can. -/
theorem Tandem.runs {env : σ → (q : Q) → R q → σ → Prop} (h : Tandem P p p') {s s' : σ} {a : α}
    (hr : Runs env p s a s') : ∃ b, Runs env p' s b s' ∧ P a b := by
  induction hr generalizing p' with
  | ret a s =>
    cases h with
    | ret hp => exact ⟨_, .ret _ _, hp⟩
  | @ask q k s s₁ s' r a he _ ih =>
    cases h with
    | ask hk =>
      obtain ⟨b, hrun, hp⟩ := ih (hk r)
      exact ⟨b, .ask he hrun, hp⟩

end Tandem

/-! ## Pools of threads -/

/-- A thread between two operations, or inside one. -/
inductive Thread (Q : Type) (R : Q → Type) (Λ : Type)
  | idle (l : Λ)
  | run (p : Prog Q R Λ)

/-- Threads over one shared state; `none` is a thread not yet born. -/
structure Pool (Q : Type) (R : Q → Type) (σ Λ ι : Type) where
  shared : σ
  threads : ι → Option (Thread Q R Λ)

variable {Λ ι : Type} [DecidableEq ι]

/-- One step of a pool: a thread is born, starts an operation, is answered, or finishes one. -/
inductive Pool.Step (env : σ → (q : Q) → R q → σ → Prop) (born : Prog Q R Λ → Prop)
    (ops : Λ → Prog Q R Λ → Prop) : Pool Q R σ Λ ι → Pool Q R σ Λ ι → Prop
  | spawn (S : Pool Q R σ Λ ι) (i : ι) (p : Prog Q R Λ) : S.threads i = none → born p →
      Step env born ops S ⟨S.shared, Function.update S.threads i (some (.run p))⟩
  | start (S : Pool Q R σ Λ ι) (i : ι) (l : Λ) (p : Prog Q R Λ) :
      S.threads i = some (.idle l) → ops l p →
      Step env born ops S ⟨S.shared, Function.update S.threads i (some (.run p))⟩
  | answer (S : Pool Q R σ Λ ι) (i : ι) (q : Q) (k : R q → Prog Q R Λ) (r : R q) (s' : σ) :
      S.threads i = some (.run (.ask q k)) → env S.shared q r s' →
      Step env born ops S ⟨s', Function.update S.threads i (some (.run (k r)))⟩
  | finish (S : Pool Q R σ Λ ι) (i : ι) (l : Λ) : S.threads i = some (.run (.ret l)) →
      Step env born ops S ⟨S.shared, Function.update S.threads i (some (.idle l))⟩

/-- One step of a pool whose environment knows the thread it answers. -/
inductive Pool.StepAt (env : ι → σ → (q : Q) → R q → σ → Prop) (born : Prog Q R Λ → Prop)
    (ops : Λ → Prog Q R Λ → Prop) : Pool Q R σ Λ ι → Pool Q R σ Λ ι → Prop
  | spawn (S : Pool Q R σ Λ ι) (i : ι) (p : Prog Q R Λ) : S.threads i = none → born p →
      StepAt env born ops S ⟨S.shared, Function.update S.threads i (some (.run p))⟩
  | start (S : Pool Q R σ Λ ι) (i : ι) (l : Λ) (p : Prog Q R Λ) :
      S.threads i = some (.idle l) → ops l p →
      StepAt env born ops S ⟨S.shared, Function.update S.threads i (some (.run p))⟩
  | answer (S : Pool Q R σ Λ ι) (i : ι) (q : Q) (k : R q → Prog Q R Λ) (r : R q) (s' : σ) :
      S.threads i = some (.run (.ask q k)) → env i S.shared q r s' →
      StepAt env born ops S ⟨s', Function.update S.threads i (some (.run (k r)))⟩
  | finish (S : Pool Q R σ Λ ι) (i : ι) (l : Λ) : S.threads i = some (.run (.ret l)) →
      StepAt env born ops S ⟨S.shared, Function.update S.threads i (some (.idle l))⟩

/-- An environment that does not look at the thread. -/
theorem Pool.stepAt_const {env : σ → (q : Q) → R q → σ → Prop} {born : Prog Q R Λ → Prop}
    {ops : Λ → Prog Q R Λ → Prop} {S S' : Pool Q R σ Λ ι} :
    Pool.StepAt (fun _ => env) born ops S S' ↔ Pool.Step env born ops S S' := by
  constructor
  · rintro (⟨i, p, h, hb⟩ | ⟨i, l, p, h, hp⟩ | ⟨i, q, k, r, s', h, he⟩ | ⟨i, l, h⟩)
    exacts [.spawn _ i p h hb, .start _ i l p h hp, .answer _ i q k r s' h he, .finish _ i l h]
  · rintro (⟨i, p, h, hb⟩ | ⟨i, l, p, h, hp⟩ | ⟨i, q, k, r, s', h, he⟩ | ⟨i, l, h⟩)
    exacts [.spawn _ i p h hb, .start _ i l p h hp, .answer _ i q k r s' h he, .finish _ i l h]

theorem Pool.runs_const {env : σ → (q : Q) → R q → σ → Prop} {born : Prog Q R Λ → Prop}
    {ops : Λ → Prog Q R Λ → Prop} {S S' : Pool Q R σ Λ ι} :
    Relation.ReflTransGen (Pool.StepAt (fun _ => env) born ops) S S' ↔
      Relation.ReflTransGen (Pool.Step env born ops) S S' :=
  ⟨fun h => h.lift id fun _ _ => stepAt_const.1, fun h => h.lift id fun _ _ => stepAt_const.2⟩

section Alone

variable {env : ι → σ → (q : Q) → R q → σ → Prop} {born : Prog Q R Λ → Prop} {ops : Λ → Prog Q R Λ → Prop}
  {p : Prog Q R Λ} {s s' : σ} {l l' : Λ} (i : ι)

/-- A thread that runs alone finishes its program. -/
theorem Pool.run_alone (h : Runs (env i) p s l s') : ∀ T : ι → Option (Thread Q R Λ), T i = some (.run p) →
    Relation.ReflTransGen (Pool.StepAt env born ops) ⟨s, T⟩ ⟨s', Function.update T i (some (.idle l))⟩ := by
  induction h with
  | ret l s => exact fun T hT => .single (.finish ⟨s, T⟩ i l hT)
  | @ask q k s s₁ s' r l he _ ih =>
    intro T hT
    have hrest := ih (Function.update T i (some (.run (k r)))) (Function.update_self ..)
    rw [Function.update_idem] at hrest
    exact .head (.answer ⟨s, T⟩ i q k r s₁ hT he) hrest

/-- An operation run alone. -/
theorem Pool.op_alone {T : ι → Option (Thread Q R Λ)} (hT : T i = some (.idle l)) (hp : ops l p)
    (h : Runs (env i) p s l' s') :
    Relation.ReflTransGen (Pool.StepAt env born ops) ⟨s, T⟩ ⟨s', Function.update T i (some (.idle l'))⟩ := by
  have hrun := @Pool.run_alone Q R σ Λ ι _ env born ops p s s' l' i h (Function.update T i (some (.run p)))
    (Function.update_self ..)
  rw [Function.update_idem] at hrun
  exact .head (.start ⟨s, T⟩ i l p hT hp) hrun

/-- A thread born and run alone. -/
theorem Pool.born_alone {T : ι → Option (Thread Q R Λ)} (hT : T i = none) (hp : born p)
    (h : Runs (env i) p s l s') :
    Relation.ReflTransGen (Pool.StepAt env born ops) ⟨s, T⟩ ⟨s', Function.update T i (some (.idle l))⟩ := by
  have hrun := @Pool.run_alone Q R σ Λ ι _ env born ops p s s' l i h (Function.update T i (some (.run p)))
    (Function.update_self ..)
  rw [Function.update_idem] at hrun
  exact .head (.spawn ⟨s, T⟩ i p hT hp) hrun

/-- The next program of a thread that is in none, run alone while a strategy gives the answers. -/
def Pool.turn (f : σ → (q : Q) → Option (R q × σ)) (i : ι) (next : Option Λ → Option (Prog Q R Λ))
    (S : Pool Q R σ Λ ι) : Option (Pool Q R σ Λ ι) :=
  let program := match S.threads i with
    | none => next none
    | some (.idle l) => next (some l)
    | some (.run _) => none
  match program with
  | some p => (p.exec f S.shared).map fun x => ⟨x.2, Function.update S.threads i (some (.idle x.1))⟩
  | none => none

theorem Pool.turn_runs {f : σ → (q : Q) → Option (R q × σ)} {next : Option Λ → Option (Prog Q R Λ)}
    {S S' : Pool Q R σ Λ ι} (hf : ∀ s q r s', f s q = some (r, s') → env i s q r s')
    (hborn : ∀ p, next none = some p → born p) (hops : ∀ l p, next (some l) = some p → ops l p)
    (h : S.turn f i next = some S') : Relation.ReflTransGen (Pool.StepAt env born ops) S S' := by
  obtain ⟨s, T⟩ := S
  simp only [Pool.turn] at h
  split at h
  · next p hp =>
    obtain ⟨x, hx, rfl⟩ := Option.map_eq_some_iff.1 h
    have hrun := Prog.exec_runs hf hx
    split at hp
    · next hT => exact Pool.born_alone i hT (hborn p hp) hrun
    · next l hT => exact Pool.op_alone i hT (hops l p hp) hrun
    · cases hp
  · cases h

end Alone

/-! ### The rely–guarantee rule -/

/-- What a thread is known by: its own invariant between operations, and inside one that the rest of
the operation re-establishes it. -/
def Thread.Ok (E : Setting Q R σ) (Loc : Λ → σ → Prop) : Thread Q R Λ → σ → Prop
  | .idle l, s => Loc l s
  | .run p, s => Wp E p Loc s

/-- A setting where the shared invariant may be assumed at every ask. -/
def Setting.under (Inv : σ → Prop) (env : σ → (q : Q) → R q → σ → Prop) (rely : σ → σ → Prop)
    (may : σ → Q → Prop) : Setting Q R σ := ⟨fun s q r s' => Inv s ∧ env s q r s', rely, may⟩

theorem Wp.under {E : Setting Q R σ} (Inv : σ → Prop) {P : α → σ → Prop} :
    ∀ {p : Prog Q R α} {s : σ}, Wp E p P s → Wp (.under Inv E.env E.rely E.may) p P s
  | .ret _, _, h => h
  | .ask _ _, _, h => fun s₁ hs => ⟨(h s₁ hs).1, fun r s' he => ((h s₁ hs).2 r s' he.2).under Inv⟩

/-- The obligations of the rely–guarantee rule, each thread having its own rely, and being born where the
shared state knows nothing of it yet. -/
structure GuaranteeFrom (env : ι → σ → (q : Q) → R q → σ → Prop) (rely : ι → σ → σ → Prop) (may : ι → σ → Q → Prop)
    (born : Prog Q R Λ → Prop) (ops : Λ → Prog Q R Λ → Prop) (Inv : σ → Prop) (Unborn : ι → σ → Prop)
    (Loc : ι → Λ → σ → Prop) : Prop where
  trans : ∀ i a b c, rely i a b → rely i b c → rely i a c
  refl : ∀ i s, rely i s s
  unborn : ∀ i s s', Unborn i s → rely i s s' → Unborn i s'
  loc : ∀ i l s s', Loc i l s → rely i s s' → Loc i l s'
  step : ∀ {i s q r s'}, Inv s → may i s q → env i s q r s' → Inv s' ∧ ∀ j, j ≠ i → rely j s s'
  born : ∀ {i s p}, Inv s → Unborn i s → born p → Wp (.under Inv (env i) (rely i) (may i)) p (Loc i) s
  ops : ∀ {i s l p}, Inv s → Loc i l s → ops l p → Wp (.under Inv (env i) (rely i) (may i)) p (Loc i) s

section Rule

variable {env : ι → σ → (q : Q) → R q → σ → Prop} {rely : ι → σ → σ → Prop} {may : ι → σ → Q → Prop}
  {born : Prog Q R Λ → Prop} {ops : Λ → Prog Q R Λ → Prop} {Inv : σ → Prop} {Unborn : ι → σ → Prop}
  {Loc : ι → Λ → σ → Prop}

omit [DecidableEq ι] in
theorem Thread.Ok.stable (G : GuaranteeFrom env rely may born ops Inv Unborn Loc) {i : ι} {t : Thread Q R Λ} {s s' : σ}
    (h : t.Ok (.under Inv (env i) (rely i) (may i)) (Loc i) s) (hs : rely i s s') :
    t.Ok (.under Inv (env i) (rely i) (may i)) (Loc i) s' := by
  cases t with
  | idle l => exact G.loc i l s s' h hs
  | run p =>
    have hp : Wp (.under Inv (env i) (rely i) (may i)) p (Loc i) s := h
    exact hp.stable (G.trans i) (G.loc i) hs

/-- A pool whose shared state is good and whose threads all are. -/
def Pool.Ok (E : ι → Setting Q R σ) (Inv : σ → Prop) (Loc : ι → Λ → σ → Prop) (S : Pool Q R σ Λ ι) : Prop :=
  Inv S.shared ∧ ∀ i t, S.threads i = some t → t.Ok (E i) (Loc i) S.shared

/-- The shared state knows nothing of the threads not yet born. -/
def Pool.Fresh (Unborn : ι → σ → Prop) (S : Pool Q R σ Λ ι) : Prop :=
  ∀ i, S.threads i = none → Unborn i S.shared

theorem Pool.Ok.step (G : GuaranteeFrom env rely may born ops Inv Unborn Loc) {S S' : Pool Q R σ Λ ι}
    (h : S.Ok (fun i => .under Inv (env i) (rely i) (may i)) Inv Loc) (hf : S.Fresh Unborn)
    (hs : S.StepAt env born ops S') :
    S'.Ok (fun i => .under Inv (env i) (rely i) (may i)) Inv Loc ∧ S'.Fresh Unborn := by
  obtain ⟨hI, hT⟩ := h
  -- a thread of the new pool is the one that moved, or an old one
  have upd : ∀ {i : ι} {u : Thread Q R Λ} {s' : σ}, (∀ j, j ≠ i → rely j S.shared s') →
      u.Ok (.under Inv (env i) (rely i) (may i)) (Loc i) s' → (∀ j t,
      Function.update S.threads i (some u) j = some t → t.Ok (.under Inv (env j) (rely j) (may j)) (Loc j) s') ∧
      Pool.Fresh Unborn ⟨s', Function.update S.threads i (some u)⟩ := by
    intro i u s' hrel hu
    refine ⟨fun j t ht => ?_, fun j hj => ?_⟩
    · rw [Function.update_apply] at ht
      split at ht
      · next hj => cases ht; cases hj; exact hu
      · next hj => exact (hT j t ht).stable G (hrel j hj)
    · simp only [Function.update_apply] at hj
      split at hj
      · cases hj
      · next hne => exact G.unborn j _ _ (hf j hj) (hrel j hne)
  cases hs with
  | spawn i p hi hb =>
    have hp : (Thread.run p).Ok (.under Inv (env i) (rely i) (may i)) (Loc i) S.shared := G.born hI (hf i hi) hb
    exact ⟨⟨hI, (upd (fun j _ => G.refl j _) hp).1⟩, (upd (fun j _ => G.refl j _) hp).2⟩
  | start i l p hl hp =>
    have hp : (Thread.run p).Ok (.under Inv (env i) (rely i) (may i)) (Loc i) S.shared := G.ops hI (hT i _ hl) hp
    exact ⟨⟨hI, (upd (fun j _ => G.refl j _) hp).1⟩, (upd (fun j _ => G.refl j _) hp).2⟩
  | answer i q k r s' hi he =>
    have hp : Wp (.under Inv (env i) (rely i) (may i)) (.ask q k) (Loc i) S.shared := hT i _ hi
    have hw := hp _ (G.refl i _)
    obtain ⟨hI', hrel⟩ := G.step hI hw.1 he
    have hk : (Thread.run (k r)).Ok (.under Inv (env i) (rely i) (may i)) (Loc i) s' := hw.2 r s' ⟨hI, he⟩
    exact ⟨⟨hI', (upd hrel hk).1⟩, (upd hrel hk).2⟩
  | finish i l hi =>
    have hl : (Thread.idle l).Ok (.under Inv (env i) (rely i) (may i)) (Loc i) S.shared := hT i (.run (.ret l)) hi
    exact ⟨⟨hI, (upd (fun j _ => G.refl j _) hl).1⟩, (upd (fun j _ => G.refl j _) hl).2⟩

/-- **The rely–guarantee rule**: the shared invariant holds in every reachable pool, and each thread's own. -/
theorem pool_from (G : GuaranteeFrom env rely may born ops Inv Unborn Loc) {s : σ} (h0 : Inv s)
    (hu : ∀ i, Unborn i s) {S : Pool Q R σ Λ ι}
    (hr : Relation.ReflTransGen (Pool.StepAt env born ops) ⟨s, fun _ => none⟩ S) :
    S.Ok (fun i => .under Inv (env i) (rely i) (may i)) Inv Loc ∧ S.Fresh Unborn := by
  induction hr with
  | refl => exact ⟨⟨h0, fun _ _ h => nomatch h⟩, fun i _ => hu i⟩
  | tail _ hs ih => exact ih.1.step G ih.2 hs

end Rule

/-- The obligations of the rule where a thread may be born in any good state. -/
structure GuaranteeAt (env : ι → σ → (q : Q) → R q → σ → Prop) (rely : ι → σ → σ → Prop) (may : ι → σ → Q → Prop)
    (born : Prog Q R Λ → Prop) (ops : Λ → Prog Q R Λ → Prop) (Inv : σ → Prop) (Loc : ι → Λ → σ → Prop) : Prop where
  trans : ∀ i a b c, rely i a b → rely i b c → rely i a c
  refl : ∀ i s, rely i s s
  loc : ∀ i l s s', Loc i l s → rely i s s' → Loc i l s'
  step : ∀ {i s q r s'}, Inv s → may i s q → env i s q r s' → Inv s' ∧ ∀ j, j ≠ i → rely j s s'
  born : ∀ {i s p}, Inv s → born p → Wp (.under Inv (env i) (rely i) (may i)) p (Loc i) s
  ops : ∀ {i s l p}, Inv s → Loc i l s → ops l p → Wp (.under Inv (env i) (rely i) (may i)) p (Loc i) s

theorem pool_ok {env : ι → σ → (q : Q) → R q → σ → Prop} {rely : ι → σ → σ → Prop} {may : ι → σ → Q → Prop}
    {born : Prog Q R Λ → Prop} {ops : Λ → Prog Q R Λ → Prop} {Inv : σ → Prop} {Loc : ι → Λ → σ → Prop}
    (G : GuaranteeAt env rely may born ops Inv Loc) {s : σ} (h0 : Inv s) {S : Pool Q R σ Λ ι}
    (hr : Relation.ReflTransGen (Pool.StepAt env born ops) ⟨s, fun _ => none⟩ S) :
    S.Ok (fun i => .under Inv (env i) (rely i) (may i)) Inv Loc := by
  have G' : GuaranteeFrom env rely may born ops Inv (fun _ _ => True) Loc :=
    { G with unborn := fun _ _ _ _ _ => trivial, born := fun hI _ hb => G.born hI hb }
  exact (pool_from G' h0 (fun _ => trivial) hr).1

/-- The obligations of the rule where all threads rely on one thing. -/
structure Guarantee (E : Setting Q R σ) (born : Prog Q R Λ → Prop) (ops : Λ → Prog Q R Λ → Prop)
    (Inv : σ → Prop) (Loc : Λ → σ → Prop) : Prop where
  trans : ∀ a b c, E.rely a b → E.rely b c → E.rely a c
  refl : ∀ s, E.rely s s
  inv : ∀ {s s'}, Inv s → E.rely s s' → Inv s'
  loc : ∀ l s s', Loc l s → E.rely s s' → Loc l s'
  guar : ∀ {s q r s'}, Inv s → E.may s q → E.env s q r s' → E.rely s s'
  born : ∀ {s p}, Inv s → born p → Wp E p Loc s
  ops : ∀ {s l p}, Inv s → Loc l s → ops l p → Wp E p Loc s

omit [DecidableEq ι] in
theorem Guarantee.at {E : Setting Q R σ} {born : Prog Q R Λ → Prop} {ops : Λ → Prog Q R Λ → Prop} {Inv : σ → Prop}
    {Loc : Λ → σ → Prop} (G : Guarantee E born ops Inv Loc) :
    GuaranteeAt (fun _ : ι => E.env) (fun _ => E.rely) (fun _ => E.may) born ops Inv (fun _ => Loc) where
  trans := fun _ => G.trans
  refl := fun _ => G.refl
  loc := fun _ => G.loc
  step := fun hI hmay he => ⟨G.inv hI (G.guar hI hmay he), fun _ _ => G.guar hI hmay he⟩
  born := fun hI hb => (G.born hI hb).under Inv
  ops := fun hI hl hp => (G.ops hI hl hp).under Inv

theorem pool_invariant {E : Setting Q R σ} {born : Prog Q R Λ → Prop}
    {ops : Λ → Prog Q R Λ → Prop} {Inv : σ → Prop} {Loc : Λ → σ → Prop}
    (G : Guarantee E born ops Inv Loc) {s : σ} (h0 : Inv s) {S : Pool Q R σ Λ ι}
    (hr : Relation.ReflTransGen (Pool.Step E.env born ops) ⟨s, fun _ => none⟩ S) : Inv S.shared :=
  (pool_ok (G.at (ι := ι)) h0 (Pool.runs_const.2 hr)).1

/-- What is known of a thread between its operations. -/
theorem pool_idle {E : Setting Q R σ} {born : Prog Q R Λ → Prop}
    {ops : Λ → Prog Q R Λ → Prop} {Inv : σ → Prop} {Loc : Λ → σ → Prop}
    (G : Guarantee E born ops Inv Loc) {s : σ} (h0 : Inv s) {S : Pool Q R σ Λ ι}
    (hr : Relation.ReflTransGen (Pool.Step E.env born ops) ⟨s, fun _ => none⟩ S) {i : ι} {l : Λ}
    (hi : S.threads i = some (.idle l)) : Loc l S.shared :=
  (pool_ok (G.at (ι := ι)) h0 (Pool.runs_const.2 hr)).2 i _ hi

/-! ## Actions on a thread's own state -/

/-- A program over a local state `Λ` that can raise an `ε`. -/
def Act (Q : Type) (R : Q → Type) (Λ ε α : Type) : Type := Λ → Prog Q R (Except ε α × Λ)

namespace Act

variable {ε : Type}

protected def pure (a : α) : Act Q R Λ ε α := fun l => .ret (.ok a, l)

protected def bind (m : Act Q R Λ ε α) (f : α → Act Q R Λ ε β) : Act Q R Λ ε β := fun l =>
  (m l).bind fun
    | (.ok a, l') => f a l'
    | (.error e, l') => .ret (.error e, l')

instance : Monad (Act Q R Λ ε) where
  pure := Act.pure
  bind := Act.bind

def get : Act Q R Λ ε Λ := fun l => .ret (.ok l, l)
def modify (f : Λ → Λ) : Act Q R Λ ε Unit := fun l => .ret (.ok (), f l)
def raise (e : ε) : Act Q R Λ ε α := fun l => .ret (.error e, l)

/-- A pure step of the local state that yields a value. -/
def state (f : Λ → α × Λ) : Act Q R Λ ε α := fun l => .ret (.ok (f l).1, (f l).2)

/-- Ask, and wait for the reply. -/
def await (q : Q) : Act Q R Λ ε (R q) := fun l => .ask q fun r => .ret (.ok r, l)

/-- A pure computation that may raise. -/
def lift (x : Except ε α) : Act Q R Λ ε α := fun l => .ret (x, l)

/-- What an action returns or raises, as a value. -/
def caught (m : Act Q R Λ ε α) : Act Q R Λ ε (Except ε α) := fun l => (m l).bind fun x => .ret (.ok x.1, x.2)

/-- The weakest precondition of an action, over its result, local and shared state. -/
def wp (E : Setting Q R σ) (m : Act Q R Λ ε α) (P : Except ε α → Λ → σ → Prop) (l : Λ) (s : σ) : Prop :=
  Wp E (m l) (fun x s' => P x.1 x.2 s') s

variable {E : Setting Q R σ} {P : Except ε α → Λ → σ → Prop} {l : Λ} {s : σ}

theorem wp_mono {P' : Except ε α → Λ → σ → Prop} (hP : ∀ x l s, P x l s → P' x l s)
    {m : Act Q R Λ ε α} (h : wp E m P l s) : wp E m P' l s :=
  Wp.mono (fun _ _ => hP _ _ _) h

@[simp] theorem wp_pure (a : α) : wp E (pure a : Act Q R Λ ε α) P l s ↔ P (.ok a) l s := Iff.rfl

@[simp] theorem wp_raise (e : ε) : wp E (raise e : Act Q R Λ ε α) P l s ↔ P (.error e) l s := Iff.rfl

@[simp] theorem wp_lift (x : Except ε α) : wp E (lift x : Act Q R Λ ε α) P l s ↔ P x l s := Iff.rfl

@[simp] theorem wp_get {P : Except ε Λ → Λ → σ → Prop} :
    wp E (get : Act Q R Λ ε Λ) P l s ↔ P (.ok l) l s := Iff.rfl

@[simp] theorem wp_modify {P : Except ε Unit → Λ → σ → Prop} (f : Λ → Λ) :
    wp E (modify f : Act Q R Λ ε Unit) P l s ↔ P (.ok ()) (f l) s := Iff.rfl

@[simp] theorem wp_state (f : Λ → α × Λ) :
    wp E (state f : Act Q R Λ ε α) P l s ↔ P (.ok (f l).1) (f l).2 s := Iff.rfl

/-- What follows an action's result: its continuation, or the raise itself. -/
def next (E : Setting Q R σ) (f : α → Act Q R Λ ε β) (P : Except ε β → Λ → σ → Prop) :
    Except ε α → Λ → σ → Prop
  | .ok a, l, s => wp E (f a) P l s
  | .error e, l, s => P (.error e) l s

@[simp] theorem next_ok {f : α → Act Q R Λ ε β} {P : Except ε β → Λ → σ → Prop} (a : α) :
    next E f P (.ok a) l s ↔ wp E (f a) P l s := Iff.rfl

@[simp] theorem next_error {f : α → Act Q R Λ ε β} {P : Except ε β → Λ → σ → Prop} (e : ε) :
    next E f P (.error e) l s ↔ P (.error e) l s := Iff.rfl

@[simp] theorem wp_bind {m : Act Q R Λ ε α} {f : α → Act Q R Λ ε β} {P : Except ε β → Λ → σ → Prop} :
    wp E (m >>= f) P l s ↔ wp E m (next E f P) l s := by
  refine Wp_bind.trans ⟨Wp.mono ?_, Wp.mono ?_⟩
  all_goals rintro ⟨x, l'⟩ s' h; cases x <;> exact h

@[simp] theorem wp_caught {m : Act Q R Λ ε α} {P : Except ε (Except ε α) → Λ → σ → Prop} :
    wp E (caught m) P l s ↔ wp E m (fun x => P (.ok x)) l s := Wp_bind

theorem wp_await {q : Q} {P : Except ε (R q) → Λ → σ → Prop} :
    wp E (await q : Act Q R Λ ε (R q)) P l s ↔
      ∀ s₁, E.rely s s₁ → E.may s₁ q ∧ ∀ r s', E.env s₁ q r s' → P (.ok r) l s' := Iff.rfl

@[simp] theorem wp_await_seq {env : σ → (q : Q) → R q → σ → Prop} {q : Q}
    {P : Except ε (R q) → Λ → σ → Prop} :
    wp (.seq env) (await q : Act Q R Λ ε (R q)) P l s ↔ ∀ r s', env s q r s' → P (.ok r) l s' :=
  Wp_seq_ask

/-- An action that awaits nothing, by its result. -/
theorem wp_seq_of_ret {env : σ → (q : Q) → R q → σ → Prop} {m : Act Q R Λ ε α} {x : Except ε α} {l' : Λ}
    (h : m l = .ret (x, l')) : wp (.seq env) m P l s ↔ P x l' s := by
  rw [wp, h, Wp_seq_ret]

/-- What the weakest precondition says of an action's sequential runs. -/
theorem wp_runs {env : σ → (q : Q) → R q → σ → Prop} {m : Act Q R Λ ε α} {x : Except ε α} {l' : Λ} {s' : σ}
    (h : wp (.seq env) m P l s) (hr : Runs env (m l) s (x, l') s') : P x l' s' :=
  have hw : Wp (.seq env) (m l) (fun x s' => P x.1 x.2 s') s := h
  hw.runs hr

/-- Runs in sequence. -/
theorem runs_bind {env : σ → (q : Q) → R q → σ → Prop} {m : Act Q R Λ ε α} {f : α → Act Q R Λ ε β} {a : α}
    {l₁ : Λ} {s₁ s' : σ} {y : Except ε β × Λ} (hm : Runs env (m l) s (.ok a, l₁) s₁)
    (hf : Runs env (f a l₁) s₁ y s') : Runs env ((m >>= f) l) s y s' :=
  Runs.bind hm hf

/-! ### An action from a state

What an action does first: nothing but its state is needed to reduce it to its next ask. -/

section Reduce

variable {f : α → Act Q R Λ ε β}

@[simp] theorem pure_bind_apply (a : α) : ((pure a : Act Q R Λ ε α) >>= f) l = f a l := rfl

@[simp] theorem lift_ok_bind_apply (a : α) : ((lift (.ok a) : Act Q R Λ ε α) >>= f) l = f a l := rfl

@[simp] theorem get_bind_apply {f : Λ → Act Q R Λ ε β} : ((get : Act Q R Λ ε Λ) >>= f) l = f l l := rfl

@[simp] theorem modify_bind_apply (g : Λ → Λ) {f : Unit → Act Q R Λ ε β} :
    ((modify g : Act Q R Λ ε Unit) >>= f) l = f () (g l) := rfl

@[simp] theorem state_bind_apply (g : Λ → α × Λ) :
    ((state g : Act Q R Λ ε α) >>= f) l = f (g l).1 (g l).2 := rfl

@[simp] theorem await_bind_apply (q : Q) {f : R q → Act Q R Λ ε β} :
    ((await q : Act Q R Λ ε (R q)) >>= f) l = .ask q fun r => f r l := rfl

/-- An action that returns at once hands its value on. -/
theorem bind_apply_of_ret {m : Act Q R Λ ε α} {a : α} {l' : Λ} (h : m l = .ret (.ok a, l')) :
    (m >>= f) l = f a l' := by
  have hb : (m >>= f) l = (m l).bind fun
    | (.ok a, l') => f a l'
    | (.error e, l') => .ret (.error e, l') := rfl
  rw [hb, h]
  rfl

end Reduce

/-! ### Invariants of an action -/

/-- From any state in `P`, the action ends in `P`, whatever it returns or raises. -/
def Keeps (E : Setting Q R σ) (P : Λ → σ → Prop) (m : Act Q R Λ ε α) : Prop :=
  ∀ l s, P l s → wp E m (fun _ => P) l s

section Keeps

variable {I : Λ → σ → Prop}

theorem Keeps.pure (a : α) : Keeps E I (pure a : Act Q R Λ ε α) := fun _ _ h => h

theorem Keeps.raise (e : ε) : Keeps E I (raise e : Act Q R Λ ε α) := fun _ _ h => h

theorem Keeps.lift (x : Except ε α) : Keeps E I (lift x : Act Q R Λ ε α) := fun _ _ h => h

theorem Keeps.get : Keeps E I (get : Act Q R Λ ε Λ) := fun _ _ h => h

theorem Keeps.modify {f : Λ → Λ} (hf : ∀ l s, I l s → I (f l) s) :
    Keeps E I (modify f : Act Q R Λ ε Unit) := hf

theorem Keeps.state {f : Λ → α × Λ} (hf : ∀ l s, I l s → I (f l).2 s) :
    Keeps E I (state f : Act Q R Λ ε α) := hf

theorem Keeps.bind {m : Act Q R Λ ε α} {f : α → Act Q R Λ ε β} (hm : Keeps E I m)
    (hf : ∀ a, Keeps E I (f a)) : Keeps E I (m >>= f) := fun l s h =>
  wp_bind.2 (wp_mono (fun x l s h => match x with
    | .ok a => hf a l s h
    | .error _ => h) (hm l s h))

theorem Keeps.caught {m : Act Q R Λ ε α} (hm : Keeps E I m) : Keeps E I (Act.caught m) := fun l s h =>
  wp_caught.2 (hm l s h)

theorem Keeps.await {q : Q} (h : ∀ l s s₁, I l s → E.rely s s₁ →
    E.may s₁ q ∧ ∀ r s', E.env s₁ q r s' → I l s') : Keeps E I (await q : Act Q R Λ ε (R q)) :=
  fun l s hI s₁ hs => h l s s₁ hI hs

theorem Keeps.ite {c : Prop} [Decidable c] {m m' : Act Q R Λ ε α} (hm : Keeps E I m)
    (hm' : Keeps E I m') : Keeps E I (if c then m else m') := by
  split
  · exact hm
  · exact hm'

end Keeps

/-! ### Actions in tandem -/

/-- From the states `l` and `l'`, two actions ask the same, return or raise the same, and leave related states. -/
def Beside (I : Λ → Λ → Prop) (m m' : Act Q R Λ ε α) (l l' : Λ) : Prop :=
  Tandem (fun x x' => x.1 = x'.1 ∧ I x.2 x'.2) (m l) (m' l')

section Beside

variable {I : Λ → Λ → Prop} {l l' : Λ}

theorem Beside.pure (a : α) (h : I l l') : Beside I (pure a : Act Q R Λ ε α) (pure a) l l' := .ret ⟨rfl, h⟩

theorem Beside.raise (e : ε) (h : I l l') : Beside I (raise e : Act Q R Λ ε α) (raise e) l l' := .ret ⟨rfl, h⟩

theorem Beside.lift (x : Except ε α) (h : I l l') : Beside I (lift x : Act Q R Λ ε α) (lift x) l l' := .ret ⟨rfl, h⟩

theorem Beside.modify {f f' : Λ → Λ} (h : I (f l) (f' l')) :
    Beside I (modify f : Act Q R Λ ε Unit) (modify f') l l' := .ret ⟨rfl, h⟩

theorem Beside.state {f f' : Λ → α × Λ} (hx : (f l).1 = (f' l').1) (h : I (f l).2 (f' l').2) :
    Beside I (state f : Act Q R Λ ε α) (state f') l l' := .ret ⟨by rw [hx], h⟩

theorem Beside.await (q : Q) (h : I l l') : Beside I (await q : Act Q R Λ ε (R q)) (await q) l l' :=
  .ask fun _ => .ret ⟨rfl, h⟩

theorem Beside.bind {m m' : Act Q R Λ ε α} {f f' : α → Act Q R Λ ε β} (hm : Beside I m m' l l')
    (hf : ∀ a l l', I l l' → Beside I (f a) (f' a) l l') : Beside I (m >>= f) (m' >>= f') l l' := by
  refine Tandem.bind hm ?_
  rintro ⟨x, l₁⟩ ⟨x', l₁'⟩ ⟨rfl, h⟩
  cases x with
  | ok a => exact hf a l₁ l₁' h
  | error e => exact .ret ⟨rfl, h⟩

/-- What the states are is looked at in the rest. -/
theorem Beside.get_bind {f f' : Λ → Act Q R Λ ε β} (h : Beside I (f l) (f' l') l l') :
    Beside I (get >>= f) (get >>= f') l l' := h

theorem Beside.caught {m m' : Act Q R Λ ε α} (h : Beside I m m' l l') : Beside I (caught m) (caught m') l l' := by
  refine Tandem.bind h ?_
  rintro ⟨x, l₁⟩ ⟨x', l₁'⟩ ⟨rfl, h⟩
  exact .ret ⟨rfl, h⟩

end Beside

end Act

end Effect
