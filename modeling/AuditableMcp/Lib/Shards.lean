import AuditableMcp.Lib.Prog
/-!
# Pools over a state in parts

A shared state that is one part for each key, and threads that are each at home at one key: what a thread asks is
answered from the part it is at home in, and the other parts stay. Such a pool is its parts' pools side by side. Each
part of a run is a run of that part alone (`runs_at`), and a run of one part alone is a run of the pool in which the
other parts do nothing (`runs_of_at`).
-/
namespace Effect

variable {Q : Type} {R : Q → Type} {σ τ Λ ι κ : Type} {home : ι → κ} {part : σ → κ → τ}
  {env : ι → σ → (q : Q) → R q → σ → Prop} {env' : ι → τ → (q : Q) → R q → τ → Prop} {born : Prog Q R Λ → Prop}
  {ops : Λ → Prog Q R Λ → Prop}

/-- The threads at home at a key, over their part. -/
def Pool.at (home : ι → κ) (part : σ → κ → τ) (S : Pool Q R σ Λ ι) (k : κ) : Pool Q R τ Λ {i // home i = k} :=
  ⟨part S.shared k, fun i => S.threads i⟩

/-- An answer to a thread is one from the part it is at home in, and the other parts stay. -/
def AnswersIn (home : ι → κ) (part : σ → κ → τ) (env : ι → σ → (q : Q) → R q → σ → Prop)
    (env' : ι → τ → (q : Q) → R q → τ → Prop) : Prop :=
  ∀ {i s q r s'}, env i s q r s' →
    env' i (part s (home i)) q r (part s' (home i)) ∧ ∀ k, k ≠ home i → part s' k = part s k

/-- An answer from a part is one of the whole, and the other parts stay. -/
def AnswersOf (home : ι → κ) (part : σ → κ → τ) (env : ι → σ → (q : Q) → R q → σ → Prop)
    (env' : ι → τ → (q : Q) → R q → τ → Prop) : Prop :=
  ∀ {i s q r t}, env' i (part s (home i)) q r t →
    ∃ s', env i s q r s' ∧ part s' (home i) = t ∧ ∀ k, k ≠ home i → part s' k = part s k

variable [DecidableEq ι]

/-- The steps of a part's own pool. -/
abbrev Pool.PartStep (home : ι → κ) (env' : ι → τ → (q : Q) → R q → τ → Prop) (born : Prog Q R Λ → Prop)
    (ops : Λ → Prog Q R Λ → Prop) (k : κ) : Pool Q R τ Λ {i // home i = k} → Pool Q R τ Λ {i // home i = k} → Prop :=
  Pool.StepAt (fun i => env' i) born ops

/-- A thread that moved, seen from its part. -/
theorem Pool.at_update {s : σ} {T : ι → Option (Thread Q R Λ)} {i : ι} {u : Thread Q R Λ} :
    (Pool.mk s (Function.update T i (some u))).at home part (home i) =
      ⟨part s (home i), Function.update ((Pool.mk s T).at home part (home i)).threads ⟨i, rfl⟩ (some u)⟩ := by
  simp only [Pool.at, Pool.mk.injEq, true_and]
  funext j
  simp only [Function.update_apply, Subtype.ext_iff]

/-- And from another one. -/
theorem Pool.at_update_ne {s s' : σ} {T : ι → Option (Thread Q R Λ)} {i : ι} {u : Thread Q R Λ} {k : κ}
    (h : k ≠ home i) (hs : part s' k = part s k) :
    (Pool.mk s' (Function.update T i (some u))).at home part k = (Pool.mk s T).at home part k := by
  simp only [Pool.at, hs, Pool.mk.injEq, true_and]
  funext j
  rw [Function.update_of_ne]
  rintro rfl
  exact h j.2.symm

/-- A step of the pool is a step of the part its thread is at home in, and none of the others. -/
theorem Pool.step_at (henv : AnswersIn home part env env') {S S' : Pool Q R σ Λ ι} (hs : S.StepAt env born ops S') (k : κ) :
    Relation.ReflGen (Pool.PartStep home env' born ops k) (S.at home part k) (S'.at home part k) := by
  cases hs with
  | spawn i p hi hb =>
    by_cases h : k = home i
    · subst h
      rw [at_update]
      exact .single (Pool.StepAt.spawn (S.at home part (home i)) ⟨i, rfl⟩ p hi hb)
    · rw [at_update_ne h rfl]
  | start i l p hl hp =>
    by_cases h : k = home i
    · subst h
      rw [at_update]
      exact .single (Pool.StepAt.start (S.at home part (home i)) ⟨i, rfl⟩ l p hl hp)
    · rw [at_update_ne h rfl]
  | answer i q f r s' hi he =>
    obtain ⟨hpart, hothers⟩ := henv he
    by_cases h : k = home i
    · subst h
      rw [at_update]
      exact .single (Pool.StepAt.answer (S.at home part (home i)) ⟨i, rfl⟩ q f r _ hi hpart)
    · rw [at_update_ne h (hothers k h)]
  | finish i l hi =>
    by_cases h : k = home i
    · subst h
      rw [at_update]
      exact .single (Pool.StepAt.finish (S.at home part (home i)) ⟨i, rfl⟩ l hi)
    · rw [at_update_ne h rfl]

/-- **Each part of a run is a run of that part alone.** -/
theorem Pool.runs_at (henv : AnswersIn home part env env') {S S' : Pool Q R σ Λ ι}
    (hr : Relation.ReflTransGen (Pool.StepAt env born ops) S S') (k : κ) :
    Relation.ReflTransGen (Pool.PartStep home env' born ops k) (S.at home part k) (S'.at home part k) := by
  induction hr with
  | refl => exact .refl
  | tail _ hs ih => exact ih.trans (step_at henv hs k).to_reflTransGen

/-! ## A part that runs while the others wait -/

/-- `S'` is `S` with its part at `k` replaced. -/
structure Pool.Replaced (home : ι → κ) (part : σ → κ → τ) (S S' : Pool Q R σ Λ ι) (k : κ)
    (T : Pool Q R τ Λ {i // home i = k}) : Prop where
  here : S'.at home part k = T
  elsewhere : ∀ j, j ≠ k → S'.at home part j = S.at home part j

/-- A step of one part is a step of the pool. -/
theorem Pool.step_of_at (henv : AnswersOf home part env env') {S : Pool Q R σ Λ ι} {k : κ}
    {T : Pool Q R τ Λ {i // home i = k}} (hs : Pool.PartStep home env' born ops k (S.at home part k) T) :
    ∃ S', S.StepAt env born ops S' ∧ S.Replaced home part S' k T := by
  cases hs with
  | spawn i p hi hb =>
    obtain ⟨i, rfl⟩ := i
    exact ⟨_, .spawn _ i p hi hb, at_update, fun j hj => at_update_ne hj rfl⟩
  | start i l p hl hp =>
    obtain ⟨i, rfl⟩ := i
    exact ⟨_, .start _ i l p hl hp, at_update, fun j hj => at_update_ne hj rfl⟩
  | answer i q f r t hi he =>
    obtain ⟨i, rfl⟩ := i
    obtain ⟨s', he', rfl, hothers⟩ := henv he
    exact ⟨_, .answer _ i q f r s' hi he', at_update, fun j hj => at_update_ne hj (hothers j hj)⟩
  | finish i l hi =>
    obtain ⟨i, rfl⟩ := i
    exact ⟨_, .finish _ i l hi, at_update, fun j hj => at_update_ne hj rfl⟩

/-- **A run of one part alone is a run of the pool**, and the other parts are as they were. -/
theorem Pool.runs_of_at (henv : AnswersOf home part env env') {S : Pool Q R σ Λ ι} {k : κ}
    {T : Pool Q R τ Λ {i // home i = k}}
    (hr : Relation.ReflTransGen (Pool.PartStep home env' born ops k) (S.at home part k) T) :
    ∃ S', Relation.ReflTransGen (Pool.StepAt env born ops) S S' ∧ S.Replaced home part S' k T := by
  induction hr with
  | refl => exact ⟨S, .refl, rfl, fun _ _ => rfl⟩
  | tail _ hs ih =>
    obtain ⟨S₁, hrun, here, elsewhere⟩ := ih
    subst here
    obtain ⟨S₂, hstep, here', elsewhere'⟩ := step_of_at henv hs
    exact ⟨S₂, hrun.tail hstep, here', fun j hj => (elsewhere' j hj).trans (elsewhere j hj)⟩

end Effect
