import AuditableMcp.Truthful
import AuditableMcp.AuditBeforeAct
/-!
# `in_process.py`: audited actions beside the host that records them

`InProcessTransport` hands an attempt to `handle_attempt` and an outcome to `handle_outcome` of a host in the tool's own
process, and returns or raises what they do. Any number of actions run at once over one host, and between two awaits of
an action the host does what else it is asked, and other hosts of its partition write the store.

| here | there |
| --- | --- |
| `transported`      | what a caller sees of an endpoint's call: a `CancelledError`, or an `Exception` |
| `carried`          | `send_attempt`, `send_outcome` (`in_process.py:29-36`), and the awaits of an action that are not the transport's |
| `Deployment.done`  | what the actions did, which no code reads |

Every action takes one of five courses, and where its body ran, the chain held the record of its attempt
(`recorded_before_act`).
-/
namespace AuditableMcp

open JsonValue HashChain Effect

variable (W : World) (c : Config) {ι : Type}

/-! ## The deployment -/

/-- What an action did: a body ran beside the chain there was. -/
inductive Done
  | attempt (event : Event)
  | outcome (event : Event)
  | body (chain : List SealedRecord)
deriving DecidableEq

structure Deployment (ι : Type) where
  host : Host
  store : List SealedRecord
  done : List (ι × Done)

def Deployment.start : Deployment ι := ⟨.new, [], []⟩

def Deployment.chain (s : Deployment ι) : List SealedRecord := chainOf c s.host s.store

/-- Task `i` did `d`, and the host is where that left it. -/
def Deployment.after (s : Deployment ι) (i : ι) (d : Done) (h : Host) (t : List SealedRecord) : Deployment ι :=
  ⟨h, t, s.done ++ [(i, d)]⟩

/-- What the host does for others, and other hosts to its store. -/
inductive Elsewhere : Host × List SealedRecord → Host × List SealedRecord → Prop
  | op {h h' : Host} {s s' : List SealedRecord} {x : Except Raise Unit} (o : HostOp) :
      Runs (sharedStore W).interfered (o.run W c h) s (x, h') s' → Elsewhere (h, s) (h', s')
  | writer {h : Host} {s s' : List SealedRecord} : Extends W s s' → Elsewhere (h, s) (h, s')

def transported {α : Type} : Except Raise α → Except ToolRaise α
  | .ok a => .ok a
  | .error .cancelled => .error .cancelled
  | .error _ => .error .fault

/-- What task `i` is answered. A task that is cancelled while it waits for the host's lock has handed nothing to it. -/
def carried (i : ι) (s : Deployment ι) : (q : ToolQuery) → ToolReply W q → Deployment ι → Prop
  | .sendAttempt e, x, s' => (x = .error .cancelled ∧ s' = s) ∨ ∃ y h t,
      Runs (sharedStore W).interfered (handleAttempt W c e none none s.host) s.store (y, h) t ∧ x = transported y ∧
        s' = s.after i (.attempt e) h t
  | .sendOutcome e, x, s' => (x = .error .cancelled ∧ s' = s) ∨ ∃ y h t,
      Runs (sharedStore W).interfered (recordOutcome W c e none s.host) s.store (y, h) t ∧
        x = transported (y.map fun _ => ()) ∧ s' = s.after i (.outcome e) h t
  | .body, _, s' => s' = s.after i (.body (s.chain c)) s.host s.store
  | .sign key e n, x, s' => s' = s ∧ ∀ f, x = .ok f → ∃ g, f = stamp e key n g
  | .now, _, s' => s' = s
  | .take _, _, s' => s' = s
  | .leave _ _, _, s' => s' = s
  | .verify _ _ _, _, s' => s' = s

def beside (i : ι) (s : Deployment ι) (q : ToolQuery) (x : ToolReply W q) (s' : Deployment ι) : Prop :=
  ∃ h t, Relation.ReflTransGen (Elsewhere W c) (s.host, s.store) (h, t) ∧
    carried W c i { s with host := h, store := t } q x s'

/-! ## The courses -/

/-- The chain holds the event's record. -/
def Recorded (chain : List SealedRecord) (e : Event) : Prop :=
  ∃ r ∈ chain, ∃ text, canonicalize W (.obj e) = .ok text ∧ canonicalize W (.obj r.event) = .ok text

/-- An outcome of the attempt's own operation. -/
structure OutcomeOf (attempt : Event) (o : Outcome) (e : Event) : Prop where
  id : get e ID = get attempt ID
  session : get e SESSION_ID = get attempt SESSION_ID
  outcome : get e OUTCOME = some (.str o.text)

/-- What an action may have done, at any time. -/
inductive Course : List Done → Prop
  | idle : Course []
  | waiting {e : Event} : isAttempt e = true → Course [.attempt e]
  | refused {e f : Event} : isAttempt e = true → OutcomeOf e .aborted f → Course [.attempt e, .outcome f]
  | acted {e : Event} {chain : List SealedRecord} : isAttempt e = true → Recorded W chain e →
      Course [.attempt e, .body chain]
  | concluded {e f : Event} {chain : List SealedRecord} {o : Outcome} : isAttempt e = true → Recorded W chain e →
      o = .success ∨ o = .failed → OutcomeOf e o f → Course [.attempt e, .body chain, .outcome f]

variable {W} {c}

theorem Recorded.mono {chain chain' : List SealedRecord} {e : Event} (h : Recorded W chain e) (hp : chain <+: chain') :
    Recorded W chain' e := by
  obtain ⟨r, hr, h⟩ := h
  exact ⟨r, hp.subset hr, h⟩

theorem Truthful.isRecorded {chain : List SealedRecord} {e : Event} {f : AcceptFields} (h : Truthful W chain e f) :
    Recorded W chain e := by
  obtain ⟨⟨i, r, _, hget, _, _, _, _, _, _, hcanon⟩, hhash⟩ := h
  have hdom := (inDomain_preimage.1 (computeRecordHash_eq_ok.1 hhash).1).1
  have hok := canonicalize_ok (W := W) hdom
  exact ⟨r, List.mem_of_getElem? hget, _, hok, hcanon.trans hok⟩

/-! ## The host beside the actions -/

/-- What a host's operations keep: it is one of the hosts of its partition, and its chain has only grown. -/
theorem grown_kept (chain : List SealedRecord) : Kept W onlyStore c (Extends W) (mayAppend W)
    (fun h s => Holds W c h s ∧ chain <+: chainOf c h s) (fun h s => Holds W c h s ∧ chain <+: chainOf c h s) where
  stable {h s s'} hh hs := by
    refine ⟨hh.1.extends hs, hh.2.trans ?_⟩
    unfold chainOf
    split
    · exact hs.1
    · exact List.prefix_refl _
  turn hh hq _ he := ⟨hh.1.step (.turn _ _ hq he), hh.2.trans (hh.1.grows (.turn _ _ hq he))⟩
  read hh he := ⟨hh.1.step (.turn _ _ (by simp) he), hh.2.trans (hh.1.grows (.turn _ _ (by simp) he))⟩
  move hh hm _ _ := ⟨hh.1.step hm, hh.2.trans (hh.1.grows hm)⟩
  settle hh hm _ := ⟨hh.1.step hm, hh.2.trans (hh.1.grows hm)⟩
  asks hq _ := mayAppend_of_ne hq
  appends hrepo _ hmade hh := hh.1.appends hrepo hmade.fits
  vouched _ _ := trivial
  signed _ _ := trivial

theorem Holds.meanwhile {x y : Host × List SealedRecord} (hh : Holds W c x.1 x.2)
    (h : Relation.ReflTransGen (Elsewhere W c) x y) :
    Holds W c y.1 y.2 ∧ chainOf c x.1 x.2 <+: chainOf c y.1 y.2 := by
  induction h with
  | refl => exact ⟨hh, List.prefix_refl _⟩
  | tail _ hm ih =>
    obtain ⟨hy, hgrown⟩ := ih
    cases hm with
    | op o hr =>
      have hwp := keeping_run (onlyStore_fair c) (grown_kept (chainOf c x.1 x.2)) o _ _ ⟨hy, hgrown⟩
      exact Wp.runs_interfered (E := sharedStore W) hwp hr
    | writer hs => exact (grown_kept _).stable ⟨hy, hgrown⟩ hs

theorem Holds.attempted (hj : JcsSpec W.dumps InDomain) {h h' : Host} {s s' : List SealedRecord} {e : Event}
    {x : Except Raise (AttemptResponse W)} (hh : Holds W c h s)
    (hr : Runs (sharedStore W).interfered (handleAttempt W c e none none h) s (x, h') s') :
    (Holds W c h' s' ∧ chainOf c h s <+: chainOf c h' s') ∧ ∀ r, x = .ok (.accept r) → Recorded W (chainOf c h' s') e := by
  have hwp := handleAttempt_keeps (onlyStore_fair c) (grown_kept (chainOf c h s)) e none none
    ⟨hh, List.prefix_refl _⟩
  obtain ⟨hkept, hanswers⟩ := Wp.runs_interfered (E := sharedStore W) hwp hr
  exact ⟨hkept, fun r hx => (hkept.1.truthful hj hanswers hx).isRecorded⟩

theorem Holds.outcome {h h' : Host} {s s' : List SealedRecord} {e : Event} {x : Except Raise OutcomeDisposition}
    (hh : Holds W c h s) (hr : Runs (sharedStore W).interfered (recordOutcome W c e none h) s (x, h') s') :
    Holds W c h' s' ∧ chainOf c h s <+: chainOf c h' s' :=
  Wp.runs_interfered (E := sharedStore W)
    (keeping_recordOutcome (onlyStore_fair c) (grown_kept (chainOf c h s)) e none h s ⟨hh, List.prefix_refl _⟩) hr

/-! ## The invariant -/

section Invariant

variable [DecidableEq ι]

/-- What task `i` did. -/
def Deployment.mine (s : Deployment ι) (i : ι) : List Done := (s.done.filter (·.1 = i)).map Prod.snd

structure Deployment.Ok (W : World) (c : Config) (s : Deployment ι) : Prop where
  holds : Holds W c s.host s.store
  found : ∀ i chain, (i, .body chain) ∈ s.done → chain <+: s.chain c
  courses : ∀ i, Course W (s.mine i)

/-- Others do nothing in a task's name, and nothing to the chain but add to it. -/
def leftAlone (c : Config) (i : ι) (s s' : Deployment ι) : Prop := s'.mine i = s.mine i ∧ s.chain c <+: s'.chain c

/-- What the next thing a task does makes of its course. -/
def mayDo (W : World) (c : Config) (i : ι) (s : Deployment ι) : ToolQuery → Prop
  | .sendAttempt e => Course W (s.mine i ++ [.attempt e])
  | .sendOutcome e => Course W (s.mine i ++ [.outcome e])
  | .body => ∀ chain, s.chain c <+: chain → Course W (s.mine i ++ [.body chain])
  | .now => True
  | .take _ => True
  | .leave _ _ => True
  | .sign _ _ _ => True
  | .verify _ _ _ => True

variable {i : ι} {s s' : Deployment ι}

theorem leftAlone.refl (s : Deployment ι) : leftAlone c i s s := ⟨rfl, List.prefix_refl _⟩

theorem leftAlone.trans {s₁ s₂ s₃ : Deployment ι} (h : leftAlone c i s₁ s₂) (h' : leftAlone c i s₂ s₃) :
    leftAlone c i s₁ s₃ := ⟨h'.1.trans h.1, h.2.trans h'.2⟩

namespace Deployment

theorem mine_after (j : ι) (d : Done) (h : Host) (t : List SealedRecord) :
    (s.after i d h t).mine j = s.mine j ++ if i = j then [d] else [] := by
  simp only [mine, after, List.filter_append, List.map_append]
  by_cases hij : i = j
  · simp [hij]
  · simp [hij]

theorem start_ok : (start : Deployment ι).Ok W c where
  holds := holds_new trivial
  found _ _ h := absurd h List.not_mem_nil
  courses _ := .idle

/-- The host beside the actions leaves each of them alone. -/
theorem Ok.meanwhile (hok : s.Ok W c) {h : Host} {t : List SealedRecord}
    (hm : Relation.ReflTransGen (Elsewhere W c) (s.host, s.store) (h, t)) :
    Ok W c { s with host := h, store := t } ∧ ∀ j, leftAlone c j s { s with host := h, store := t } := by
  obtain ⟨hh, hgrown⟩ := hok.holds.meanwhile hm
  exact ⟨⟨hh, fun j chain hj => (hok.found j chain hj).trans hgrown, hok.courses⟩, fun j => ⟨rfl, hgrown⟩⟩

/-- What a task does is the next step of its course. -/
theorem Ok.after (hok : s.Ok W c) {d : Done} {h : Host} {t : List SealedRecord} (hh : Holds W c h t)
    (hgrown : s.chain c <+: chainOf c h t) (hd : ∀ chain, d = .body chain → chain <+: chainOf c h t)
    (hcourse : Course W (s.mine i ++ [d])) :
    (s.after i d h t).Ok W c ∧ ∀ j, j ≠ i → leftAlone c j s (s.after i d h t) := by
  refine ⟨⟨hh, fun j chain hj => ?_, fun j => ?_⟩, fun j hj => ⟨?_, hgrown⟩⟩
  · rcases List.mem_append.1 hj with hj | hj
    · exact (hok.found j chain hj).trans hgrown
    · exact hd chain (Prod.mk.inj (List.mem_singleton.1 hj)).2.symm
  · rw [mine_after]
    by_cases hij : i = j
    · subst hij
      rw [if_pos rfl]
      exact hcourse
    · rw [if_neg hij, List.append_nil]
      exact hok.courses j
  · rw [mine_after, if_neg (Ne.symm hj), List.append_nil]

/-- One answer keeps the invariant, and leaves the other tasks alone. -/
theorem Ok.step (hj : JcsSpec W.dumps InDomain) (hok : s.Ok W c) {q : ToolQuery} {x : ToolReply W q}
    (hmay : mayDo W c i s q) (hs : beside W c i s q x s') : s'.Ok W c ∧ ∀ j, j ≠ i → leftAlone c j s s' := by
  obtain ⟨h, t, hm, hs⟩ := hs
  obtain ⟨hok', halone⟩ := hok.meanwhile hm
  have hsame : s' = { s with host := h, store := t } → s'.Ok W c ∧ ∀ j, j ≠ i → leftAlone c j s s' := by
    rintro rfl
    exact ⟨hok', fun j _ => halone j⟩
  have hthen : s'.Ok W c ∧ (∀ j, j ≠ i → leftAlone c j { s with host := h, store := t } s') →
      s'.Ok W c ∧ ∀ j, j ≠ i → leftAlone c j s s' :=
    fun h => ⟨h.1, fun j hj => (halone j).trans (h.2 j hj)⟩
  cases q with
  | sendAttempt e =>
    rcases hs with ⟨_, hs⟩ | ⟨y, h', t', hr, _, rfl⟩
    · exact hsame hs
    · obtain ⟨⟨hh, hgrown⟩, _⟩ := hok'.holds.attempted hj hr
      exact hthen (hok'.after hh hgrown (fun _ hd => by cases hd) hmay)
  | sendOutcome e =>
    rcases hs with ⟨_, hs⟩ | ⟨y, h', t', hr, _, rfl⟩
    · exact hsame hs
    · obtain ⟨hh, hgrown⟩ := hok'.holds.outcome hr
      exact hthen (hok'.after hh hgrown (fun _ hd => by cases hd) hmay)
  | body =>
    obtain rfl : s' = Deployment.after { s with host := h, store := t } i (.body (chainOf c h t)) h t := hs
    refine hthen (hok'.after hok'.holds (List.prefix_refl _) (fun _ hd => ?_) (hmay _ (halone i).2))
    cases hd
    exact List.prefix_refl _
  | sign _ _ _ => exact hsame hs.1
  | now => exact hsame hs
  | take _ => exact hsame hs
  | leave _ _ => exact hsame hs
  | verify _ _ _ => exact hsame hs

end Deployment

/-! ## The actions keep it -/

/-- Task `i` among the others. -/
abbrev amidst (W : World) (c : Config) (i : ι) : Setting ToolQuery (ToolReply W) (Deployment ι) :=
  .under (Deployment.Ok W c) (beside W c i) (leftAlone c i) (mayDo W c i)

section Actions

variable {a : AuditedAction} {l : Option (AcceptResponse W)}

/-- What stays, as long as a task is left alone. -/
def Lasting (c : Config) (i : ι) (J : Deployment ι → Prop) : Prop := ∀ s s', J s → leftAlone c i s s' → J s'

/-- An await that is not the transport's, nor the body. -/
def isQuiet : ToolQuery → Bool
  | .sendAttempt _ => false
  | .sendOutcome _ => false
  | .body => false
  | _ => true

theorem mayDo_quiet {q : ToolQuery} (hq : isQuiet q = true) : mayDo W c i s q := by
  cases q with
  | sendAttempt _ => cases hq
  | sendOutcome _ => cases hq
  | body => cases hq
  | _ => trivial

theorem beside_quiet {q : ToolQuery} {x : ToolReply W q} (hq : isQuiet q = true) (hok : s.Ok W c)
    (hs : beside W c i s q x s') : leftAlone c i s s' := by
  obtain ⟨h, t, hm, hs⟩ := hs
  have halone := (hok.meanwhile hm).2 i
  cases q with
  | sendAttempt _ => cases hq
  | sendOutcome _ => cases hq
  | body => cases hq
  | sign _ _ _ => rwa [hs.1]
  | now => rwa [show s' = _ from hs]
  | take _ => rwa [show s' = _ from hs]
  | leave _ _ => rwa [show s' = _ from hs]
  | verify _ _ _ => rwa [show s' = _ from hs]

theorem wp_quiet {q : ToolQuery} (hq : isQuiet q = true) {J : Deployment ι → Prop} (hJ : Lasting c i J)
    {P : Except ToolRaise (ToolReply W q) → Option (AcceptResponse W) → Deployment ι → Prop}
    (h : ∀ s x s', J s → J s' → beside W c i s q x s' → P (.ok x) l s') (h₀ : J s) :
    Act.wp (amidst W c i) (Act.await q) P l s := by
  rw [Act.wp_await]
  intro s₁ hrel
  refine ⟨mayDo_quiet hq, ?_⟩
  rintro x s' ⟨hok, hs⟩
  have h₁ := hJ _ _ h₀ hrel
  exact h s₁ x s' h₁ (hJ _ _ h₁ (beside_quiet hq hok hs)) hs

/-- The section of a session, from what its emission comes to. -/
theorem wp_numbering_beside {α : Type} {session : AmcpSession} {m : Option Nat → ToolM W α} {J : Deployment ι → Prop}
    {P : Except ToolRaise α → Deployment ι → Prop} (hJ : Lasting c i J) (hP : ∀ x, Lasting c i (P x))
    (hraise : ∀ r s, J s → P (.error r) s)
    (h : ∀ n, (session.signer.isSome = true → n.isSome = true) → ∀ l s, J s →
      Act.wp (amidst W c i) (m n) (fun x _ => P x) l s) (h₀ : J s) :
    Act.wp (amidst W c i) (numbering session m) (fun x _ => P x) l s := by
  unfold numbering
  split
  · next hs => exact h none (by simp [hs]) l s h₀
  · rw [Act.wp_bind]
    refine wp_quiet rfl hJ (fun _ x s' _ h₁ _ => ?_) h₀
    rw [Act.next_ok, Act.wp_bind, Act.wp_lift]
    cases x with
    | error r => exact hraise r s' h₁
    | ok n =>
      rw [Act.next_ok, Act.wp_bind, Act.wp_caught]
      refine Act.wp_mono ?_ (h (some n) (fun _ => rfl) l s' h₁)
      intro y l s₂ hy
      rw [Act.next_ok]
      cases y with
      | ok y =>
        rw [Act.wp_bind]
        exact wp_quiet rfl (hP (.ok y)) (fun _ _ _ _ hP' _ => hP') hy
      | error r =>
        rw [Act.wp_bind]
        exact wp_quiet rfl (hP (.error r)) (fun _ _ _ _ hP' _ => hP') hy

theorem wp_build_beside {o : Outcome} {n : Option Nat} {reason : Option Reason} {J : Deployment ι → Prop}
    (hJ : Lasting c i J) (hn : a.session.signer.isSome = true → n.isSome = true) (h₀ : J s) :
    Act.wp (amidst W c i) (a.build o n reason) (fun x _ s' => J s' ∧ ∀ e, x = .ok e → a.Emits o reason e) l s := by
  unfold AuditedAction.build
  rw [Act.wp_bind]
  refine wp_quiet rfl hJ (fun _ ts s' _ h₁ _ => ?_) h₀
  rw [Act.next_ok]
  split
  · unfold stampWith
    split
    · next key n hs =>
      rw [Act.wp_bind]
      refine wp_quiet rfl hJ (fun _ x s' _ h₂ hsign => ?_) h₁
      obtain ⟨_, _, _, _, hx⟩ := hsign
      refine ⟨h₂, fun e he => ⟨ts, ?_⟩⟩
      obtain ⟨g, rfl⟩ := hx e he
      rw [hs]
      exact ⟨n, g, rfl⟩
    · next hs =>
      refine ⟨h₁, ?_⟩
      rintro e ⟨⟩
      refine ⟨ts, ?_⟩
      cases hk : a.session.signer with
      | none => rfl
      | some key =>
        obtain ⟨m, rfl⟩ := Option.isSome_iff_exists.1 (hn (by rw [hk]; rfl))
        exact (hs key m hk rfl).elim
  · exact ⟨h₁, by rintro _ ⟨⟩⟩

/-- Task `i` has handed over the attempt `e` of its action, and nothing else. -/
structure Waiting (i : ι) (a : AuditedAction) (e : Event) (s : Deployment ι) : Prop where
  mine : s.mine i = [.attempt e]
  emits : a.Emits .attempted none e

/-- And the chain holds its record. -/
def Permitted (W : World) (c : Config) (i : ι) (a : AuditedAction) (e : Event) (s : Deployment ι) : Prop :=
  Waiting i a e s ∧ Recorded W (s.chain c) e

/-- The body of its action ran. -/
def Performed (W : World) (i : ι) (a : AuditedAction) (e : Event) (s : Deployment ι) : Prop :=
  a.Emits .attempted none e ∧ ∃ chain, s.mine i = [.attempt e, .body chain] ∧ Recorded W chain e

variable {e : Event}

theorem waiting_lasting : Lasting c i (Waiting i a e) := fun _ _ h hl => ⟨hl.1.trans h.mine, h.emits⟩

theorem permitted_lasting : Lasting c i (Permitted W c i a e) :=
  fun _ _ h hl => ⟨waiting_lasting _ _ h.1 hl, h.2.mono hl.2⟩

theorem performed_lasting : Lasting c i (Performed W i a e) := by
  rintro s s' ⟨he, chain, hmine, hr⟩ hl
  exact ⟨he, chain, hl.1.trans hmine, hr⟩

omit [DecidableEq ι] in
theorem Emits.isAttempt (h : a.Emits .attempted none e) : AuditableMcp.isAttempt e = true := hasText_iff.2 h.outcome

omit [DecidableEq ι] in
theorem Emits.outcomeOf {o : Outcome} {reason : Option Reason} {f : Event} (he : a.Emits .attempted none e)
    (hf : a.Emits o reason f) : OutcomeOf e o f where
  id := hf.id.trans he.id.symm
  session := (hf.get fun ts => a.wire_sessionId o reason ts).trans (he.get fun ts => a.wire_sessionId _ _ ts).symm
  outcome := hf.outcome

theorem wp_emit_beside {o : Outcome} {reason : Option Reason} {J : Deployment ι → Prop} (hJ : Lasting c i J)
    (h : ∀ f s, J s → a.Emits o reason f → Course W (s.mine i ++ [.outcome f])) (h₀ : J s) :
    Act.wp (amidst W c i) (a.emit o reason) (fun _ _ _ => True) l s := by
  refine wp_numbering_beside hJ (fun _ _ _ _ _ => trivial) (fun _ _ _ => trivial) (fun n hn l s hs => ?_) h₀
  rw [Act.wp_bind]
  refine Act.wp_mono ?_ (wp_build_beside hJ hn hs)
  rintro x l s₁ ⟨hs₁, hx⟩
  cases x with
  | error _ => trivial
  | ok f =>
    rw [Act.next_ok, Act.wp_bind, Act.wp_await]
    intro s₂ hrel
    exact ⟨h f s₂ (hJ _ _ hs₁ hrel) (hx f rfl), fun _ _ _ => trivial⟩

theorem wp_swallow_beside {m : ToolM W Unit} (h : Act.wp (amidst W c i) m (fun _ _ _ => True) l s) :
    Act.wp (amidst W c i) (AuditedAction.swallow m) (fun _ _ _ => True) l s := by
  unfold AuditedAction.swallow
  rw [Act.wp_bind, Act.wp_caught]
  refine Act.wp_mono ?_ h
  intro x l s _
  rw [Act.next_ok]
  split
  · trivial
  · trivial

/-- An abort says so, and does not return. -/
theorem wp_abort_beside {reason : Reason} (h₀ : Waiting i a e s) :
    Act.wp (amidst W c i) (a.abort reason) (fun x _ _ => ∀ y, x ≠ .ok y) l s := by
  unfold AuditedAction.abort AuditedAction.emitAbortedBestEffort
  rw [Act.wp_bind]
  refine Act.wp_mono ?_ (wp_swallow_beside (wp_emit_beside waiting_lasting (fun f s hs hf => ?_) h₀))
  · intro x l s _
    cases x <;> exact fun _ h => by cases h
  · rw [hs.mine]
    exact .refused (Emits.isAttempt hs.emits) (Emits.outcomeOf hs.emits hf)

/-- Where the attempt's section returns an accept, the attempt is in the chain. -/
theorem wp_sendAttempt_beside (hj : JcsSpec W.dumps InDomain) (h₀ : s.mine i = []) :
    Act.wp (amidst W c i) (numbering a.session a.sendAttempt) (fun x _ s' => ∀ y, x = .ok y → Waiting i a y.1 s' ∧
      ∀ r, y.2 = some (.accept r) → Recorded W (s'.chain c) y.1) l s := by
  have hJ : Lasting c i fun s : Deployment ι => s.mine i = [] := fun _ _ h hl => hl.1.trans h
  refine wp_numbering_beside hJ ?_ (fun _ _ _ _ h => by cases h) (fun n hn l s hs => ?_) h₀
  · intro x s s' h hl y hy
    exact ⟨waiting_lasting _ _ (h y hy).1 hl, fun r hr => ((h y hy).2 r hr).mono hl.2⟩
  · unfold AuditedAction.sendAttempt
    rw [Act.wp_bind]
    refine Act.wp_mono ?_ (wp_build_beside hJ hn hs)
    rintro x l s₁ ⟨hs₁, hx⟩
    cases x with
    | error _ => exact fun _ h => by cases h
    | ok e =>
      have he := hx e rfl
      rw [Act.next_ok, Act.wp_bind, Act.wp_await]
      intro s₂ hrel
      have hs₂ := hJ _ _ hs₁ hrel
      refine ⟨?_, ?_⟩
      · change Course W (s₂.mine i ++ [.attempt e])
        rw [hs₂]
        exact .waiting (Emits.isAttempt he)
      · rintro reply s₃ ⟨hok, h, t, hm, ⟨rfl, rfl⟩ | ⟨y, h', t', hr, rfl, rfl⟩⟩
        · exact fun _ h => by cases h
        · obtain ⟨_, hrec⟩ := (hok.meanwhile hm).1.holds.attempted hj hr
          have hwait : Waiting i a e (Deployment.after { s₂ with host := h, store := t } i (.attempt e) h' t') := by
            refine ⟨?_, he⟩
            rw [Deployment.mine_after, if_pos rfl]
            exact congrArg (· ++ [Done.attempt e]) hs₂
          rw [Act.next_ok]
          rcases y with raised | reply
          · cases raised with
            | cancelled => exact fun _ h => by cases h
            | _ =>
              rintro _ ⟨⟩
              exact ⟨hwait, fun _ h => by cases h⟩
          · rintro _ ⟨⟩
            refine ⟨hwait, fun r hr => hrec r ?_⟩
            rw [Option.some.inj hr]

theorem wp_verification_beside {f : AcceptFields} {signature : Str} {J : Deployment ι → Prop} (hJ : Lasting c i J)
    (h₀ : J s) :
    Act.wp (amidst W c i) (AuditedAction.verification f signature) (fun _ _ s' => J s') l s := by
  unfold AuditedAction.verification
  split
  · rw [Act.wp_bind]
    unfold orFault
    split
    · rw [Act.wp_lift, Act.next_ok, Act.wp_bind]
      exact wp_quiet rfl hJ (fun _ _ _ _ h _ => h) h₀
    · exact h₀
  · exact h₀

/-- What is left of a check where it returns. -/
theorem wp_checkCountersignature_beside {f : AcceptFields} (h₀ : Permitted W c i a e s) :
    Act.wp (amidst W c i) (a.checkCountersignature f) (fun x _ s' => ∀ y, x = .ok y → Permitted W c i a e s') l s := by
  have habort : ∀ {reason l s}, Permitted W c i a e s → Act.wp (amidst W c i) (a.abort reason)
      (fun x _ s' => ∀ y, x = .ok y → Permitted W c i a e s') l s := fun h =>
    Act.wp_mono (fun _ _ _ hx y hy => absurd hy (hx y)) (wp_abort_beside h.1)
  unfold AuditedAction.checkCountersignature
  split
  · exact habort h₀
  · split
    · rw [Act.wp_bind]
      refine Act.wp_mono ?_ (wp_verification_beside permitted_lasting h₀)
      rintro (_ | v) l s h
      · exact fun _ hx => by cases hx
      · rw [Act.next_ok]
        cases v with
        | verified => exact fun _ _ => h
        | failed => exact habort h
        | unavailable => exact habort h
    · exact fun _ _ => h₀

theorem wp_checkRecordHash_beside {f : AcceptFields} {attempt : Event} (h₀ : Permitted W c i a e s) :
    Act.wp (amidst W c i) (a.checkRecordHash attempt f) (fun x _ s' => ∀ y, x = .ok y → Permitted W c i a e s') l s := by
  unfold AuditedAction.checkRecordHash
  split
  · rw [Act.wp_bind]
    unfold orFault
    split
    · rw [Act.wp_lift, Act.next_ok]
      split
      · exact Act.wp_mono (fun _ _ _ hx y hy => absurd hy (hx y)) (wp_abort_beside h₀.1)
      · exact fun _ _ => h₀
    · exact fun _ hx => by cases hx
  · exact fun _ _ => h₀

/-- `__aenter__` returns where the chain holds the record of its attempt. -/
theorem wp_aenter_beside (hj : JcsSpec W.dumps InDomain) (h₀ : s.mine i = []) :
    Act.wp (amidst W c i) a.aenter (fun x _ s' => ∀ y, x = .ok y → ∃ e, Permitted W c i a e s') l s := by
  unfold AuditedAction.aenter
  rw [Act.wp_bind]
  refine Act.wp_mono ?_ (wp_sendAttempt_beside hj h₀)
  rintro (_ | ⟨e, response⟩) l s hsent
  · exact fun _ h => by cases h
  · obtain ⟨hwait, hrec⟩ := hsent _ rfl
    have habort : ∀ {reason}, Act.wp (amidst W c i) (a.abort reason)
        (fun x _ s' => ∀ y, x = .ok y → ∃ e, Permitted W c i a e s') l s :=
      Act.wp_mono (fun _ _ _ hx y hy => absurd hy (hx y)) (wp_abort_beside hwait)
    rw [Act.next_ok]
    rcases response with _ | r | r | _
    · exact habort
    · have hper : Permitted W c i a e s := ⟨hwait, hrec r rfl⟩
      unfold AuditedAction.checkAccept
      rw [Act.wp_bind]
      refine Act.wp_mono ?_ (wp_checkCountersignature_beside hper)
      rintro (_ | _) l s h
      · exact fun _ hx => by cases hx
      · rw [Act.next_ok, Act.wp_bind]
        refine Act.wp_mono ?_ (wp_checkRecordHash_beside (h _ rfl))
        rintro (_ | _) l s h
        · exact fun _ hx => by cases hx
        · exact fun _ _ => ⟨e, h _ rfl⟩
    · exact habort
    · exact habort

theorem wp_aexit_beside {raised : Bool} (h₀ : Performed W i a e s) :
    Act.wp (amidst W c i) (a.aexit raised) (fun _ _ _ => True) l s := by
  refine wp_swallow_beside (wp_emit_beside performed_lasting (fun f s hs hf => ?_) h₀)
  obtain ⟨he, chain, hmine, hrec⟩ := hs
  rw [hmine]
  refine .concluded (Emits.isAttempt he) hrec ?_ (Emits.outcomeOf he hf)
  cases raised
  · exact .inl rfl
  · exact .inr rfl

/-- An action among the others, whatever becomes of it. -/
theorem wp_run_beside (hj : JcsSpec W.dumps InDomain) (h₀ : s.mine i = []) :
    Act.wp (amidst W c i) a.run (fun _ _ _ => True) l s := by
  unfold AuditedAction.run
  rw [Act.wp_bind]
  refine Act.wp_mono ?_ (wp_aenter_beside hj h₀)
  rintro (_ | _) l s h
  · trivial
  · obtain ⟨e, hper⟩ := h _ rfl
    rw [Act.next_ok, Act.wp_bind, Act.wp_await]
    intro s₁ hrel
    have hper₁ := permitted_lasting _ _ hper hrel
    have hcourse : ∀ chain, s₁.chain c <+: chain → Course W (s₁.mine i ++ [.body chain]) := by
      intro chain hp
      rw [hper₁.1.mine]
      exact .acted (Emits.isAttempt hper₁.1.emits) (hper₁.2.mono hp)
    refine ⟨hcourse, ?_⟩
    rintro y s₂ ⟨hok, h, t, hm, hs⟩
    have hgrown := ((hok.meanwhile hm).2 i).2
    obtain rfl : s₂ = Deployment.after { s₁ with host := h, store := t } i (.body (chainOf c h t)) h t := hs
    have hdone : Performed W i a e
        (Deployment.after { s₁ with host := h, store := t } i (.body (chainOf c h t)) h t) := by
      refine ⟨hper₁.1.emits, chainOf c h t, ?_, hper₁.2.mono hgrown⟩
      rw [Deployment.mine_after, if_pos rfl]
      exact congrArg (· ++ [Done.body (chainOf c h t)]) hper₁.1.mine
    rw [Act.next_ok]
    cases y with
    | ok _ => exact wp_aexit_beside hdone
    | error _ =>
      rw [Act.wp_bind]
      refine Act.wp_mono ?_ (wp_aexit_beside hdone)
      rintro (_ | _) _ _ _
      · trivial
      · trivial

end Actions

/-! ## Runs -/

/-- A task is born to run an audited action. -/
def IsAction (W : World) (p : Prog ToolQuery (ToolReply W) (Except ToolRaise Unit × Option (AcceptResponse W))) : Prop :=
  ∃ a : AuditedAction, p = a.run none

abbrev Deployment.Step (W : World) (c : Config) :=
  @Pool.StepAt ToolQuery (ToolReply W) (Deployment ι) (Except ToolRaise Unit × Option (AcceptResponse W)) ι _
    (beside W c) (IsAction W) (fun _ _ => False)

theorem beside_guarantee (hj : JcsSpec W.dumps InDomain) : GuaranteeFrom (beside W c (ι := ι)) (leftAlone c)
    (mayDo W c) (IsAction W) (fun _ _ => False) (Deployment.Ok W c) (fun i s => s.mine i = []) (fun _ _ _ => True) where
  trans _ _ _ _ := leftAlone.trans
  refl _ := leftAlone.refl
  unborn _ _ _ h hl := hl.1.trans h
  loc _ _ _ _ _ _ := trivial
  step hok hmay hs := hok.step hj hmay hs
  born := by
    rintro i s _ _ h₀ ⟨a, rfl⟩
    exact wp_run_beside hj h₀
  ops _ _ h := h.elim

theorem Deployment.reached (hj : JcsSpec W.dumps InDomain) {S : Pool ToolQuery (ToolReply W) (Deployment ι)
      (Except ToolRaise Unit × Option (AcceptResponse W)) ι}
    (hr : Relation.ReflTransGen (Deployment.Step W c) ⟨.start, fun _ => none⟩ S) : S.shared.Ok W c :=
  (pool_from (beside_guarantee hj) Deployment.start_ok (fun _ => rfl) hr).1.1

theorem Deployment.mem_mine {d : Done} : d ∈ s.mine i ↔ (i, d) ∈ s.done := by
  simp only [Deployment.mine, List.mem_map, List.mem_filter, decide_eq_true_eq, Prod.exists, exists_eq_right]

/-- The chain beside which an action's body ran held the record of its attempt, and is still there. -/
theorem Deployment.Ok.recorded (hok : s.Ok W c) {chain : List SealedRecord} {e : Event} (he : .attempt e ∈ s.mine i)
    (hbody : .body chain ∈ s.mine i) : Recorded W (s.chain c) e := by
  have hprefix := hok.found i chain (Deployment.mem_mine.1 hbody)
  have hcourse := hok.courses i
  generalize s.mine i = done at he hbody hcourse
  cases hcourse with
  | idle => cases he
  | waiting _ => simp at hbody
  | refused _ _ => simp at hbody
  | acted _ hrec =>
    simp only [List.mem_cons, Done.attempt.injEq, Done.body.injEq, reduceCtorEq, List.not_mem_nil, or_false,
      false_or] at he hbody
    exact he ▸ (hbody ▸ hrec).mono hprefix
  | concluded _ hrec _ _ =>
    simp only [List.mem_cons, Done.attempt.injEq, Done.body.injEq, reduceCtorEq, List.not_mem_nil, or_false,
      false_or] at he hbody
    exact he ▸ (hbody ▸ hrec).mono hprefix

/-- **Nothing is done unrecorded.** Whatever actions run over one host, and whatever it, its store and their signers
answer: each has taken one of the five courses, and the chain a body ran beside, which held the record of its attempt, is
the beginning of the chain there is. -/
theorem recorded_before_act (hj : JcsSpec W.dumps InDomain) {S : Pool ToolQuery (ToolReply W) (Deployment ι)
      (Except ToolRaise Unit × Option (AcceptResponse W)) ι}
    (hr : Relation.ReflTransGen (Deployment.Step W c) ⟨.start, fun _ => none⟩ S) (i : ι) :
    Course W (S.shared.mine i) ∧ ValidChain W (S.shared.chain c) ∧
      ∀ chain, .body chain ∈ S.shared.mine i → chain <+: S.shared.chain c := by
  have hok := Deployment.reached hj hr
  exact ⟨hok.courses i, hok.holds.chain, fun chain hbody => hok.found i chain (Deployment.mem_mine.1 hbody)⟩

end Invariant

/-! ## An action to run -/

/-- The sample action, an egress. -/
def egressAction : AuditedAction := { sampleAction with egress := true }

def egressEvent (o : Outcome) : Event := egressAction.wire o none ATTEMPT_TS

/-- Its values with their SHA-256. -/
def egressHashes : List (Json × Str) :=
  let recordHash := lit "820bbccb513b0e096b2bedc49738b25ec8ad50d7bc8eaedc1b416baa521f8a50"
  [(.obj (egressEvent .attempted), lit "18bcc186859280fa4c03b662d9899cd1dbf77b69c6270505c05f0e8c7ea91f73"),
    (firstPreimage (egressEvent .attempted), recordHash),
    (.obj (egressEvent .success), lit "d5008f3c6fc507a386c6dc47cab3406993d0b26b7e48695c404d3f05ae902812"),
    (preimage (.obj (egressEvent .success)) (.int 1) (.str SAMPLE_TS) (.str recordHash),
      lit "c409e66867b92bb9214a2e718220a04ca130ba0afe2a18c57979d948a1b9a492")]

def egressSha256 (t : Str) : Str :=
  match egressHashes.find? fun m => jcs m.1 == t with
  | some m => m.2
  | none => referenceSha256 t

def egressWorld : World := { reference with sha256 := egressSha256 }

theorem egressWorld_jcs : JcsSpec egressWorld.dumps InDomain := reference_jcs

theorem storeAnswers_interfered (s : List SealedRecord) (q : Query) (x : Reply q) (s' : List SealedRecord)
    (h : storeAnswers false s q = some (x, s')) : (sharedStore egressWorld).interfered s q x s' :=
  ⟨s, Extends.refl s, storeAnswers_env s q x s' h⟩

/-- A host that opens the sample session at the first await, and then handles what it is handed. -/
def hostedAnswers (s : Deployment Unit) : (q : ToolQuery) → Option (ToolReply egressWorld q × Deployment Unit)
  | .now =>
    match openSession SAMPLE_SESSION s.host with
    | .ret (_, h) => some (ATTEMPT_TS, { s with host := h })
    | .ask _ _ => none
  | .sendAttempt e =>
    match (handleAttempt egressWorld sampleConfig e none none s.host).exec (storeAnswers false) s.store with
    | some ((y, h), t) => some (transported y, s.after () (.attempt e) h t)
    | none => none
  | .sendOutcome e =>
    match (recordOutcome egressWorld sampleConfig e none s.host).exec (storeAnswers false) s.store with
    | some ((y, h), t) => some (transported (y.map fun _ => ()), s.after () (.outcome e) h t)
    | none => none
  | .body => some (.ok (), s.after () (.body (s.chain sampleConfig)) s.host s.store)
  | _ => none

theorem hostedAnswers_beside (s : Deployment Unit) (q : ToolQuery) (x : ToolReply egressWorld q) (s' : Deployment Unit)
    (h : hostedAnswers s q = some (x, s')) : beside egressWorld sampleConfig () s q x s' := by
  cases q with
  | now =>
    simp only [hostedAnswers] at h
    split at h
    · next y host hopen =>
      obtain ⟨rfl, rfl⟩ := Prod.mk.inj (Option.some.inj h)
      have hop : Elsewhere egressWorld sampleConfig (s.host, s.store) (host, s.store) := by
        refine .op (.openSession SAMPLE_SESSION) (x := y) ?_
        rw [HostOp.run, hopen]
        exact .ret _ _
      exact ⟨host, s.store, .single hop, rfl⟩
    · cases h
  | sendAttempt e =>
    simp only [hostedAnswers] at h
    split at h
    · next y host t hrun =>
      obtain ⟨rfl, rfl⟩ := Prod.mk.inj (Option.some.inj h)
      exact ⟨s.host, s.store, .refl, .inr ⟨y, host, t, Prog.exec_runs storeAnswers_interfered hrun, rfl, rfl⟩⟩
    · cases h
  | sendOutcome e =>
    simp only [hostedAnswers] at h
    split at h
    · next y host t hrun =>
      obtain ⟨rfl, rfl⟩ := Prod.mk.inj (Option.some.inj h)
      exact ⟨s.host, s.store, .refl, .inr ⟨y, host, t, Prog.exec_runs storeAnswers_interfered hrun, rfl, rfl⟩⟩
    · cases h
  | body =>
    obtain ⟨_, rfl⟩ := Prod.mk.inj (Option.some.inj h)
    exact ⟨s.host, s.store, .refl, rfl⟩
  | take _ | leave _ _ | sign _ _ _ | verify _ _ _ => cases h

def egressRun : Option ((Except ToolRaise Unit × Option (AcceptResponse egressWorld)) × Deployment Unit) :=
  (egressAction.run none).exec hostedAnswers .start

theorem recorded_before_act_sample : ∃ S, Relation.ReflTransGen
      (Deployment.Step egressWorld sampleConfig) ⟨.start, fun _ : Unit => none⟩ S ∧
    (S.shared.mine ()).length = 3 ∧ S.shared.store.length = 2 ∧ Course egressWorld (S.shared.mine ()) := by
  have hsome : egressRun.isSome = true := by decide +kernel
  obtain ⟨⟨x, s⟩, hs⟩ := Option.isSome_iff_exists.1 hsome
  have hfacts : ∀ r ∈ egressRun, (r.2.mine ()).length = 3 ∧ r.2.store.length = 2 := by decide +kernel
  obtain ⟨hdone, hstore⟩ := hfacts _ hs
  have hrun : Relation.ReflTransGen (Deployment.Step egressWorld sampleConfig) ⟨.start, fun _ : Unit => none⟩ _ :=
    Pool.born_alone () rfl ⟨egressAction, rfl⟩ (Prog.exec_runs hostedAnswers_beside hs)
  exact ⟨_, hrun, hdone, hstore, (recorded_before_act egressWorld_jcs hrun ()).1⟩

end AuditableMcp
