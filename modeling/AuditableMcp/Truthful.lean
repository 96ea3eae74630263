import AuditableMcp.Lifecycle
import AuditableMcp.Session
/-!
# What an accept says is in the chain

Any number of hosts, with the one conditional store or each with its own ledger, and whatever their
environments answer: every record a host remembers is in its chain (`Holds`), and an accept is made of a
remembered record (`Answers`). So each accept ever given names a record of the chain, whose event is
canonically the one the tool sent, and whose hash the tool's own bytes give (`accepts_truthful`).
-/
namespace AuditableMcp

open JsonValue HashChain Effect

variable (W : World) (c : Config)

/-! ## What an accept claims -/

/-- The chain a host's accepts speak of: the store's, when there is one. -/
def chainOf (h : Host) (s : List SealedRecord) : List SealedRecord := if c.hasRepository then s else h.ledger.records

/-- A record at the position an accept names has its fields, the tool's event in canonical form, and the hash the
tool computes over its own bytes. -/
structure Truthful (chain : List SealedRecord) (e : Event) (f : AcceptFields) : Prop where
  record : ∃ (i : Nat) (r : SealedRecord), f.seq = i ∧ chain[i]? = some r ∧ r.hostTs = f.hostTs ∧
    r.previousHash = f.previousHash ∧ r.recordHash = f.recordHash ∧ r.hostSignature = f.hostSignature ∧
    r.hostKeyId = f.hostKeyId ∧ r.logId = f.logId ∧ canonicalize W (.obj r.event) = canonicalize W (.obj e)
  hash : computeRecordHash W (.obj e) (.int f.seq) (.str f.hostTs) (.str f.previousHash) = .ok f.recordHash

/-- What is known of a host: its store is one chain, its ledger continues it, and what it remembers is in its
chain. -/
structure Holds (h : Host) (s : List SealedRecord) : Prop where
  store : ValidChain W s
  shared : c.hasRepository = true → ∃ l, l <+: s ∧ h.ledger.At W l
  alone : c.hasRepository = false → ValidChain W h.ledger.records ∧ h.ledger.At W h.ledger.records
  remembered : ∀ id r, h.sealedAttempts id = some r → r ∈ chainOf c h s

variable {W} {c}

theorem Truthful.mono {chain chain' : List SealedRecord} {e : Event} {f : AcceptFields} (h : Truthful W chain e f)
    (hp : chain <+: chain') : Truthful W chain' e f := by
  obtain ⟨⟨i, r, hseq, hget, hrest⟩, hhash⟩ := h
  obtain ⟨more, rfl⟩ := hp
  have hi := (List.getElem?_eq_some_iff.1 hget).1
  exact ⟨⟨i, r, hseq, by rw [List.getElem?_append_left hi, hget], hrest⟩, hhash⟩

/-! ## Moves keep it -/

theorem Holds.chain {h : Host} {s : List SealedRecord} (hh : Holds W c h s) : ValidChain W (chainOf c h s) := by
  unfold chainOf
  split
  · exact hh.store
  · next hno => exact (hh.alone (by simpa using hno)).1

/-- Neither the ledger nor what is remembered has changed. -/
theorem Holds.congr {h h' : Host} {s : List SealedRecord} (hh : Holds W c h s) (hl : h'.ledger = h.ledger)
    (ha : h'.sealedAttempts = h.sealedAttempts) : Holds W c h' s := by
  refine ⟨hh.store, by rw [hl]; exact hh.shared, by rw [hl]; exact hh.alone, ?_⟩
  rw [ha, chainOf, hl]
  exact hh.remembered

theorem Holds.extends {h : Host} {s s' : List SealedRecord} (hh : Holds W c h s) (hs : Extends W s s') :
    Holds W c h s' := by
  refine ⟨hs.2 hh.store, fun hrepo => ?_, hh.alone, fun id r hr => ?_⟩
  · obtain ⟨l, hl, hat⟩ := hh.shared hrepo
    exact ⟨l, hl.trans hs.1, hat⟩
  · have hin := hh.remembered id r hr
    by_cases hrepo : c.hasRepository = true
    · simp only [chainOf, hrepo, ↓reduceIte] at hin ⊢
      exact hs.1.subset hin
    · simp only [chainOf, hrepo] at hin ⊢
      exact hin

/-- A record taken in is remembered, and in the chain. -/
theorem remembered_recorded {h : Host} {r : SealedRecord} {d : Str} {chain chain' : List SealedRecord}
    (hh : ∀ id a, h.sealedAttempts id = some a → a ∈ chain) (hsub : chain ⊆ chain') (hr : r ∈ chain') :
    ∀ id a, (recorded r d h).sealedAttempts id = some a → a ∈ chain' := by
  intro id a ha
  simp only [recorded, Host.rememberWith, Host.commit] at ha
  split at ha
  · rw [Function.update_apply] at ha
    split at ha
    · exact Option.some.inj ha ▸ hr
    · exact hsub (hh id a ha)
  · exact hsub (hh id a ha)

theorem Holds.appends {h : Host} {s : List SealedRecord} {r : SealedRecord} (hh : Holds W c h s)
    (hrepo : c.hasRepository = true) (hr : Fits W h r) : mayAppend W s (.append r) := by
  obtain ⟨l, hl, hat⟩ := hh.shared hrepo
  exact ⟨hr.2.2, l, hl, hr.1.trans hat.1, hr.2.1.trans hat.2⟩

theorem Holds.step {h h' : Host} {s s' : List SealedRecord} (hh : Holds W c h s)
    (hm : Move W onlyStore c (h, s) (h', s')) : Holds W c h' s' := by
  cases hm with
  | turn q x hq he =>
    exact hh.extends (extends_of_env (mayAppend_of_ne hq) he)
  | note hn => exact hh.congr hn.ledger hn.sealedAttempts
  | doubt => exact hh.congr rfl rfl
  | ambiguous x hrepo hready hmade he =>
    exact (hh.extends (extends_of_env (hh.appends hrepo hmade.fits) he)).congr rfl rfl
  | @stored _ _ _ e sid d r hrepo hready hmade he hd =>
    have hh' := hh.extends (extends_of_env (hh.appends hrepo hmade.fits) he)
    rcases he with ha | ⟨_, err, hx⟩
    · obtain ⟨hseq, rfl⟩ := storeAppend_eq_ok.1 ha
      have hstep : Holds W c (recorded r d h) (s ++ [r]) := by
        refine ⟨hh'.store, fun _ => ⟨_, List.prefix_refl _, ?_⟩, fun hno => by simp [hrepo] at hno, ?_⟩
        · exact commit_last hh'.store (List.getLast?_concat ..) hmade.fits.1
        · have hin := hh'.remembered
          simp only [chainOf, hrepo, ↓reduceIte] at hin ⊢
          exact remembered_recorded hin (List.Subset.refl _) (by simp)
      exact hstep.congr (account_ledger ..) (account_sealedAttempts ..)
    · cases hx
  | @kept _ _ e sid d r hno hready hmade hd =>
    obtain ⟨hv, hat⟩ := hh.alone hno
    have hstep : Holds W c (recorded r d h) s := by
      refine ⟨hh.store, fun hrepo => by simp [hno] at hrepo, fun _ => ?_, ?_⟩
      · exact ⟨validChain_concat hv hat hmade.fits.1 hmade.fits.2.1 hmade.fits.2.2, hat.commit r⟩
      · have hin := hh.remembered
        simp only [chainOf, hno, Bool.false_eq_true, ↓reduceIte] at hin ⊢
        exact remembered_recorded hin (List.subset_append_left _ _)
          (by simp [recorded, Host.rememberWith, Host.commit, Ledger.commit])
    exact hstep.congr (account_ledger ..) (account_sealedAttempts ..)
  | @adopt _ _ r d hlanded hd =>
    have hin := hh.remembered
    simp only [chainOf, hlanded.repository, ↓reduceIte] at hin
    have hmem : r ∈ s := List.mem_of_getLast? hlanded.last
    have hstep : Holds W c (recorded r d h) s := by
      refine ⟨hh.store, fun _ => ⟨s, List.prefix_refl s, commit_last hh.store hlanded.last hlanded.next.1⟩,
        fun hno => by simp [hlanded.repository] at hno, ?_⟩
      simp only [chainOf, hlanded.repository, ↓reduceIte]
      exact remembered_recorded hin (List.Subset.refl _) hmem
    exact hstep.congr (adopted_ledger ..) (adopted_sealedAttempts ..)
  | @adoptRaised _ _ r m hlanded hd =>
    refine ⟨hh.store, fun _ => ⟨s, List.prefix_refl s, commit_last hh.store hlanded.last hlanded.next.1⟩,
      fun hno => by simp [hlanded.repository] at hno, ?_⟩
    have hin := hh.remembered
    simp only [chainOf, hlanded.repository, ↓reduceIte] at hin ⊢
    exact hin
  | @jump _ _ r hrepo hunc hlast hlt =>
    have hat := Ledger.resumeFrom_at hh.store
    have hlast' : s.getLast? = some r := hlast
    rw [hlast'] at hat
    refine ⟨hh.store, fun _ => ⟨s, List.prefix_refl s, hat⟩, fun hno => by simp [hrepo] at hno, ?_⟩
    have hin := hh.remembered
    simp only [chainOf, hrepo, ↓reduceIte] at hin ⊢
    exact hin
  | clear _ => exact hh.congr rfl rfl
  | reaccept _ _ _ => exact hh.congr rfl rfl
  | opened _ => exact hh.congr rfl rfl
  | @closed _ _ sid ss hss =>
    have hn := flagAll_neutral (fun id => lit "call ended with attempt " ++ id ++ lit " unresolved") ss.unresolved
      { h with sessions := Function.update h.sessions sid none }
    exact hh.congr hn.ledger hn.sealedAttempts

/-- The chain only grows. -/
theorem Holds.grows {h h' : Host} {s s' : List SealedRecord} (hh : Holds W c h s)
    (hm : Move W onlyStore c (h, s) (h', s')) : chainOf c h s <+: chainOf c h' s' := by
  have hstep := hh.step hm
  by_cases hrepo : c.hasRepository = true
  · simp only [chainOf, hrepo, ↓reduceIte]
    cases hm with
    | turn q x hq he => exact (extends_of_env (@mayAppend_of_ne W _ _ hq) he).1
    | ambiguous x _ hready hmade he => exact (extends_of_env (hh.appends hrepo hmade.fits) he).1
    | stored _ hready hmade he _ => exact (extends_of_env (hh.appends hrepo hmade.fits) he).1
    | _ => exact List.prefix_refl _
  · simp only [chainOf, hrepo]
    cases hm with
    | note hn => exact (congrArg Ledger.records hn.ledger).symm ▸ List.prefix_refl h.ledger.records
    | stored hyes => exact absurd hyes hrepo
    | kept _ _ _ _ =>
      rw [account_ledger]
      exact List.prefix_append _ _
    | adopt hlanded => exact absurd hlanded.repository hrepo
    | adoptRaised hlanded => exact absurd hlanded.repository hrepo
    | jump hyes => exact absurd hyes hrepo
    | @closed _ _ sid ss hss =>
      have hn := flagAll_neutral (fun id => lit "call ended with attempt " ++ id ++ lit " unresolved") ss.unresolved
        { h with sessions := Function.update h.sessions sid none }
      exact (congrArg Ledger.records hn.ledger).symm ▸ List.prefix_refl h.ledger.records
    | _ => exact List.prefix_refl _

/-- Every accept among the answers is truthful. -/
def AllTruthful (W : World) (chain : List SealedRecord) (answers : List (Event × AttemptResponse W)) : Prop :=
  ∀ e a, (e, .accept a) ∈ answers → Truthful W chain e a.1

theorem AllTruthful.mono {chain chain' : List SealedRecord} {answers : List (Event × AttemptResponse W)}
    (h : AllTruthful W chain answers) (hp : chain <+: chain') : AllTruthful W chain' answers :=
  fun e a ha => (h e a ha).mono hp

theorem holds_kept (answers : List (Event × AttemptResponse W)) : Kept W onlyStore c (Extends W) (mayAppend W)
    (fun h s => Holds W c h s ∧ AllTruthful W (chainOf c h s) answers)
    (fun h s => Holds W c h s ∧ AllTruthful W (chainOf c h s) answers) where
  stable {h s s'} hh hs := by
    refine ⟨hh.1.extends hs, hh.2.mono ?_⟩
    unfold chainOf
    split
    · exact hs.1
    · exact List.prefix_refl _
  turn hh hq _ he := ⟨hh.1.step (.turn _ _ hq he), hh.2.mono (hh.1.grows (.turn _ _ hq he))⟩
  read hh he := ⟨hh.1.step (.turn _ _ (by simp) he), hh.2.mono (hh.1.grows (.turn _ _ (by simp) he))⟩
  move hh hm _ _ := ⟨hh.1.step hm, hh.2.mono (hh.1.grows hm)⟩
  settle hh hm _ := ⟨hh.1.step hm, hh.2.mono (hh.1.grows hm)⟩
  asks hq _ := mayAppend_of_ne hq
  appends hrepo _ hmade hh := hh.1.appends hrepo hmade.fits
  vouched _ _ := trivial
  signed _ _ := trivial

/-! ## What a remembered record answers for -/

/-- Canonically equal events have one record hash. -/
theorem computeRecordHash_congr (hj : JcsSpec W.dumps InDomain) {v w seq ts prev : Json} {d : Str}
    (hd : computeRecordHash W v seq ts prev = .ok d) (h : canonicalize W v = canonicalize W w) :
    computeRecordHash W w seq ts prev = .ok d := by
  obtain ⟨hdom, rfl⟩ := computeRecordHash_eq_ok.1 hd
  obtain ⟨hv, hts, hprev, hseq⟩ := inDomain_preimage.1 hdom
  rw [canonicalize_ok hv, eq_comm] at h
  obtain ⟨hw, hdumps⟩ := canonicalize_eq_ok.1 h
  have heq : JsonEq v w := (hj.eq_iff v w hv hw).1 hdumps
  have hdom' : InDomain (preimage w seq ts prev) := inDomain_preimage.2 ⟨hw, hts, hprev, hseq⟩
  have hpre : JsonEq (preimage v seq ts prev) (preimage w seq ts prev) :=
    jsonEq_preimage.2 ⟨heq, .refl seq, .refl ts, .refl prev⟩
  refine computeRecordHash_eq_ok.2 ⟨hdom', ?_⟩
  rw [hashOf, hashOf, (hj.eq_iff _ _ hdom hdom').2 hpre]

/-- **An accept made of a remembered record is truthful.** -/
theorem Holds.truthful (hj : JcsSpec W.dumps InDomain) {h : Host} {s : List SealedRecord} (hh : Holds W c h s)
    {e : Event} {x : Except Raise (AttemptResponse W)} (hx : Answers W e x h) {a : AcceptResponse W}
    (ha : x = .ok (.accept a)) : Truthful W (chainOf c h s) e a.1 := by
  obtain ⟨r, hr, haccept, hcanon⟩ := hx a ha
  obtain ⟨i, hi, hget⟩ := List.getElem_of_mem (hh.remembered _ r hr)
  have hsome : (chainOf c h s)[i]? = some r := by rw [List.getElem?_eq_getElem hi, hget]
  obtain ⟨hseq, hsealed, _⟩ := hh.chain.getElem? hsome
  unfold acceptOf at haccept
  dsimp only at haccept
  split at haccept
  · cases haccept
    obtain rfl := hseq
    exact ⟨⟨r.seq, r, rfl, hsome, rfl, rfl, rfl, rfl, rfl, rfl, hcanon⟩, computeRecordHash_congr hj hsealed hcanon⟩
  · cases haccept

/-- The tool's own check of it passes. -/
theorem Truthful.unpolluted {chain : List SealedRecord} {e : Event} {f : AcceptFields} (h : Truthful W chain e f)
    (a : AuditedAction) : (a.checkRecordHash e f : ToolM W Unit) = pure () := by
  unfold AuditedAction.checkRecordHash
  rw [h.hash]
  split
  · funext l
    simp only [orFault, Act.lift_ok_bind_apply, bne_self_eq_false, Bool.false_eq_true, ↓reduceIte]
  · rfl

/-! ## Restart -/

/-- A host restored from all the records of its store. -/
structure Restored (all : List SealedRecord) (h : Host) (s : List SealedRecord) : Prop where
  store : s = all
  ledger : h.ledger = Ledger.resumeFrom all.getLast?
  remembered : ∀ id r, h.sealedAttempts id = some r → r ∈ all

theorem rememberAll_restored {S : Setting Query Reply (List SealedRecord)} {all : List SealedRecord}
    (rs : List SealedRecord) (hrs : rs ⊆ all) : Act.Keeps S (Restored all) (rememberAll W rs) := by
  induction rs with
  | nil => exact .pure ()
  | cons r rs ih =>
    rw [List.cons_subset] at hrs
    have hremember : Act.Keeps S (Restored all) (remember W r) := by
      refine .bind ?_ fun d => .modify fun h _ hh => ⟨hh.store, hh.ledger, ?_⟩
      · cases digestOf W r.event <;> exact .lift _
      · exact remembered_recorded (d := d) hh.remembered (List.Subset.refl _) hrs.1
    refine .bind hremember fun _ => ?_
    dsimp only
    split
    · exact .bind (.modify fun _ _ hh => ⟨hh.1, hh.2, hh.3⟩) fun _ => ih hrs.2
    · exact .bind (.pure ()) fun _ => ih hrs.2

theorem restoreAll_restored {S : Setting Query Reply (List SealedRecord)} {all : List SealedRecord}
    (opens : List OpenSession) : Act.Keeps S (Restored all) (restoreAll W all opens) := by
  induction opens with
  | nil => exact .pure ()
  | cons o opens ih =>
    refine .bind (.modify fun _ _ hh => ⟨hh.1, hh.2, hh.3⟩) fun _ => .bind ?_ fun _ =>
      .bind (.modify fun _ _ hh => ⟨hh.1, hh.2, hh.3⟩) fun _ => ih
    cases restoredSession W o.sessionId Session.new all <;> exact .lift _

theorem resume_holds (hrepo : c.hasRepository = true) (opens : List OpenSession) {s : List SealedRecord}
    (hs : ValidChain W s) : (resume W opens).wp (sharedStore W) (fun x h s' => x = .ok () → Holds W c h s') .new s := by
  simp only [resume, Act.wp_bind, Act.wp_await]
  refine fun s₁ hrely => ⟨trivial, ?_⟩
  rintro x s' ⟨rfl, hx⟩
  have hv := hrely.2 hs
  rcases hx with rfl | ⟨e, rfl⟩
  · simp only [Act.next_ok]
    have hstart : Restored s' { Host.new with ledger := Ledger.resumeFrom s'.getLast? } s' :=
      ⟨rfl, rfl, by simp [Host.new]⟩
    have hkeeps : Act.Keeps (sharedStore W) (Restored s') (do
        rememberAll W s'
        restoreAll W s' opens
        Act.modify (flagUnresolved (opens.map (·.sessionId)) s')) :=
      .bind (rememberAll_restored s' (List.Subset.refl _)) fun _ => .bind (restoreAll_restored opens) fun _ =>
        .modify fun h _ hh => by
          have hn := flagAll_neutral (fun id => lit "host restarted with attempt " ++ id ++ lit " unresolved")
            ((openAttempts (opens.map (·.sessionId)) s').map Prod.snd) h
          exact ⟨hh.store, hn.ledger.trans hh.ledger, fun id r hr => hh.remembered id r (hn.sealedAttempts ▸ hr)⟩
    rw [Act.wp_bind, Act.wp_modify, Act.next_ok]
    refine Act.wp_mono ?_ (hkeeps _ _ hstart)
    rintro x h s₂ ⟨rfl, hledger, hmem⟩ _
    refine ⟨hv, fun _ => ⟨s₂, List.prefix_refl _, ?_⟩, fun hno => by simp [hrepo] at hno, ?_⟩
    · rw [hledger]
      exact Ledger.resumeFrom_at hv
    · simpa [chainOf, hrepo] using hmem
  · rintro ⟨⟩

/-! ## Runs -/

/-- A host, and every attempt it was asked, with its answer. -/
structure Desk (W : World) where
  config : Config
  host : Host
  answers : List (Event × AttemptResponse W)

/-- A host constructed, with a repository or without, or resumed. -/
inductive Desk.Born (W : World) : Prog Query Reply (Option (Desk W)) → Prop
  | constructed (c : Config) : Born W (.ret (some ⟨c, .new, []⟩))
  | resumed (c : Config) (opens : List OpenSession) : c.hasRepository = true →
      Born W ((resume W opens Host.new).bind fun x => .ret (x.1.toOption.map fun _ => ⟨c, x.2, []⟩))

/-- An attempt, its answer kept where there is one; or another operation. -/
inductive Desk.Operates (W : World) : Option (Desk W) → Prog Query Reply (Option (Desk W)) → Prop
  | attempt (m : Desk W) (e : Event) (expected : Option Str) (deadline : Option Rat) :
      Operates W (some m) ((handleAttempt W m.config e expected deadline m.host).bind fun x =>
        .ret (some ⟨m.config, x.2, m.answers ++ (x.1.toOption.map (Prod.mk e)).toList⟩))
  | other (m : Desk W) (o : HostOp) : (∀ e expected deadline, o ≠ .attempt e expected deadline) →
      Operates W (some m) ((o.run W m.config m.host).bind fun x => .ret (some ⟨m.config, x.2, m.answers⟩))

/-- What is known of a desk between its operations. -/
def Desk.Ok : Option (Desk W) → List SealedRecord → Prop
  | none, _ => True
  | some m, s => Holds W m.config m.host s ∧ AllTruthful W (chainOf m.config m.host s) m.answers

theorem holds_new {s : List SealedRecord} (hs : ValidChain W s) : Holds W c .new s where
  store := hs
  shared _ := ⟨[], List.nil_prefix, Ledger.empty_at⟩
  alone _ := ⟨trivial, Ledger.empty_at⟩
  remembered := by simp [Host.new]

theorem desk_guarantee (hj : JcsSpec W.dumps InDomain) :
    Guarantee (sharedStore W) (Desk.Born W) (Desk.Operates W) (ValidChain W) Desk.Ok where
  trans _ _ _ := Extends.trans
  refl := Extends.refl
  inv hv hs := hs.2 hv
  loc
    | none, _, _, _, _ => trivial
    | some m, _, _, h, hs => (holds_kept m.answers).stable h hs
  guar _ hm he := extends_of_env hm he
  born := by
    rintro s p hv (c | ⟨c, opens, hrepo⟩)
    · exact ⟨holds_new hv, fun _ _ ha => by cases ha⟩
    · refine Wp_bind.2 (Wp.mono ?_ (resume_holds (c := c) hrepo opens hv))
      rintro ⟨x | x, h⟩ s' hc
      · trivial
      · exact ⟨hc rfl, fun _ _ ha => by cases ha⟩
  ops := by
    rintro s l p _ hl (⟨m, e, expected, deadline⟩ | ⟨m, o, ho⟩)
    · refine Wp_bind.2 (Wp.mono ?_ (handleAttempt_keeps (onlyStore_fair _) (holds_kept m.answers) e expected deadline hl))
      rintro ⟨x, h⟩ s' ⟨⟨hh, hall⟩, hanswers⟩
      refine ⟨hh, fun e' a ha => ?_⟩
      rcases List.mem_append.1 ha with ha | ha
      · exact hall e' a ha
      · cases x with
        | error x => simp [Except.toOption] at ha
        | ok y =>
          simp only [Except.toOption, Option.map_some, Option.toList_some, List.mem_singleton, Prod.mk.injEq] at ha
          obtain ⟨rfl, rfl⟩ := ha
          exact hh.truthful hj hanswers rfl
    · exact Wp_bind.2 (Wp.mono (fun _ _ hp => hp)
        (keeping_run (onlyStore_fair _) (holds_kept m.answers) o m.host s hl))

/-- **Accepts are truthful.** Whatever hosts are built over one store, beside each other or one after another, and
whatever their stores, signers, verifiers and clocks answer: every accept one of them ever gave names a record of
its chain, of the event it answers, and passes the tool's own check. -/
theorem accepts_truthful (hj : JcsSpec W.dumps InDomain) {ι : Type} [DecidableEq ι] {s₀ : List SealedRecord}
    (h₀ : ValidChain W s₀) {S : Pool Query Reply (List SealedRecord) (Option (Desk W)) ι}
    (hr : Relation.ReflTransGen (Pool.Step storeEnv (Desk.Born W) (Desk.Operates W)) ⟨s₀, fun _ => none⟩ S)
    {i : ι} {m : Desk W} (hi : S.threads i = some (.idle (some m))) {e : Event} {a : AcceptResponse W}
    (ha : (e, .accept a) ∈ m.answers) : Truthful W (chainOf m.config m.host S.shared) e a.1 ∧
      ∀ action : AuditedAction, (action.checkRecordHash e a.1 : ToolM W Unit) = pure () := by
  have hok : Desk.Ok (some m) S.shared := pool_idle (desk_guarantee hj) h₀ hr hi
  have htrue := hok.2 e a ha
  exact ⟨htrue, htrue.unpolluted⟩

/-- A host that opened a session and accepted the sample attempt. -/
theorem accepts_truthful_one : ∃ (S : Pool Query Reply (List SealedRecord) (Option (Desk reference)) Unit)
    (m : Desk reference) (a : AcceptResponse reference),
    Relation.ReflTransGen (Pool.Step storeEnv (Desk.Born reference) (Desk.Operates reference)) ⟨[], fun _ => none⟩ S ∧
    S.threads () = some (.idle (some m)) ∧ (sampleAttempt, .accept a) ∈ m.answers ∧
    (Truthful reference (chainOf m.config m.host S.shared) sampleAttempt a.1 ∧
      ∀ action : AuditedAction, (action.checkRecordHash sampleAttempt a.1 : ToolM reference Unit) = pure ()) := by
  obtain ⟨a, h', hrun⟩ := sample_accepted
  have hborn : Relation.ReflTransGen (@Pool.Step Query Reply (List SealedRecord) (Option (Desk reference)) Unit _ storeEnv
      (Desk.Born reference) (Desk.Operates reference)) ⟨[], fun _ => none⟩ _ :=
    Pool.runs_const.1 (Pool.born_alone () rfl (.constructed sampleConfig) (.ret _ _))
  have hopen := hborn.trans (Pool.runs_const.1 (Pool.op_alone () (Function.update_self ..)
    (.other ⟨sampleConfig, .new, []⟩ (.openSession SAMPLE_SESSION) (by simp)) (Runs.bind (sampleHost_opens []) (.ret _ _))))
  have hattempt := hopen.trans (Pool.runs_const.1 (Pool.op_alone () (Function.update_self ..)
    (.attempt ⟨sampleConfig, sampleHost, []⟩ sampleAttempt none none) (Runs.bind hrun (.ret _ _))))
  have hstart : ValidChain reference [] := trivial
  have hlast : Relation.ReflTransGen (@Pool.Step Query Reply (List SealedRecord) (Option (Desk reference)) Unit _ storeEnv
      (Desk.Born reference) (Desk.Operates reference)) ⟨[], fun _ => none⟩
      ⟨[sampleRecord], fun _ => some (.idle (some ⟨sampleConfig, h', [(sampleAttempt, .accept a)]⟩))⟩ := by
    convert hattempt using 2
    ext1 i
    rfl
  exact ⟨_, _, a, hlast, rfl, List.mem_singleton_self _,
    @accepts_truthful reference reference_jcs Unit _ [] hstart _ hlast () _ rfl _ _ (List.mem_singleton_self _)⟩

end AuditableMcp
