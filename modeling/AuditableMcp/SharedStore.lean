import AuditableMcp.Lib.Runs
import AuditableMcp.Reference
/-!
# Several hosts over one store

Any number of hosts of one partition share a `LedgerRepository` whose append is conditional on the
record's `seq` (`storage/memory.py:19-29`). Their operations interleave at every await, and any await
may fail, an append before or after it stored. The store holds one valid chain throughout.

The argument is rely–guarantee (`Effect.pool_invariant`). Every writer only extends the store, and keeps
it a chain (`Extends`); a host's ledger continues a beginning of the store (`Continues`); and a host asks
only for records sealed at the end of such a beginning (`mayAppend`), which the conditional append stores
only when that beginning is the whole store.
-/
namespace AuditableMcp

open JsonValue HashChain Effect

/-! ## The store -/

/-- `InMemoryLedgerRepository.append` (`storage/memory.py:19-29`). -/
def storeAppend (s : List SealedRecord) (r : SealedRecord) : Except Raise (List SealedRecord) :=
  if r.seq = s.length then .ok (s ++ [r]) else .error .repositoryError

theorem storeAppend_eq_ok {s t : List SealedRecord} {r : SealedRecord} :
    storeAppend s r = .ok t ↔ r.seq = s.length ∧ t = s ++ [r] := by
  unfold storeAppend
  split <;> simp_all [eq_comm]

/-- What a host's environment may answer. A repository call may fail, an append after it stored too;
nothing is known of a verifier, a signer or a clock. -/
def storeEnv (s : List SealedRecord) : (q : Query) → Reply q → List SealedRecord → Prop
  | .append r, x, s' => storeAppend s r = .ok s' ∨ (s' = s ∧ ∃ e : Raise, x = (.error e : Except Raise Unit))
  | .loadTail, x, s' => s' = s ∧
      (x = (.ok s.getLast? : Except Raise (Option SealedRecord)) ∨ ∃ e, x = (.error e : Except Raise (Option SealedRecord)))
  | .readAll, x, s' => s' = s ∧
      (x = (.ok s : Except Raise (List SealedRecord)) ∨ ∃ e, x = (.error e : Except Raise (List SealedRecord)))
  | _, _, s' => s' = s

variable (W : World) (c : Config)

/-- What the other hosts may do to the store. -/
def Extends (s s' : List SealedRecord) : Prop := s <+: s' ∧ (ValidChain W s → ValidChain W s')

/-- A host asks to append only what it sealed at the end of a beginning of the store. -/
def mayAppend (s : List SealedRecord) : Query → Prop
  | .append r => r.Sealed W ∧ ∃ l, l <+: s ∧ r.seq = l.length ∧ r.previousHash = tailHashOf W l
  | _ => True

def sharedStore : Setting Query Reply (List SealedRecord) := ⟨storeEnv, Extends W, mayAppend W⟩

/-- The host's ledger continues a beginning of the store. -/
def Continues (h : Host) (s : List SealedRecord) : Prop :=
  ValidChain W s ∧ ∃ l, l <+: s ∧ h.ledger.At W l

/-- The record is the next of the host's ledger. -/
def Fits (h : Host) (r : SealedRecord) : Prop :=
  r.seq = h.ledger.count ∧ r.previousHash = h.ledger.tailHash ∧ r.Sealed W

variable {W}

theorem Extends.refl (s : List SealedRecord) : Extends W s s := ⟨List.prefix_refl s, id⟩

theorem Extends.trans {a b d : List SealedRecord} (h : Extends W a b) (h' : Extends W b d) : Extends W a d :=
  ⟨h.1.trans h'.1, h'.2 ∘ h.2⟩

theorem Continues.rely {h : Host} {s s' : List SealedRecord} (hc : Continues W h s) (hs : Extends W s s') :
    Continues W h s' := by
  obtain ⟨hv, l, hl, hat⟩ := hc
  exact ⟨hs.2 hv, l, hl.trans hs.1, hat⟩

theorem Continues.of_ledger {h h' : Host} {s : List SealedRecord} (hc : Continues W h s)
    (hl : h'.ledger = h.ledger) : Continues W h' s := by
  unfold Continues at hc ⊢
  rwa [hl]

/-- A record that fits what the host continues may be asked for. -/
theorem Continues.mayAppend {h : Host} {s : List SealedRecord} {r : SealedRecord} (hc : Continues W h s)
    (hr : Fits W h r) : mayAppend W s (.append r) := by
  obtain ⟨_, l, hl, hat⟩ := hc
  exact ⟨hr.2.2, l, hl, hr.1.trans hat.1, hr.2.1.trans hat.2⟩

/-- The conditional append: a record sealed at the end of a beginning of the store is stored only at the
end of the store. -/
theorem extends_of_append {s s' : List SealedRecord} {r : SealedRecord} (hm : mayAppend W s (.append r))
    (ha : storeAppend s r = .ok s') : Extends W s s' := by
  obtain ⟨hseq, rfl⟩ := storeAppend_eq_ok.1 ha
  obtain ⟨hsealed, l, hl, hn, hp⟩ := hm
  have hls : l = s := hl.eq_of_length (by omega)
  subst hls
  refine ⟨List.prefix_append _ _, fun hv => ?_⟩
  exact (chain_concat (links W)).2 ⟨hv, by simp [links, hn], hp, hsealed⟩

/-- Only appends are restricted. -/
theorem mayAppend_of_ne {s : List SealedRecord} {q : Query} (hq : ∀ r, q ≠ .append r) : mayAppend W s q := by
  cases q with
  | append r => exact absurd rfl (hq r)
  | _ => trivial

/-- Nothing a host may ask breaks what the others rely on. -/
theorem extends_of_env {s s' : List SealedRecord} {q : Query} {x : Reply q} (hm : mayAppend W s q)
    (he : storeEnv s q x s') : Extends W s s' := by
  cases q with
  | append r =>
    rcases he with ha | ⟨rfl, _⟩
    · exact extends_of_append hm ha
    · exact .refl _
  | loadTail => obtain ⟨rfl, _⟩ := he; exact .refl _
  | readAll => obtain ⟨rfl, _⟩ := he; exact .refl _
  | currentTime | verify _ | sign _ | clockNow | persistenceAvailable => cases he; exact .refl _

/-- The last record of the store, committed: the ledger continues the whole store. -/
theorem commit_last {h : Host} {s : List SealedRecord} {r : SealedRecord} (hv : ValidChain W s)
    (hlast : s.getLast? = some r) (hseq : r.seq = h.ledger.count) : (h.ledger.commit r).At W s := by
  have hat := Ledger.resumeFrom_at hv
  rw [hlast] at hat
  simpa [Ledger.resumeFrom, Ledger.commit, Ledger.At, ← hseq] using hat

/-! ## The operations -/

/-- A step of a host that keeps its ledger a continuation of the store. -/
abbrev Continuing {α : Type} (W : World) (m : HostM α) : Prop := Act.Keeps (sharedStore W) (Continues W) m

theorem continuing_modify {f : Host → Host} (hf : ∀ h, (f h).ledger = h.ledger) :
    Continuing W (Act.modify f) :=
  .modify fun h _ hc => hc.of_ledger (hf h)

theorem continuing_ask {q : Query} (hq : ∀ r, q ≠ .append r) : Continuing W (Act.await q) := by
  refine .await fun h s s₁ hc hs => ?_
  have hm : mayAppend W s₁ q := mayAppend_of_ne hq
  exact ⟨hm, fun r s' he => (hc.rely hs).rely (extends_of_env hm he)⟩

theorem continuing_canonically {α : Type} (x : Except Str α) : Continuing W (canonically x) := by
  cases x <;> exact .lift _

theorem continuing_remember (r : SealedRecord) : Continuing W (remember W r) :=
  .bind (continuing_canonically _) fun _ => continuing_modify fun _ => rfl

theorem continuing_adopt (r : SealedRecord) : Continuing W (adopt W c r) := by
  refine .bind .get fun h => ?_
  cases sessionId r.event with
  | none => exact .pure ()
  | some sid =>
    refine .ite ?_ (.pure ())
    refine .bind (continuing_modify fun h => by simp) fun _ => .ite ?_ ?_
    · exact continuing_modify fun _ => rfl
    · exact .bind (continuing_canonically _) fun _ => continuing_modify fun _ => rfl

/-- Settling: the stored tail is the last record of a chain, so a ledger that continues from it continues
the whole store, whether the record was this host's or another writer's. -/
theorem settleWith_continues {h : Host} {s : List SealedRecord} (hc : Continues W h s) :
    (settleWith W c s.getLast?).wp (sharedStore W) (fun _ => Continues W) h s := by
  have hv := hc.1
  have hat := Ledger.resumeFrom_at hv
  have hnone : (∃ l, l <+: s ∧ h.ledger.At W l) := hc.2
  simp only [settleWith, Act.wp_bind, Act.wp_get, Act.next_ok]
  cases ht : s.getLast? with
  | none => exact hc
  | some r =>
    rw [ht] at hat
    simp only
    split
    · next hseq =>
      have hcommit : Continues W (h.commit r) s := ⟨hv, s, List.prefix_refl s, commit_last hv ht hseq.1⟩
      exact Act.wp_bind.2 (Act.Keeps.bind (continuing_remember r) (fun _ => continuing_adopt c r) _ _ hcommit)
    · split
      · exact ⟨hv, s, List.prefix_refl s, hat⟩
      · exact hc

theorem continuing_settleTail : Continuing W (settleTail W c) := by
  refine .bind .get fun h => .ite ?_ (.pure true)
  intro h s hc
  rw [Act.wp_bind, Act.wp_await]
  intro s₁ hs
  refine ⟨trivial, ?_⟩
  rintro x s' ⟨rfl, hx⟩
  have hc' := hc.rely hs
  rcases hx with rfl | ⟨e, rfl⟩
  · simp only [Act.next_ok, Act.wp_bind]
    refine Act.wp_mono ?_ (settleWith_continues c hc')
    rintro (x | x) l s hl
    · exact hl
    · exact hl.of_ledger rfl
  · cases e <;> exact hc'

/-! ### Sealing -/

/-- Countersigning leaves the record at its place in the chain, whatever the signer does. -/
theorem countersign_fits {h : Host} {s : List SealedRecord} {r : SealedRecord} (hc : Continues W h s)
    (hr : Fits W h r) : (countersign W c r).wp (sharedStore W)
      (fun x h' s' => Continues W h' s' ∧ ∀ r', x = .ok (some r') → Fits W h' r') h s := by
  unfold countersign
  cases c.countersigner with
  | none =>
    refine ⟨hc, ?_⟩
    rintro _ ⟨⟩
    exact hr
  | some key =>
    simp only [Act.wp_bind]
    cases countersignaturePayload W (.int r.seq) (.str r.hostTs) (.str c.logId) (.str r.previousHash)
      (.str r.recordHash) with
    | error m => exact ⟨hc, by rintro _ ⟨⟩⟩
    | ok payload =>
      simp only [canonically, Act.wp_lift, Act.next_ok, Act.wp_bind, Act.wp_await]
      refine fun s₁ hs => ⟨trivial, ?_⟩
      rintro x s' ⟨⟩
      have hc' := hc.rely hs
      cases x with
      | ok g =>
        refine ⟨hc', ?_⟩
        rintro _ ⟨⟩
        exact hr
      | error e => cases e <;> exact ⟨hc', by rintro _ ⟨⟩⟩

/-- An append asks for a record that fits; where it was stored, the store ends with it. -/
theorem persist_continues (hrepo : c.hasRepository = true) {h : Host} {s : List SealedRecord}
    {r : SealedRecord} (hc : Continues W h s) (hr : Fits W h r) :
    (persist W c r).wp (sharedStore W) (fun _ => Continues W) h s := by
  simp only [persist, hrepo, ↓reduceIte, Act.wp_bind, Act.wp_await]
  intro s₁ hs
  have hc' := hc.rely hs
  have hm := hc'.mayAppend hr
  refine ⟨hm, fun x s' he => ?_⟩
  have hs' : Continues W h s' := hc'.rely (extends_of_env hm he)
  match x, he with
  | .error e, _ => cases e <;> exact hs'
  | .ok (), .inl ha =>
    obtain ⟨hseq, rfl⟩ := storeAppend_eq_ok.1 ha
    have hcommit : Continues W (h.commit r) (s₁ ++ [r]) :=
      ⟨hs'.1, _, List.prefix_refl _, commit_last hs'.1 (List.getLast?_concat ..) hr.1⟩
    exact Act.Keeps.bind (continuing_remember r) (fun _ => .pure _) _ _ hcommit
  | .ok (), .inr ⟨_, e, hx⟩ => cases hx

theorem continuing_sealRecord (hrepo : c.hasRepository = true) (e : Event) (ts : Str) :
    Continuing W (sealRecord W c e ts) := by
  intro h s hc
  simp only [sealRecord, Act.wp_bind, Act.wp_get, Act.next_ok]
  cases hseal : h.ledger.seal W e ts with
  | error m => exact hc
  | ok r =>
    obtain ⟨_, hseq, hprev, _, hsealed⟩ := Ledger.seal_eq_ok hseal
    simp only [canonically, Act.wp_lift, Act.next_ok, Act.wp_bind]
    refine Act.wp_mono ?_ (countersign_fits c hc ⟨hseq, hprev, hsealed⟩)
    rintro (x | _ | r') h' s' ⟨hc', hr'⟩
    · exact hc'
    · exact hc'
    · exact persist_continues c hrepo hc' (hr' r' rfl)

/-! ### Attempts and outcomes -/

theorem noteReceived_ledger (e : Event) (k : Str) (n : Int) (sid : Str) (h : Host) :
    (noteReceived e k n sid h).ledger = h.ledger := by
  have hgap : ∀ received, (flagGap e n received h).ledger = h.ledger := fun received => by
    simp only [flagGap]; split <;> rfl
  simp only [noteReceived]
  split
  · exact hgap _
  · exact hgap _

theorem checkReplay_ledger (e : Event) (sid : Str) (h : Host) :
    (checkReplay c e sid h).2.ledger = h.ledger := by
  unfold checkReplay
  split
  · split <;> rfl
  · rfl

theorem admit_ledger (e : Event) (expected : Option Str) (attempt : Bool) (h : Host) :
    (admitEvent W e expected attempt h).2.ledger = h.ledger := by
  unfold admitEvent sessionOf
  split
  · rfl
  · split
    · rfl
    · split
      · rfl
      · split
        · split <;> rfl
        · rfl

theorem continuing_state {α : Type} {f : Host → α × Host} (hf : ∀ h, (f h).2.ledger = h.ledger) :
    Continuing W (Act.state f) :=
  .state fun h _ hc => hc.of_ledger (hf h)

theorem continuing_verifySignature (e : Event) (sid : Str) : Continuing W (verifySignature c e sid) := by
  unfold verifySignature
  split
  · exact .pure none
  · split
    · refine .bind (continuing_ask fun r => by simp) fun x => ?_
      match x with
      | .error x => exact .raise x
      | .ok (some _) => exact .bind (continuing_modify fun _ => rfl) fun _ => .pure _
      | .ok none => exact .bind (continuing_modify (noteReceived_ledger e _ _ sid)) fun _ => .pure none
    · exact .bind (continuing_modify fun _ => rfl) fun _ => .pure _

theorem continuing_answerSealed (e : Event) (sid : Str) (r : SealedRecord) :
    Continuing W (answerSealed W c e sid r) := by
  refine .bind (continuing_canonically _) fun was => .bind (continuing_canonically _) fun is => .ite ?_ ?_
  · dsimp only
    split
    · exact .bind (continuing_modify fun _ => rfl) fun _ => .lift _
    · exact .bind (.pure _) fun _ => .lift _
  · exact .bind (continuing_modify fun h => by simp) fun _ => .pure _

theorem continuing_sealAttempt (hrepo : c.hasRepository = true) (e : Event) (sid : Str) :
    Continuing W (sealAttempt W c e sid) := by
  refine .bind (continuing_ask fun r => by simp) fun up => .ite ?_ (.pure _)
  refine .bind (continuing_ask fun r => by simp) fun ts =>
    .bind (continuing_sealRecord c hrepo e ts) fun r => ?_
  match r with
  | none => exact .pure _
  | some r => exact .bind (continuing_modify fun h => by simp) fun _ => .lift _

theorem continuing_decideAttempt (hrepo : c.hasRepository = true) (e : Event) (sid : Str) :
    Continuing W (decideAttempt W c e sid) := by
  refine .bind .get fun h => ?_
  split
  · exact continuing_answerSealed c e sid _
  · refine .ite (.bind (continuing_modify fun h => by simp) fun _ => .pure _) ?_
    refine .bind (continuing_state (checkReplay_ledger c e sid)) fun x => ?_
    match x with
    | some _ => exact .bind (continuing_modify fun h => by simp) fun _ => .pure _
    | none => exact continuing_sealAttempt c hrepo e sid

theorem continuing_handleAttempt (hrepo : c.hasRepository = true) (e : Event) (expected : Option Str)
    (deadline : Option Rat) : Continuing W (handleAttempt W c e expected deadline) := by
  have hlocked : Continuing W (handleAttemptLocked W c e expected) := by
    refine .bind (continuing_state (admit_ledger e expected true)) fun x => ?_
    match x with
    | .error _ => exact .pure _
    | .ok sid =>
      refine .bind (continuing_verifySignature c e sid) fun x => ?_
      match x with
      | some _ => exact .bind (continuing_modify fun _ => rfl) fun _ => .pure _
      | none => exact continuing_decideAttempt c hrepo e sid
  have hrest : ∀ late : Bool, Continuing W (if late = true then pure .unavailable else do
      if ← settleTail W c then handleAttemptLocked W c e expected else pure .unavailable) := fun late =>
    .ite (.pure _) (.bind (continuing_settleTail c) fun settled => .ite hlocked (.pure _))
  unfold handleAttempt
  cases deadline with
  | none => exact .bind (.pure false) hrest
  | some d => exact .bind (continuing_ask fun r => by simp) fun now => .bind (.pure (decide (d ≤ now))) hrest

theorem continuing_recordOutcome (hrepo : c.hasRepository = true) (e : Event) (expected : Option Str) :
    Continuing W (recordOutcome W c e expected) := by
  have hseal : ∀ sid d, Continuing W (sealOutcome W c e sid d) := fun sid d =>
    .bind (continuing_ask fun r => by simp) fun up => .ite
      (.bind (continuing_ask fun r => by simp) fun ts =>
        .bind (continuing_sealRecord c hrepo e ts) fun r => match r with
          | none => .pure _
          | some _ => .bind (continuing_modify fun h => by simp) fun _ => .pure _) (.pure _)
  have hcorrelate : ∀ sid d, Continuing W (correlateOutcome W c e sid d) := fun sid d =>
    .bind (continuing_state (checkReplay_ledger c e sid)) fun x => match x with
      | some _ => .pure _
      | none => .bind .get fun h => .ite
        (.bind (continuing_modify fun h => by simp) fun _ => .pure _) (hseal sid d)
  have hdecide : ∀ sid, Continuing W (decideOutcome W c e sid) := fun sid =>
    .bind (continuing_canonically _) fun d => .bind .get fun h => .ite (.pure _)
      (.ite (.bind (continuing_modify fun h => by simp) fun _ => .pure _) (hcorrelate sid d))
  refine .bind (continuing_settleTail c) fun settled => .ite ?_ (.pure _)
  refine .bind (continuing_state (admit_ledger e expected false)) fun x => match x with
    | .error _ => .pure _
    | .ok sid => .bind (continuing_verifySignature c e sid) fun x => match x with
      | some _ => .pure _
      | none => hdecide sid

/-! ### Sessions and restart -/

theorem flagAll_ledger (detail : Str → Str) (ids : List Str) : ∀ h : Host,
    (flagAll detail ids h).ledger = h.ledger := by
  induction ids with
  | nil => exact fun _ => rfl
  | cons id ids ih => exact fun h => ih _

theorem continuing_run (hrepo : c.hasRepository = true) (o : HostOp) : Continuing W (o.run W c) := by
  cases o with
  | attempt e expected deadline =>
    exact .bind (continuing_handleAttempt c hrepo e expected deadline) fun _ => .pure ()
  | outcome e expected => exact .bind (continuing_recordOutcome c hrepo e expected) fun _ => .pure ()
  | openSession sid => exact .bind .get fun h => .ite (.raise _) (continuing_modify fun _ => rfl)
  | closeSession sid =>
    refine .bind .get fun h => ?_
    cases h.sessions sid with
    | none => exact .pure ()
    | some s => exact continuing_modify fun h => by rw [flagAll_ledger]

section Resume

variable {σ : Type} {S : Setting Query Reply σ} {P : Host → σ → Prop}

theorem modify_keeps (hP : ∀ h h' s, h'.ledger = h.ledger → P h s → P h' s) {f : Host → Host}
    (hf : ∀ h, (f h).ledger = h.ledger) : Act.Keeps S P (Act.modify f : HostM Unit) :=
  .modify fun h s => hP h (f h) s (hf h)

/-- What holds through each update of `_remember` and of `issued` holds once the records are remembered. -/
theorem remembering_keeps (hremember : ∀ (h : Host) r d s, P h s → P (h.rememberWith r d) s)
    (hissued : ∀ (h : Host) ids s, P h s → P { h with issued := ids } s) (rs : List SealedRecord) :
    Act.Keeps S P (rememberAll W rs) := by
  induction rs with
  | nil => exact .pure ()
  | cons r rs ih =>
    have hremember' : Act.Keeps S P (remember W r) := by
      unfold remember
      cases digestOf W r.event with
      | error m => exact .bind (.lift _) fun _ => .modify fun h s => hremember h r _ s
      | ok d => exact .bind (.lift _) fun _ => .modify fun h s => hremember h r _ s
    refine .bind hremember' fun _ => ?_
    dsimp only
    split
    · exact .bind (.modify fun h s => hissued h _ s) fun _ => ih
    · exact .bind (.pure ()) fun _ => ih

/-- What depends on a host's ledger alone stays as the stored records are remembered. -/
theorem rememberAll_keeps (hP : ∀ h h' s, h'.ledger = h.ledger → P h s → P h' s) (rs : List SealedRecord) :
    Act.Keeps S P (rememberAll W rs) :=
  remembering_keeps (fun h _ _ s => hP h _ s rfl) (fun h _ s => hP h _ s rfl) rs

theorem restoreAll_keeps (hP : ∀ h h' s, h'.ledger = h.ledger → P h s → P h' s) (rs : List SealedRecord)
    (os : List OpenSession) : Act.Keeps S P (restoreAll W rs os) := by
  induction os with
  | nil => exact .pure ()
  | cons o os ih =>
    refine .bind (modify_keeps hP fun _ => rfl) fun _ => ?_
    cases restoredSession W o.sessionId .new rs with
    | error m => exact .bind (.lift _) fun _ => .bind (modify_keeps hP fun _ => rfl) fun _ => ih
    | ok s => exact .bind (.lift _) fun _ => .bind (modify_keeps hP fun _ => rfl) fun _ => ih

/-- **A resumed host** has what depends on its ledger alone, once it has read the records. -/
theorem resume_wp (hP : ∀ h h' s, h'.ledger = h.ledger → P h s → P h' s) (opens : List OpenSession) {h : Host} {s : σ}
    (hread : ∀ s₁, S.rely s s₁ → S.may s₁ .readAll ∧ ∀ x s', S.env s₁ .readAll x s' →
      match x with
      | .ok records => P { h with ledger := Ledger.resumeFrom records.getLast? } s'
      | .error _ => P h s') : (resume W opens).wp S (fun _ => P) h s := by
  simp only [resume, Act.wp_bind, Act.wp_await]
  refine fun s₁ hs => ⟨(hread s₁ hs).1, fun x s' he => ?_⟩
  have hx := (hread s₁ hs).2 x s' he
  cases x with
  | error e => exact hx
  | ok records =>
    exact Act.Keeps.bind (rememberAll_keeps hP records) (fun _ => .bind (restoreAll_keeps hP records opens) fun _ =>
      .modify fun h s => hP _ _ s (flagAll_ledger _ _ _)) _ _ hx

end Resume

theorem continuing_resume (opens : List OpenSession) : Continuing W (resume W opens) := by
  intro h s hc
  refine resume_wp (fun h h' s hl hc => hc.of_ledger hl) opens fun s₁ hs => ⟨trivial, ?_⟩
  rintro x s' ⟨rfl, hx⟩
  have hc' := hc.rely hs
  rcases hx with rfl | ⟨e, rfl⟩
  · exact ⟨hc'.1, s', List.prefix_refl s', Ledger.resumeFrom_at hc'.1⟩
  · exact hc'

/-! ## Hosts over one store -/

/-- A host of the partition, and what it was built with. -/
structure Member where
  config : Config
  host : Host

/-- How a host comes to be: by the constructor, or by `resume`, which may raise. -/
inductive Born (W : World) : Prog Query Reply (Option Member) → Prop
  | constructed (c : Config) : c.hasRepository = true → Born W (.ret (some ⟨c, .new⟩))
  | resumed (c : Config) (opens : List OpenSession) : c.hasRepository = true →
      Born W ((resume W opens Host.new).bind fun x => .ret (x.1.toOption.map fun _ => ⟨c, x.2⟩))

/-- A host's operations. -/
inductive Operates (W : World) : Option Member → Prog Query Reply (Option Member) → Prop
  | op (m : Member) (o : HostOp) :
      Operates W (some m) ((o.run W m.config m.host).bind fun x => .ret (some ⟨m.config, x.2⟩))

/-- A pool of hosts over one store. -/
abbrev Partition (ι : Type) : Type := Pool Query Reply (List SealedRecord) (Option Member) ι

abbrev Partition.Step (W : World) {ι : Type} [DecidableEq ι] : Partition ι → Partition ι → Prop :=
  Pool.Step storeEnv (Born W) (Operates W)

/-- The store empty, and no host yet. -/
def Partition.start {ι : Type} : Partition ι := ⟨[], fun _ => none⟩

variable (W) in
/-- What is known of a host between its operations. -/
def Member.Ok : Option Member → List SealedRecord → Prop
  | none, _ => True
  | some m, s => m.config.hasRepository = true ∧ Continues W m.host s

theorem continues_new {s : List SealedRecord} (hs : ValidChain W s) : Continues W .new s :=
  ⟨hs, [], List.nil_prefix, Ledger.empty_at⟩

theorem partition_guarantee :
    Guarantee (sharedStore W) (Born W) (Operates W) (ValidChain W) (Member.Ok W) where
  trans _ _ _ := Extends.trans
  refl := Extends.refl
  inv hv hs := hs.2 hv
  loc
    | none, _, _, _, _ => trivial
    | some _, _, _, h, hs => ⟨h.1, h.2.rely hs⟩
  guar _ hm he := extends_of_env hm he
  born := by
    rintro s p hv (⟨c, hrepo⟩ | ⟨c, opens, hrepo⟩)
    · exact ⟨hrepo, continues_new hv⟩
    · refine Wp_bind.2 (Wp.mono ?_ (continuing_resume opens .new s (continues_new hv)))
      rintro ⟨x | x, h⟩ s' hc
      · trivial
      · exact ⟨hrepo, hc⟩
  ops := by
    rintro s l p _ hl ⟨m, o⟩
    obtain ⟨hrepo, hc⟩ := hl
    exact Wp_bind.2 (Wp.mono (fun _ _ hc => ⟨hrepo, hc⟩) (continuing_run m.config hrepo o m.host s hc))

/-- **One chain.** In every interleaving of any number of hosts over one conditional store, whatever
their environments answer, each stored record has its index as `seq`, links to the record before it (the
genesis hash at the start), and carries the hash of its own preimage. -/
theorem partition_chain {ι : Type} [DecidableEq ι] {S : Partition ι}
    (hr : Relation.ReflTransGen (Partition.Step W) Partition.start S) (i : Nat) (r : SealedRecord)
    (hi : S.shared[i]? = some r) :
    r.seq = i ∧
      r.previousHash = (if i = 0 then GENESIS_HASH else ((S.shared[i - 1]?).map (·.recordHash)).getD []) ∧
      computeRecordHash W (.obj r.event) (.int r.seq) (.str r.hostTs) (.str r.previousHash) = .ok r.recordHash := by
  have hstart : ValidChain W [] := trivial
  have hchain : ValidChain W S.shared := pool_invariant partition_guarantee hstart hr
  obtain ⟨hseq, hsealed, hprev⟩ := hchain.getElem? hi
  exact ⟨hseq, hprev, hsealed⟩

/-- The sample attempt, accepted over an empty store by any environment that answers and stores it. -/
theorem sample_accepted_in {env : List SealedRecord → (q : Query) → Reply q → List SealedRecord → Prop}
    (hup : env [] .persistenceAvailable true []) (hnow : env [] .clockNow SAMPLE_TS [])
    (happ : env [] (.append sampleRecord) (.ok ()) [sampleRecord]) :
    ∃ a h', Runs env (handleAttempt reference sampleConfig sampleAttempt none none sampleHost) []
      (.ok (.accept a), h') [sampleRecord] := by
  have hd : digestOf reference sampleRecord.event = .ok (hashOf reference (.obj sampleAttempt)) := by
    simp [digestOf, sampleRecord, canonicalize_ok sampleAttempt_inDomain, Except.map, hashOf]
  have hseal := sealRecord_stored reference sampleConfig rfl rfl sampleRecord_sealed hd happ
  have hattempt : Runs env (sealAttempt reference sampleConfig sampleAttempt SAMPLE_SESSION sampleHost) [] _ _ :=
    sealAttempt_runs reference sampleConfig hup hnow hseal
  have haccept : ∃ a, acceptOf reference sampleRecord = .ok (.accept a) := by
    unfold acceptOf
    exact ⟨_, dif_pos (by decide)⟩
  obtain ⟨a, ha⟩ := haccept
  rw [← handleAttempt_unopposed reference sampleConfig sampleAttempt_unopposed, Option.elim_some, ha] at hattempt
  exact ⟨a, _, hattempt⟩

theorem sample_accepted : ∃ a h', Runs storeEnv (handleAttempt reference sampleConfig sampleAttempt none none sampleHost) []
    (.ok (.accept a), h') [sampleRecord] := sample_accepted_in rfl rfl (.inl rfl)

/-- The sample attempt, sealed over an empty store. -/
theorem sample_stored : ∃ h', Runs storeEnv ((HostOp.attempt sampleAttempt none none).run reference sampleConfig sampleHost)
    [] (.ok (), h') [sampleRecord] := by
  obtain ⟨a, h', hrun⟩ := sample_accepted
  exact ⟨h', Act.runs_bind hrun (.ret _ _)⟩

/-! ## Schedules -/

/-- How a store and a clock answer; an append that raises has landed. -/
def storeAnswers (raises : Bool) (s : List SealedRecord) : (q : Query) → Option (Reply q × List SealedRecord)
  | .append r =>
    match storeAppend s r with
    | .ok s' => some (if raises then .error .repositoryError else .ok (), s')
    | .error e => some (.error e, s)
  | .loadTail => some (.ok s.getLast?, s)
  | .readAll => some (.ok s, s)
  | .clockNow => some (SAMPLE_TS, s)
  | .persistenceAvailable => some (true, s)
  | _ => none

theorem storeAnswers_env {raises : Bool} (s : List SealedRecord) (q : Query) (x : Reply q) (s' : List SealedRecord)
    (h : storeAnswers raises s q = some (x, s')) : storeEnv s q x s' := by
  cases q with
  | append r =>
    simp only [storeAnswers] at h
    split at h
    · next t ht =>
      obtain ⟨-, rfl⟩ := Prod.mk.inj (Option.some.inj h)
      exact .inl ht
    · next e _ =>
      obtain ⟨rfl, rfl⟩ := Prod.mk.inj (Option.some.inj h)
      exact .inr ⟨rfl, e, rfl⟩
  | loadTail =>
    obtain ⟨rfl, rfl⟩ := Prod.mk.inj (Option.some.inj h)
    exact ⟨rfl, .inl rfl⟩
  | readAll =>
    obtain ⟨rfl, rfl⟩ := Prod.mk.inj (Option.some.inj h)
    exact ⟨rfl, .inl rfl⟩
  | clockNow => exact (Prod.mk.inj (Option.some.inj h)).2.symm
  | persistenceAvailable => exact (Prod.mk.inj (Option.some.inj h)).2.symm
  | currentTime | verify _ | sign _ => cases h

/-- What a host of a schedule does. -/
inductive HostTurn
  | constructed (c : Config)
  | resumed (c : Config) (opens : List OpenSession)
  | op (o : HostOp)

def HostTurn.next (W : World) : HostTurn → Option (Option Member) → Option (Prog Query Reply (Option Member))
  | .constructed c, none => if c.hasRepository then some (.ret (some ⟨c, .new⟩)) else none
  | .resumed c opens, none =>
    if c.hasRepository then
      some ((resume W opens Host.new).bind fun x => .ret (x.1.toOption.map fun _ => ⟨c, x.2⟩))
    else none
  | .op o, some (some m) => some ((o.run W m.config m.host).bind fun x => .ret (some ⟨m.config, x.2⟩))
  | _, _ => none

theorem HostTurn.next_born (t : HostTurn) (p : Prog Query Reply (Option Member)) (h : t.next W none = some p) : Born W p := by
  cases t with
  | constructed c =>
    obtain ⟨hrepo, h⟩ := Option.ite_none_right_eq_some.1 h
    cases h
    exact .constructed c hrepo
  | resumed c opens =>
    obtain ⟨hrepo, h⟩ := Option.ite_none_right_eq_some.1 h
    cases h
    exact .resumed c opens hrepo
  | op o => cases h

theorem HostTurn.next_operates (t : HostTurn) (l : Option Member) (p : Prog Query Reply (Option Member))
    (h : t.next W (some l) = some p) : Operates W l p := by
  cases t with
  | op o =>
    cases l with
    | none => cases h
    | some m =>
      cases h
      exact .op m o
  | constructed c => cases h
  | resumed c opens => cases h

/-- A host's turn, and whether an append in it raises. -/
abbrev Turn (ι : Type) : Type := ι × HostTurn × Bool

def Partition.turn (W : World) {ι : Type} [DecidableEq ι] (S : Partition ι) (t : Turn ι) : Option (Partition ι) :=
  Pool.turn (storeAnswers t.2.2) t.1 (t.2.1.next W) S

/-- A schedule is a run. -/
theorem Partition.plays {ι : Type} [DecidableEq ι] {S S' : Partition ι} {ts : List (Turn ι)}
    (h : Runs.acts (Partition.turn W) (fun _ _ => true) S ts = some S') :
    Relation.ReflTransGen (Partition.Step W) S S' := by
  refine Relation.reflTransGen_closed (fun S S' hact => ?_) _ _ (Runs.run_of_acts h)
  obtain ⟨t, -, hturn⟩ := hact
  exact Pool.runs_const.1 (Pool.turn_runs t.1 storeAnswers_env t.2.1.next_born t.2.1.next_operates hturn)

/-- One host's first append lands and raises; another, resumed, goes on from it; and the first takes that tail for its
own. -/
def twoHosts : List (Turn Bool) :=
  [(false, .constructed sampleConfig, false), (false, .op (.openSession SAMPLE_SESSION), false),
    (false, .op (.openSession OTHER_SESSION), false), (false, .op (.attempt sampleAttempt none none), true),
    (true, .resumed sampleConfig [⟨SAMPLE_SESSION, none⟩], false), (true, .op (.outcome sampleOutcome none), false),
    (false, .op (.attempt otherAttempt none none), false)]

theorem partition_chain_two : ∃ S : Partition Bool, Relation.ReflTransGen (Partition.Step reference) Partition.start S ∧
    S.shared = sampleChain ∧ lastRecord.seq = 2 ∧ lastRecord.previousHash = outcomeRecord.recordHash ∧
    computeRecordHash reference (.obj lastRecord.event) (.int lastRecord.seq) (.str lastRecord.hostTs)
      (.str lastRecord.previousHash) = .ok lastRecord.recordHash := by
  have hplayed : (Runs.acts (Partition.turn reference) (fun _ _ => true) Partition.start twoHosts).map Pool.shared =
      some sampleChain := by decide +kernel
  obtain ⟨S, hS, hshared⟩ := Option.map_eq_some_iff.1 hplayed
  have hchain := partition_chain (Partition.plays hS) 2 lastRecord (by rw [hshared]; rfl)
  rw [hshared] at hchain
  exact ⟨S, Partition.plays hS, hshared, hchain⟩

end AuditableMcp
