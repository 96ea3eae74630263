import AuditableMcp.Lifecycle
import AuditableMcp.Session
/-!
# Every refusal accounted for

Whatever event a host is handed, in whatever state, its two handlers return: a refusal adds one anomaly of a
Tier-1 kind, and no other answer adds any, but for the one gap a verified signature may show
(`attempt_filed`, `outcome_filed`).

That a handler returns rests on what its records are made of. An accept is a validated model
(`models.py:382-405`), and neither `AuditHost` nor `_seal` checks what goes into it: a countersigning host whose
`log_id` is no name seals an attempt, and then raises (`unnamed_raises`). So the host's chain is named, and has
fewer than 2^53 records.
-/
namespace AuditableMcp

open JsonValue Effect Regex

variable (W : World)

/-! ## Contracts -/

/-- A text that matches its pattern, and has no surrogate. -/
def isWire (p : Re) (s : Str) : Bool := p.fullmatch s && !s.any isSurrogate

/-- A name a response carries. -/
def isName (s : Str) : Bool := !s.isEmpty && !s.any isSurrogate

/-- What a host's awaits are answered: a timestamp, a reason of a verifier's, a signature. Where it is `strict`,
each call also ends as its protocol says: it is not cancelled, a repository raises its own error alone, and a
verifier raises nothing. -/
def Contract (strict : Bool) : (q : Query) → Reply q → Prop
  | .clockNow, ts => isTimestamp W ts = true
  | .verify _, x => (∀ r : RejectReason, x = (.ok (some r) : Except Raise (Option RejectReason)) →
      r.1 = .unknownKey ∨ r.1 = .signatureInvalid) ∧
        (strict = true → ∀ err, x ≠ (.error err : Except Raise (Option RejectReason)))
  | .sign _, x => (∀ g, x = (.ok g : Except Raise Str) → isWire SIGNATURE_PATTERN g = true) ∧
      (strict = true → x ≠ (.error .cancelled : Except Raise Str))
  | .append _, x => strict = true → ∀ err, x = (.error err : Except Raise Unit) → err = .repositoryError
  | .loadTail, x => strict = true → ∀ err, x = (.error err : Except Raise (Option SealedRecord)) → err = .repositoryError
  | .readAll, _ => True
  | .currentTime, _ => True
  | .persistenceAvailable, _ => True

/-- What an accept of the record says (`host.py:876-886`). -/
def SealedRecord.acceptFields (r : SealedRecord) : AcceptFields :=
  ⟨r.seq, r.recordHash, r.hostTs, r.previousHash, r.hostSignature, r.hostKeyId, r.logId⟩

/-- A record that can be answered for, and compared. -/
structure Fit (r : SealedRecord) : Prop where
  domain : InDomain (.obj r.event)
  valid : r.acceptFields.valid W = true

/-- Other writers have extended the store, with records like the host's own; it has fewer than 2^53 where its
host is to seal. -/
structure Written (strict : Bool) (s t : List SealedRecord) : Prop where
  kept : s <+: t
  added : ∀ r ∈ t, r ∈ s ∨ Fit W r
  room : strict = true → ∀ r ∈ t, r.seq < MAX_SAFE_INTEGER

/-- The host's surroundings: other writers before each answer, and each answer by contract. -/
def contractEnv (strict : Bool) (s : List SealedRecord) (q : Query) (x : Reply q) (s' : List SealedRecord) : Prop :=
  Contract W strict q x ∧ ∃ t, Written W strict s t ∧ storeEnv t q x s'

/-! ## What a call adds to the anomalies -/

/-- A gap, or nothing. -/
def AtMostGap (e : Event) (gap : List IntegrityAnomaly) : Prop :=
  gap.length ≤ 1 ∧ ∀ a ∈ gap, a.id = eventId e ∧ a.kind = .signerSeqGap

def Noted (before : List IntegrityAnomaly) (e : Event) (h : Host) : Prop :=
  ∃ gap, AtMostGap e gap ∧ h.anomalies = before ++ gap

/-- One anomaly of the event, of one of the kinds, behind at most a gap. -/
def Filed (before : List IntegrityAnomaly) (e : Event) (kinds : List Reason) (h : Host) : Prop :=
  ∃ gap a, AtMostGap e gap ∧ h.anomalies = before ++ gap ++ [a] ∧ a.id = eventId e ∧ a.kind ∈ kinds

/-- The Tier-1 anomaly kinds of a refusal (`reasons.py`); `l2-unsigned` and `unknown-key` are none. -/
def refusalKinds : List Reason := [.schemaInvalid, .signatureInvalid, .replayDetected, .orphanedOutcome]

/-- The kind a reject reason is filed under: `l2-unsigned` and `unknown-key` under `signature-invalid`. -/
def reasonKinds (reason : RejectReason) : List Reason := refusalKinds.filter (· = Host.anomalyKindOf reason.1)

def AttemptFiled (before : List IntegrityAnomaly) (e : Event) (h : Host) : AttemptResponse W → Prop
  | .reject reason => Filed before e (reasonKinds reason) h
  | .accept _ => Noted before e h
  | .unavailable => Noted before e h

def OutcomeFiled (before : List IntegrityAnomaly) (e : Event) (h : Host) : OutcomeDisposition → Prop
  | .refused => Filed before e refusalKinds h
  | .sealed => Noted before e h
  | .repeated => Noted before e h
  | .notRecorded => Noted before e h

variable {W} {before : List IntegrityAnomaly} {e : Event} {h h' : Host} {s : List SealedRecord}

theorem Noted.start : Noted h.anomalies e h := ⟨[], ⟨Nat.zero_le 1, fun _ h => absurd h List.not_mem_nil⟩, by simp⟩

theorem Noted.congr (hn : Noted before e h) (ha : h'.anomalies = h.anomalies) : Noted before e h' := by
  obtain ⟨gap, hgap, heq⟩ := hn
  exact ⟨gap, hgap, ha.trans heq⟩

theorem Noted.flag (hn : Noted before e h) (kind : Reason) (detail : Str) {kinds : List Reason}
    (hkind : Host.anomalyKindOf kind ∈ kinds) : Filed before e kinds (h.flag (eventId e) kind detail) := by
  obtain ⟨gap, hgap, heq⟩ := hn
  refine ⟨gap, ⟨eventId e, Host.anomalyKindOf kind, detail⟩, hgap, ?_, rfl, hkind⟩
  rw [← heq]
  rfl

theorem Filed.congr {kinds : List Reason} (hf : Filed before e kinds h) (ha : h'.anomalies = h.anomalies) :
    Filed before e kinds h' := by
  obtain ⟨gap, a, hgap, heq, hrest⟩ := hf
  exact ⟨gap, a, hgap, ha.trans heq, hrest⟩

/-- A reject reason is filed under a kind of its own. -/
theorem filed_kind (reason : RejectReason) :
    Host.anomalyKindOf reason.1 ∈ reasonKinds reason := by
  have hall : ∀ r ∈ rejectReasons, Host.anomalyKindOf r ∈ refusalKinds := by decide
  exact List.mem_filter.2 ⟨hall _ reason.2, by simp⟩

theorem Filed.refusal {reason : RejectReason} (hf : Filed before e (reasonKinds reason) h) : Filed before e refusalKinds h := by
  obtain ⟨gap, a, hgap, heq, hid, hkind⟩ := hf
  exact ⟨gap, a, hgap, heq, hid, (List.mem_filter.1 hkind).1⟩

/-! ## The tables -/

theorem genesis_wire : isWire CHAIN_HASH_PATTERN GENESIS_HASH = true := by decide

/-- A host whose records can be answered for. -/
structure Apt (W : World) (h : Host) (s : List SealedRecord) : Prop where
  stored : ∀ r ∈ s, Fit W r
  remembered : ∀ id r, h.sealedAttempts id = some r → Fit W r
  tail : isWire CHAIN_HASH_PATTERN h.ledger.tailHash = true

theorem Apt.congr (ha : Apt W h s) (hs : h'.sealedAttempts = h.sealedAttempts) (hl : h'.ledger.tailHash = h.ledger.tailHash) :
    Apt W h' s :=
  ⟨ha.stored, fun id r hr => ha.remembered id r (hs ▸ hr), hl ▸ ha.tail⟩

theorem Apt.written {strict : Bool} {t : List SealedRecord} (ha : Apt W h s) (hw : Written W strict s t) : Apt W h t :=
  ⟨fun r hr => (hw.added r hr).elim (ha.stored r) id, ha.remembered, ha.tail⟩

/-- What a valid accept's link is. -/
theorem Fit.recordHash {r : SealedRecord} (hr : Fit W r) : isWire CHAIN_HASH_PATTERN r.recordHash = true := by
  have hv := hr.valid
  simp only [AcceptFields.valid, SealedRecord.acceptFields, Bool.and_eq_true, List.all_cons, Option.all_some] at hv
  exact Bool.and_eq_true_iff.2 ⟨hv.1.1.1.1.1.1.1.2, hv.1.2.1⟩

theorem Fit.accept {r : SealedRecord} (hr : Fit W r) : ∃ a, acceptOf W r = .ok (.accept a) := by
  have hv := hr.valid
  unfold SealedRecord.acceptFields at hv
  exact ⟨_, dif_pos hv⟩

theorem Apt.commit {r : SealedRecord} (ha : Apt W h s) (hr : Fit W r) : Apt W (h.commit r) s :=
  ⟨ha.stored, ha.remembered, hr.recordHash⟩

theorem Apt.recorded {r : SealedRecord} {d : Str} (ha : Apt W h s) (hr : Fit W r) : Apt W (h.rememberWith r d) s := by
  refine ⟨ha.stored, fun id a hm => ?_, ha.tail⟩
  simp only [Host.rememberWith] at hm
  split at hm
  · rw [Function.update_apply] at hm
    split at hm
    · exact Option.some.inj hm ▸ hr
    · exact ha.remembered id a hm
  · exact ha.remembered id a hm

/-! ## Sealing -/

/-- What an action leaves: a host that is apt, and a result; it raises only where a call did not end as its
protocol says. -/
def Returns (W : World) (strict : Bool) {α : Type} (P : α → Host → Prop) :
    Except Raise α → Host → List SealedRecord → Prop
  | .ok a, h, s => Apt W h s ∧ P a h
  | .error _, h, s => Apt W h s ∧ strict = false

section Walk

variable {c : Config} {strict : Bool}

/-- An ask that is no append leaves the host, and other writers' records. -/
theorem contract_same {q : Query} {x : Reply q} {s' : List SealedRecord} (ha : Apt W h s) (hq : ∀ r, q ≠ .append r)
    (he : contractEnv W strict s q x s') : Apt W h s' ∧ Contract W strict q x := by
  obtain ⟨hc, t, hw, hst⟩ := he
  have hs : s' = t := by
    cases q with
    | append r => exact absurd rfl (hq r)
    | loadTail | readAll => exact hst.1
    | currentTime | verify _ | sign _ | clockNow | persistenceAvailable => exact hst
  exact ⟨hs ▸ ha.written hw, hc⟩

/-- The name of a countersigner's key is one, and so is the chain's. -/
structure WellNamed (c : Config) : Prop where
  key : ∀ key ∈ c.countersigner, isName key = true
  log : c.countersigner.isSome = true → isName c.logId = true

/-- The next record has a position a record can have. -/
def Roomy (strict : Bool) (h : Host) : Prop := strict = true → h.ledger.count ≤ MAX_SAFE_INTEGER

/-- A sealed record, countersigned or not, can be answered for. -/
theorem seal_fit (hhash : ∀ t, isWire CHAIN_HASH_PATTERN (W.sha256 t) = true) {ts : Str} {r : SealedRecord}
    (ha : Apt W h s) (hdom : InDomain (.obj e)) (hts : isTimestamp W ts = true) (hseal : h.ledger.seal W e ts = .ok r) :
    Fit W r ∧ ∀ g key log, isWire SIGNATURE_PATTERN g = true → isName key = true → isName log = true →
      Fit W { r with hostSignature := some g, hostKeyId := some key, logId := some log } := by
  obtain ⟨hev, hseq, hprev, hhost, hsealed⟩ := Ledger.seal_eq_ok hseal
  obtain ⟨hsig, hkey, hlog⟩ := Ledger.seal_unsigned hseal
  obtain ⟨hpre, hrec⟩ := computeRecordHash_eq_ok.1 hsealed
  have hcount := inDomain_int.1 (inDomain_preimage.1 hpre).2.2.2
  have hhash' : isWire CHAIN_HASH_PATTERN r.recordHash = true := hrec ▸ hhash _
  have htail := ha.tail
  rw [← hprev] at htail
  rw [← hhost] at hts
  simp only [isWire, isTimestamp, Bool.and_eq_true, Bool.not_eq_true'] at hhash' htail hts
  have hle : (r.seq : Int) ≤ MAX_SAFE_INTEGER := by omega
  refine ⟨⟨hev ▸ hdom, ?_⟩, fun g key log hg hk hl => ⟨hev ▸ hdom, ?_⟩⟩
  · simp [AcceptFields.valid, SealedRecord.acceptFields, hsig, hkey, hlog, hle, hhash', htail, hts, -List.any_eq_false]
  · simp only [isWire, isName, Bool.and_eq_true, Bool.not_eq_true'] at hg hk hl
    simp [AcceptFields.valid, SealedRecord.acceptFields, hle, hhash', htail, hts, hg, hk, hl, -List.any_eq_false]

/-! ### The tail -/

theorem remember_returns {r : SealedRecord} {P : Unit → Host → Prop} (hr : Fit W r) (ha : Apt W h s)
    (hp : ∀ d, P () (h.rememberWith r d)) : (remember W r).wp (.seq (contractEnv W strict)) (Returns W strict P) h s := by
  simp only [remember, digestOf_eq_ok hr.domain, canonically, Act.wp_bind, Act.wp_lift, Act.next_ok, Act.wp_modify]
  exact ⟨ha.recorded hr, hp _⟩

/-- An adopted record changes the table of its session alone. -/
theorem adopt_returns {r : SealedRecord} (hr : Fit W r) (ha : Apt W h s) (hroom : Roomy strict h) :
    (adopt W c r).wp (.seq (contractEnv W strict)) (Returns W strict fun _ h' =>
      h'.anomalies = h.anomalies ∧ Roomy strict h') h s := by
  simp only [adopt, Act.wp_bind, Act.wp_get, Act.next_ok]
  cases hsid : sessionId r.event with
  | none => exact ⟨ha, rfl, hroom⟩
  | some sid =>
    dsimp only
    split
    · simp only [Act.wp_bind, Act.wp_modify, Act.next_ok]
      split
      · exact ⟨ha.congr rfl rfl, rfl, hroom⟩
      · simp only [digestOf_eq_ok hr.domain, canonically, Act.wp_bind, Act.wp_lift, Act.next_ok, Act.wp_modify]
        exact ⟨ha.congr rfl rfl, rfl, hroom⟩
    · exact ⟨ha, rfl, hroom⟩

theorem settleWith_returns {tail : Option SealedRecord} (ht : ∀ r ∈ tail, Fit W r)
    (hlt : strict = true → ∀ r ∈ tail, r.seq < MAX_SAFE_INTEGER) (ha : Apt W h s) (hroom : Roomy strict h) :
    (settleWith W c tail).wp (.seq (contractEnv W strict)) (Returns W strict fun _ h' =>
      h'.anomalies = h.anomalies ∧ Roomy strict h') h s := by
  simp only [settleWith, Act.wp_bind, Act.wp_get, Act.next_ok]
  cases tail with
  | none => exact ⟨ha, rfl, hroom⟩
  | some r =>
    have hr := ht r rfl
    dsimp only
    split
    · next hnext =>
      simp only [Act.wp_bind, Act.wp_modify, Act.next_ok]
      have hroom' : Roomy strict (h.commit r) := by
        intro hstrict
        have hseq := hlt hstrict r rfl
        rw [hnext.1] at hseq
        exact hseq
      refine Act.wp_mono ?_ (@remember_returns W (h.commit r) s strict r
        (fun _ h' => h'.anomalies = h.anomalies ∧ Roomy strict h') hr (ha.commit hr) fun _ => ⟨rfl, hroom'⟩)
      rintro (x | _) h₁ s₁ hp
      · exact hp
      · obtain ⟨ha₁, heq, hroom₁⟩ := hp
        rw [Act.next_ok, ← heq]
        exact adopt_returns hr ha₁ hroom₁
    · split
      · refine ⟨⟨ha.stored, ha.remembered, hr.recordHash⟩, rfl, fun hstrict => ?_⟩
        exact hlt hstrict r rfl
      · exact ⟨ha, rfl, hroom⟩

theorem settleTail_returns (ha : Apt W h s) (hroom : Roomy strict h) :
    (settleTail W c).wp (.seq (contractEnv W strict)) (Returns W strict fun _ h' =>
      h'.anomalies = h.anomalies ∧ Roomy strict h') h s := by
  simp only [settleTail, Act.wp_bind, Act.wp_get, Act.next_ok]
  split
  · rw [Act.wp_bind, Act.wp_await_seq]
    rintro x s' ⟨hc, t, hw, rfl, hx⟩
    have ha' := ha.written hw
    rcases hx with rfl | ⟨err, rfl⟩
    · simp only [Act.next_ok, Act.wp_bind]
      refine Act.wp_mono ?_ (settleWith_returns (fun r hr => ha'.stored r (List.mem_of_getLast? hr))
        (fun hstrict r hr => hw.room hstrict r (List.mem_of_getLast? hr)) ha' hroom)
      rintro (x | _) h₁ s₁ hp
      · exact hp
      · exact ⟨hp.1.congr rfl rfl, hp.2⟩
    · cases err with
      | repositoryError => exact ⟨ha', rfl, hroom⟩
      | _ =>
        refine ⟨ha', Bool.eq_false_iff.2 fun hstrict => ?_⟩
        cases hc hstrict _ rfl
  · exact ⟨ha, rfl, hroom⟩

/-! ### The seal -/

theorem commitSealed_returns {r : SealedRecord} (hr : Fit W r) (ha : Apt W h s) :
    (commitSealed W r).wp (.seq (contractEnv W strict)) (Returns W strict fun x h' =>
      h'.anomalies = h.anomalies ∧ ∀ r' ∈ x, Fit W r') h s := by
  simp only [commitSealed, remember, digestOf_eq_ok hr.domain, canonically, Act.wp_bind, Act.wp_modify, Act.next_ok,
    Act.wp_lift, Act.wp_pure]
  refine ⟨(ha.commit hr).recorded hr, rfl, ?_⟩
  rintro _ ⟨⟩
  exact hr

theorem persist_returns {r : SealedRecord} (hr : Fit W r) (ha : Apt W h s) :
    (persist W c r).wp (.seq (contractEnv W strict)) (Returns W strict fun x h' =>
      h'.anomalies = h.anomalies ∧ ∀ r' ∈ x, Fit W r') h s := by
  unfold persist
  split
  · rw [Act.wp_bind, Act.wp_await_seq]
    rintro x s' ⟨hc, t, hw, happ⟩
    have ha' : Apt W h s' := by
      rcases happ with happ | ⟨rfl, _⟩
      · rw [(storeAppend_eq_ok.1 happ).2]
        refine ⟨fun a hm => ?_, ha.remembered, ha.tail⟩
        rcases List.mem_append.1 hm with hm | hm
        · exact (ha.written hw).stored a hm
        · obtain rfl := List.mem_singleton.1 hm
          exact hr
      · exact ha.written hw
    cases x with
    | ok _ => exact commitSealed_returns hr ha'
    | error err =>
      cases err with
      | repositoryError => exact ⟨ha'.congr rfl rfl, rfl, by rintro _ ⟨⟩⟩
      | _ =>
        refine ⟨ha'.congr rfl rfl, Bool.eq_false_iff.2 fun hstrict => ?_⟩
        cases hc hstrict _ rfl
  · exact commitSealed_returns hr ha

/-- An event of the canonical domain is sealed, or the repository's or the signer's failure is answered. -/
theorem sealRecord_returns (hn : WellNamed c) (hhash : ∀ t, isWire CHAIN_HASH_PATTERN (W.sha256 t) = true) {ts : Str}
    (hdom : InDomain (.obj e)) (hts : isTimestamp W ts = true) (ha : Apt W h s) (hroom : Roomy strict h) :
    (sealRecord W c e ts).wp (.seq (contractEnv W strict)) (Returns W strict fun x h' =>
      h'.anomalies = h.anomalies ∧ ∀ r' ∈ x, Fit W r') h s := by
  simp only [sealRecord, Act.wp_bind, Act.wp_get, Act.next_ok]
  have htail := ha.tail
  have hts' := hts
  simp only [isWire, isTimestamp, Bool.and_eq_true, Bool.not_eq_true'] at htail hts'
  cases hseal : h.ledger.seal W e ts with
  | error m =>
    refine ⟨ha, Bool.eq_false_iff.2 fun hstrict => ?_⟩
    have hcount : InDomain (.int h.ledger.count) := inDomain_int.2 (by simpa using hroom hstrict)
    have hpre := inDomain_preimage.2 ⟨hdom, inDomain_str.2 hts'.2, inDomain_str.2 htail.2, hcount⟩
    rw [Ledger.seal, computeRecordHash_eq_ok.2 ⟨hpre, rfl⟩] at hseal
    cases hseal
  | ok r =>
    obtain ⟨hfit, hfit'⟩ := seal_fit hhash ha hdom hts hseal
    obtain ⟨hev, hseq, hprev, hhost, hsealed⟩ := Ledger.seal_eq_ok hseal
    simp only [canonically, Act.wp_lift, Act.next_ok, Act.wp_bind]
    unfold countersign
    cases hkey : c.countersigner with
    | none => exact persist_returns hfit ha
    | some key =>
      dsimp only
      have hlog := hn.log (by rw [hkey]; rfl)
      have hname := hlog
      simp only [isName, Bool.and_eq_true, Bool.not_eq_true'] at hname
      have hrec := hfit.recordHash
      simp only [isWire, Bool.and_eq_true, Bool.not_eq_true'] at hrec
      have hpay := countersignaturePayload_ok_iff (W := W).2 ⟨inDomain_str.2 (hhost ▸ hts'.2), inDomain_str.2 hname.2,
        inDomain_str.2 (hprev ▸ htail.2), inDomain_str.2 hrec.2,
        (inDomain_preimage.1 (computeRecordHash_eq_ok.1 hsealed).1).2.2.2⟩
      obtain ⟨payload, hp⟩ := hpay
      rw [Act.wp_bind, hp]
      simp only [canonically, Act.wp_lift, Act.next_ok, Act.wp_bind, Act.wp_await_seq]
      intro x s' he
      obtain ⟨ha', hsigned, hraised⟩ := contract_same ha (by simp) he
      cases x with
      | ok g => exact persist_returns (hfit' g key c.logId (hsigned g rfl) (hn.key key hkey) hlog) ha'
      | error err =>
        cases err with
        | cancelled => exact ⟨ha'.congr rfl rfl, Bool.eq_false_iff.2 fun hstrict => hraised hstrict rfl⟩
        | _ => exact ⟨ha', rfl, by rintro _ ⟨⟩⟩

/-! ### Admission -/

/-- An event is admitted with its host as it was, or its refusal is filed. -/
theorem admitEvent_filed {expected : Option Str} {attempt : Bool} {x : Except RejectReason Str} {h' : Host}
    (ha : admitEvent W e expected attempt h = (x, h')) :
    h'.ledger = h.ledger ∧ h'.sealedAttempts = h.sealedAttempts ∧
      (∀ sid, x = .ok sid → h' = h ∧ InDomain (.obj e)) ∧
        ∀ reason, x = .error reason → Filed h.anomalies e (reasonKinds reason) h' := by
  have hflag : ∀ (reason : RejectReason) (detail : Str), x = .error reason → h' = h.flag (eventId e) reason.1 detail →
      h'.ledger = h.ledger ∧ h'.sealedAttempts = h.sealedAttempts ∧
        (∀ sid, x = .ok sid → h' = h ∧ InDomain (.obj e)) ∧
          ∀ reason, x = .error reason → Filed h.anomalies e (reasonKinds reason) h' := by
    rintro reason detail rfl rfl
    refine ⟨rfl, rfl, ?_, ?_⟩
    · rintro _ ⟨⟩
    · rintro _ ⟨⟩
      exact Noted.start.flag _ _ (filed_kind reason)
  unfold admitEvent at ha
  split at ha
  · obtain ⟨rfl, rfl⟩ := Prod.mk.inj ha
    exact hflag _ _ rfl rfl
  · split at ha
    · obtain ⟨rfl, rfl⟩ := Prod.mk.inj ha
      exact hflag _ _ rfl rfl
    · split at ha
      · obtain ⟨rfl, rfl⟩ := Prod.mk.inj ha
        exact hflag _ _ rfl rfl
      · next hdom =>
        unfold sessionOf at ha
        split at ha
        · split at ha
          · obtain ⟨rfl, rfl⟩ := Prod.mk.inj ha
            refine ⟨rfl, rfl, fun _ _ => ⟨rfl, by simpa [InDomain] using hdom⟩, ?_⟩
            rintro _ ⟨⟩
          · obtain ⟨rfl, rfl⟩ := Prod.mk.inj ha
            exact hflag _ _ rfl rfl
        · obtain ⟨rfl, rfl⟩ := Prod.mk.inj ha
          exact hflag _ _ rfl rfl

/-- What a verified signature notes is at most one gap. -/
theorem noteReceived_noted (k : Str) (n : Int) (sid : Str) (h : Host) :
    Noted h.anomalies e (noteReceived e k n sid h) := by
  have hgap : ∀ received, Noted h.anomalies e (flagGap e n received h) := by
    intro received
    simp only [flagGap]
    split
    · refine ⟨[⟨eventId e, .signerSeqGap, _⟩], ⟨Nat.le_refl 1, fun a ha => ?_⟩, rfl⟩
      obtain rfl := List.mem_singleton.1 ha
      exact ⟨rfl, rfl⟩
    · exact .start
  simp only [noteReceived]
  split
  · exact (hgap _).congr rfl
  · exact hgap _

theorem noteReceived_tables (k : Str) (n : Int) (sid : Str) (h : Host) : (noteReceived e k n sid h).ledger = h.ledger ∧
    (noteReceived e k n sid h).sealedAttempts = h.sealedAttempts := by
  have hgap : ∀ received, (flagGap e n received h).ledger = h.ledger ∧
      (flagGap e n received h).sealedAttempts = h.sealedAttempts := by
    intro received
    simp only [flagGap]
    split <;> exact ⟨rfl, rfl⟩
  simp only [noteReceived]
  split <;> exact hgap _

/-- A signature is verified with at most a gap noted, or its refusal is filed. -/
theorem verifySignature_returns (sid : Str) (ha : Apt W h s) (hroom : Roomy strict h) :
    (verifySignature c e sid).wp (.seq (contractEnv W strict)) (Returns W strict fun x h' => Roomy strict h' ∧
      (x = none → Noted h.anomalies e h') ∧ ∀ reason, x = some reason → Filed h.anomalies e (reasonKinds reason) h') h s := by
  unfold verifySignature
  split
  · exact ⟨ha, hroom, fun _ => .start, by rintro _ ⟨⟩⟩
  · split
    · next k n _ _ _ =>
      rw [Act.wp_bind, Act.wp_await_seq]
      intro x s' he
      obtain ⟨ha', _, hraised⟩ := contract_same ha (by simp) he
      match x with
      | .error err => exact ⟨ha', Bool.eq_false_iff.2 fun hstrict => hraised hstrict err rfl⟩
      | .ok (some reason) =>
        refine ⟨ha'.congr rfl rfl, hroom, ?_, ?_⟩
        · rintro ⟨⟩
        · rintro _ ⟨⟩
          exact Noted.start.flag _ _ (filed_kind reason)
      | .ok none =>
        obtain ⟨hledger, hsealed⟩ := noteReceived_tables (e := e) k n sid h
        refine ⟨ha'.congr hsealed (by rw [hledger]), ?_, fun _ => noteReceived_noted k n sid h, by rintro _ ⟨⟩⟩
        unfold Roomy
        rw [hledger]
        exact hroom
    · refine ⟨ha.congr rfl rfl, hroom, ?_, ?_⟩
      · rintro ⟨⟩
      · rintro _ ⟨⟩
        exact Noted.start.flag _ _ (filed_kind .l2Unsigned)

theorem checkReplay_filed {sid : Str} {x : Option RejectReason} {h' : Host} (hn : Noted before e h)
    (hx : checkReplay c e sid h = (x, h')) : h'.ledger = h.ledger ∧ h'.sealedAttempts = h.sealedAttempts ∧
      (x = none → h' = h) ∧ ∀ reason, x = some reason → Filed before e (reasonKinds reason) h' := by
  unfold checkReplay at hx
  split at hx
  · split at hx
    · obtain ⟨rfl, rfl⟩ := Prod.mk.inj hx
      refine ⟨rfl, rfl, ?_, ?_⟩
      · rintro ⟨⟩
      · rintro _ ⟨⟩
        exact hn.flag _ _ (filed_kind .replayDetected)
    · obtain ⟨rfl, rfl⟩ := Prod.mk.inj hx
      exact ⟨rfl, rfl, fun _ => rfl, by rintro _ ⟨⟩⟩
  · obtain ⟨rfl, rfl⟩ := Prod.mk.inj hx
    exact ⟨rfl, rfl, fun _ => rfl, by rintro _ ⟨⟩⟩

/-! ### Attempts -/

section Attempt

variable (hn : WellNamed c) (hhash : ∀ t, isWire CHAIN_HASH_PATTERN (W.sha256 t) = true)
include hn hhash

theorem sealAttempt_returns {sid : Str} (hdom : InDomain (.obj e)) (ha : Apt W h s) (hroom : Roomy strict h)
    (hnoted : Noted before e h) : (sealAttempt W c e sid).wp (.seq (contractEnv W strict))
      (Returns W strict fun x h' => AttemptFiled W before e h' x) h s := by
  simp only [sealAttempt, persistenceAvailable, Act.wp_bind, Act.wp_await_seq]
  intro up s₁ hup
  obtain ⟨ha₁, _⟩ := contract_same ha (by simp) hup
  simp only [Act.next_ok]
  split
  · rw [Act.wp_bind, Act.wp_await_seq]
    intro ts s₂ hts
    obtain ⟨ha₂, hts⟩ := contract_same ha₁ (by simp) hts
    simp only [Act.next_ok, Act.wp_bind]
    refine Act.wp_mono ?_ (sealRecord_returns hn hhash hdom hts ha₂ hroom)
    rintro (x | _ | r) h' s' hp
    · exact hp
    · exact ⟨hp.1, hnoted.congr hp.2.1⟩
    · obtain ⟨ha', heq, hfit⟩ := hp
      obtain ⟨a, hok⟩ := (hfit r rfl).accept
      simp only [Act.next_ok, Act.wp_bind, Act.wp_modify, Act.wp_lift, hok]
      exact ⟨ha'.congr rfl rfl, hnoted.congr heq⟩
  · exact ⟨ha₁, hnoted⟩

theorem decideAttempt_returns {sid : Str} (hdom : InDomain (.obj e)) (ha : Apt W h s) (hroom : Roomy strict h)
    (hnoted : Noted before e h) : (decideAttempt W c e sid).wp (.seq (contractEnv W strict))
      (Returns W strict fun x h' => AttemptFiled W before e h' x) h s := by
  simp only [decideAttempt, Act.wp_bind, Act.wp_get, Act.next_ok]
  cases hsealed : h.sealedAttempts (eventId e) with
  | some r =>
    have hr := ha.remembered _ r hsealed
    obtain ⟨a, hok⟩ := hr.accept
    simp only [answerSealed, canonicalize_ok hr.domain, canonicalize_ok hdom, canonically, Act.wp_bind, Act.wp_lift,
      Act.next_ok]
    split
    · simp only [hok]
      split
      · exact ⟨ha.congr rfl rfl, hnoted.congr rfl⟩
      · exact ⟨ha, hnoted⟩
    · exact ⟨ha.congr rfl rfl, (hnoted.congr rfl).flag _ _ (filed_kind .replayDetected)⟩
  | none =>
    dsimp only
    split
    · exact ⟨ha.congr rfl rfl, (hnoted.congr rfl).flag _ _ (filed_kind .replayDetected)⟩
    · simp only [Act.wp_bind, Act.wp_state]
      obtain ⟨hledger, hattempts, hnone, hsome⟩ := checkReplay_filed hnoted (Prod.eta (checkReplay c e sid h)).symm
      cases hreplay : (checkReplay c e sid h).1 with
      | some reason => exact ⟨ha.congr hattempts (congrArg _ hledger), (hsome reason hreplay).congr rfl⟩
      | none =>
        rw [Act.next_ok, hnone hreplay]
        exact sealAttempt_returns hn hhash hdom ha hroom hnoted

theorem handleAttempt_returns (expected : Option Str) (deadline : Option Rat) (ha : Apt W h s) (hroom : Roomy strict h) :
    (handleAttempt W c e expected deadline).wp (.seq (contractEnv W strict))
      (Returns W strict fun x h' => AttemptFiled W h.anomalies e h' x) h s := by
  have hrest : ∀ late : Bool, ∀ s, Apt W h s → Act.wp (.seq (contractEnv W strict)) (do
      if late = true then pure .unavailable else do
        if ← settleTail W c then handleAttemptLocked W c e expected else pure .unavailable)
      (Returns W strict fun x h' => AttemptFiled W h.anomalies e h' x) h s := by
    intro late s ha
    split
    · exact ⟨ha, .start⟩
    · rw [Act.wp_bind]
      refine Act.wp_mono ?_ (settleTail_returns ha hroom)
      rintro (x | _ | _) h₁ s₁ hp
      · exact hp
      · exact ⟨hp.1, Noted.start.congr hp.2.1⟩
      · obtain ⟨ha₁, heq, hroom₁⟩ := hp
        rw [← heq]
        simp only [Act.next_ok, ↓reduceIte, handleAttemptLocked, Act.wp_bind, Act.wp_state]
        obtain ⟨hledger, hattempts, hok, herr⟩ := admitEvent_filed (Prod.eta (admitEvent W e expected true h₁)).symm
        cases hadm : (admitEvent W e expected true h₁).1 with
        | error reason => exact ⟨ha₁.congr hattempts (congrArg _ hledger), herr reason hadm⟩
        | ok sid =>
          obtain ⟨hsame, hdom⟩ := hok sid hadm
          simp only [Act.wp_bind, hsame]
          refine Act.wp_mono ?_ (verifySignature_returns sid ha₁ hroom₁)
          rintro (x | _ | reason) h₂ s₂ hp
          · exact hp
          · obtain ⟨ha₂, hroom₂, hnone, _⟩ := hp
            exact decideAttempt_returns hn hhash hdom ha₂ hroom₂ (hnone rfl)
          · obtain ⟨ha₂, _, _, hsome⟩ := hp
            exact ⟨ha₂.congr rfl rfl, (hsome reason rfl).congr rfl⟩
  unfold handleAttempt
  cases deadline with
  | none => exact hrest false s ha
  | some d =>
    simp only [currentTime, Act.wp_bind, Act.wp_await_seq]
    intro now s' he
    exact hrest (decide (d ≤ now)) s' (contract_same ha (by simp) he).1

end Attempt

/-! ### Outcomes -/

section Outcome

variable (hn : WellNamed c) (hhash : ∀ t, isWire CHAIN_HASH_PATTERN (W.sha256 t) = true)
include hn hhash

theorem sealOutcome_returns {sid d : Str} (hdom : InDomain (.obj e)) (ha : Apt W h s) (hroom : Roomy strict h)
    (hnoted : Noted before e h) : (sealOutcome W c e sid d).wp (.seq (contractEnv W strict))
      (Returns W strict fun x h' => OutcomeFiled before e h' x) h s := by
  simp only [sealOutcome, persistenceAvailable, Act.wp_bind, Act.wp_await_seq]
  intro up s₁ hup
  obtain ⟨ha₁, _⟩ := contract_same ha (by simp) hup
  simp only [Act.next_ok]
  split
  · rw [Act.wp_bind, Act.wp_await_seq]
    intro ts s₂ hts
    obtain ⟨ha₂, hts⟩ := contract_same ha₁ (by simp) hts
    simp only [Act.next_ok, Act.wp_bind]
    refine Act.wp_mono ?_ (sealRecord_returns hn hhash hdom hts ha₂ hroom)
    rintro (x | _ | r) h' s' hp
    · exact hp
    · exact ⟨hp.1, hnoted.congr hp.2.1⟩
    · exact ⟨hp.1.congr rfl rfl, hnoted.congr hp.2.1⟩
  · exact ⟨ha₁, hnoted⟩

theorem decideOutcome_returns {sid : Str} (hdom : InDomain (.obj e)) (ha : Apt W h s) (hroom : Roomy strict h)
    (hnoted : Noted before e h) : (decideOutcome W c e sid).wp (.seq (contractEnv W strict))
      (Returns W strict fun x h' => OutcomeFiled before e h' x) h s := by
  have hreplay : Host.anomalyKindOf .replayDetected ∈ refusalKinds := by decide
  simp only [decideOutcome, digestOf_eq_ok hdom, canonically, Act.wp_bind, Act.wp_lift, Act.next_ok, Act.wp_get]
  split
  · exact ⟨ha, hnoted⟩
  · split
    · exact ⟨ha.congr rfl rfl, (hnoted.congr rfl).flag _ _ hreplay⟩
    · simp only [correlateOutcome, Act.wp_bind, Act.wp_state]
      obtain ⟨hledger, hattempts, hnone, hsome⟩ := checkReplay_filed hnoted (Prod.eta (checkReplay c e sid h)).symm
      cases hx : (checkReplay c e sid h).1 with
      | some reason => exact ⟨ha.congr hattempts (congrArg _ hledger), (hsome reason hx).refusal⟩
      | none =>
        simp only [Act.next_ok, hnone hx, Act.wp_bind, Act.wp_get]
        split
        · exact ⟨ha.congr rfl rfl, (hnoted.congr rfl).flag _ _ (by decide)⟩
        · exact sealOutcome_returns hn hhash hdom ha hroom hnoted

theorem recordOutcome_returns (expected : Option Str) (ha : Apt W h s) (hroom : Roomy strict h) :
    (recordOutcome W c e expected).wp (.seq (contractEnv W strict))
      (Returns W strict fun x h' => OutcomeFiled h.anomalies e h' x) h s := by
  rw [recordOutcome, Act.wp_bind]
  refine Act.wp_mono ?_ (settleTail_returns ha hroom)
  rintro (x | _ | _) h₁ s₁ hp
  · exact hp
  · exact ⟨hp.1, Noted.start.congr hp.2.1⟩
  · obtain ⟨ha₁, heq, hroom₁⟩ := hp
    rw [← heq]
    simp only [Act.next_ok, ↓reduceIte, handleOutcomeLocked, Act.wp_bind, Act.wp_state]
    obtain ⟨hledger, hattempts, hok, herr⟩ := admitEvent_filed (Prod.eta (admitEvent W e expected false h₁)).symm
    cases hadm : (admitEvent W e expected false h₁).1 with
    | error reason => exact ⟨ha₁.congr hattempts (congrArg _ hledger), (herr reason hadm).refusal⟩
    | ok sid =>
      obtain ⟨hsame, hdom⟩ := hok sid hadm
      simp only [Act.wp_bind, hsame]
      refine Act.wp_mono ?_ (verifySignature_returns sid ha₁ hroom₁)
      rintro (x | _ | reason) h₂ s₂ hp
      · exact hp
      · obtain ⟨ha₂, hroom₂, hnone, _⟩ := hp
        exact decideOutcome_returns hn hhash hdom ha₂ hroom₂ (hnone rfl)
      · obtain ⟨ha₂, _, _, hsome⟩ := hp
        exact ⟨ha₂, (hsome reason rfl).refusal⟩

end Outcome

/-! ## Reachable hosts -/

/-- One operation of the host, or a restart over its store, in surroundings whose calls may end in any way. -/
inductive Attended (W : World) : Service → Service → Prop
  | op {c : Config} {h h' : Host} {s s' : List SealedRecord} (o : HostOp) (x : Except Raise Unit) :
      Runs (contractEnv W false) (o.run W c h) s (x, h') s' → Attended W ⟨c, h, s⟩ ⟨c, h', s'⟩
  | restart {c : Config} {h h' : Host} {s s' : List SealedRecord} (opens : List OpenSession) :
      c.hasRepository = true → Runs (contractEnv W false) (resume W opens .new) s (.ok (), h') s' →
      Attended W ⟨c, h, s⟩ ⟨c, h', s'⟩

theorem apt_new : Apt W .new [] := by
  refine ⟨fun _ hr => absurd hr List.not_mem_nil, ?_, genesis_wire⟩
  rintro _ _ ⟨⟩

theorem Returns.apt {α : Type} {P : α → Host → Prop} {x : Except Raise α} (hx : Returns W strict P x h s) : Apt W h s := by
  cases x <;> exact hx.1

/-- An action that keeps a host apt, whatever becomes of its awaits. -/
abbrev Aptly (W : World) {α : Type} (m : HostM α) : Prop := Act.Keeps (.seq (contractEnv W false)) (Apt W) m

theorem aptly_canonically {α : Type} (x : Except Str α) : Aptly W (canonically x) := by
  cases x <;> exact .lift _

theorem apt_flagAll (detail : Str → Str) (ids : List Str) (ha : Apt W h s) : Apt W (flagAll detail ids h) s := by
  induction ids generalizing h with
  | nil => exact ha
  | cons id ids ih => exact ih (ha.congr rfl rfl)

theorem aptly_rememberAll : ∀ {rs : List SealedRecord}, (∀ r ∈ rs, Fit W r) → Aptly W (rememberAll W rs)
  | [], _ => .pure _
  | r :: rs, hfit => by
    have hremember : Aptly W (remember W r) :=
      .bind (aptly_canonically _) fun _ => .modify fun _ _ ha => ha.recorded (hfit r List.mem_cons_self)
    have hrest : Aptly W (rememberAll W rs) := aptly_rememberAll fun a hm => hfit a (List.mem_cons_of_mem r hm)
    refine .bind hremember fun _ => ?_
    cases sessionId r.event with
    | none => exact hrest
    | some sid => exact .bind (.modify fun _ _ ha => ha.congr rfl rfl) fun _ => hrest

theorem aptly_restoreAll (rs : List SealedRecord) : ∀ opens : List OpenSession, Aptly W (restoreAll W rs opens)
  | [] => .pure _
  | _ :: opens =>
    .bind (.modify fun _ _ ha => ha.congr rfl rfl) fun _ => .bind (aptly_canonically _) fun _ =>
      .bind (.modify fun _ _ ha => ha.congr rfl rfl) fun _ => aptly_restoreAll rs opens

/-- A host resumed over records of its own kind. -/
theorem aptly_resume (opens : List OpenSession) : Aptly W (resume W opens) := by
  intro h s ha
  simp only [resume, Act.wp_bind, Act.wp_await_seq]
  rintro x s' ⟨_, t, hw, rfl, hx⟩
  have ha' := ha.written hw
  rcases hx with rfl | ⟨err, rfl⟩
  · have htail : Apt W { h with ledger := Ledger.resumeFrom s'.getLast? } s' := by
      refine ⟨ha'.stored, ha'.remembered, ?_⟩
      cases hlast : s'.getLast? with
      | none => exact genesis_wire
      | some r => exact (ha'.stored r (List.mem_of_getLast? hlast)).recordHash
    have hrest : Aptly W (do
        rememberAll W s'
        restoreAll W s' opens
        Act.modify (flagUnresolved (opens.map (·.sessionId)) s')) :=
      .bind (aptly_rememberAll ha'.stored) fun _ => .bind (aptly_restoreAll s' opens) fun _ =>
        .modify fun _ _ ha => apt_flagAll _ _ ha
    rw [Act.next_ok, Act.wp_bind, Act.wp_modify, Act.next_ok]
    exact hrest _ s' htail
  · exact ha'

theorem aptly_run (hn : WellNamed c) (hhash : ∀ t, isWire CHAIN_HASH_PATTERN (W.sha256 t) = true) (o : HostOp) :
    Aptly W (o.run W c) := by
  have hroom : ∀ h : Host, Roomy false h := fun _ => nofun
  cases o with
  | attempt e expected deadline =>
    exact .bind (fun h s ha => Act.wp_mono (fun _ _ _ hx => hx.apt)
      (handleAttempt_returns hn hhash expected deadline ha (hroom h))) fun _ => .pure _
  | outcome e expected =>
    exact .bind (fun h s ha => Act.wp_mono (fun _ _ _ hx => hx.apt)
      (recordOutcome_returns hn hhash expected ha (hroom h))) fun _ => .pure _
  | openSession sid =>
    exact .bind .get fun h => .ite (.raise _) (.modify fun _ _ ha => ha.congr rfl rfl)
  | closeSession sid =>
    refine .bind .get fun h => ?_
    cases h.sessions sid with
    | none => exact .pure _
    | some ss => exact .modify fun _ _ ha => apt_flagAll _ _ (ha.congr rfl rfl)

theorem Attended.apt (hn : WellNamed c) (hhash : ∀ t, isWire CHAIN_HASH_PATTERN (W.sha256 t) = true) {S : Service}
    (hr : Relation.ReflTransGen (Attended W) (.start c) S) : S.config = c ∧ Apt W S.host S.store := by
  induction hr with
  | refl => exact ⟨rfl, apt_new⟩
  | tail _ hstep ih =>
    obtain ⟨hc, ha⟩ := ih
    cases hstep with
    | op o x hrun =>
      subst hc
      exact ⟨rfl, Act.wp_runs (aptly_run hn hhash o _ _ ha) hrun⟩
    | restart opens _ hrun =>
      have hnew : Apt W .new _ := ⟨ha.stored, (@apt_new W).remembered, (@apt_new W).tail⟩
      exact ⟨hc, Act.wp_runs (aptly_resume opens _ _ hnew) hrun⟩

end Walk

/-- **Every refusal is accounted for, once.** A host whose chain is named and has room answers every event, on
either channel, as its calls end by contract; a refusal files one anomaly, and no other answer files any, but for
the gap a verified signature may show. -/
theorem refusals_filed (hhash : ∀ t, isWire CHAIN_HASH_PATTERN (W.sha256 t) = true) {c : Config} (hn : WellNamed c) {S : Service}
    (hr : Relation.ReflTransGen (Attended W) (.start c) S) (hroom : S.host.ledger.count ≤ MAX_SAFE_INTEGER)
    (e : Event) (expected : Option Str) :
    (∀ deadline y h' s', Runs (contractEnv W true) (handleAttempt W c e expected deadline S.host) S.store (y, h') s' →
      ∃ a, y = .ok a ∧ AttemptFiled W S.host.anomalies e h' a) ∧
    ∀ y h' s', Runs (contractEnv W true) (recordOutcome W c e expected S.host) S.store (y, h') s' →
      ∃ d, y = .ok d ∧ OutcomeFiled S.host.anomalies e h' d := by
  obtain ⟨_, ha⟩ := Attended.apt hn hhash hr
  constructor
  · intro deadline y h' s' hrun
    have hx := Act.wp_runs (handleAttempt_returns hn hhash expected deadline ha fun _ => hroom) hrun
    cases y with
    | ok a => exact ⟨a, rfl, hx.2⟩
    | error err => cases hx.2
  · intro y h' s' hrun
    have hx := Act.wp_runs (recordOutcome_returns hn hhash expected ha fun _ => hroom) hrun
    cases y with
    | ok d => exact ⟨d, rfl, hx.2⟩
    | error err => cases hx.2

/-- The reference world, each hash of it a hash's text. -/
def wireReference : World :=
  { reference with sha256 := fun t => bif isWire CHAIN_HASH_PATTERN (reference.sha256 t) then reference.sha256 t else GENESIS_HASH }

theorem wireReference_wire (t : Str) : isWire CHAIN_HASH_PATTERN (wireReference.sha256 t) = true := by
  rw [wireReference]
  dsimp only
  cases h : isWire CHAIN_HASH_PATTERN (reference.sha256 t) with
  | true => exact h
  | false => exact genesis_wire

/-- A host in memory that countersigns; its partition has this name. -/
def signingHost (logId : Str) : Config where
  level := .l1
  countersign := .host
  hasVerifier := false
  countersigner := some (lit "host-1")
  logId := logId
  hasRepository := false
  verifier_of_l2 := verifier_of_l1
  countersigner_iff := host_one_countersigns

theorem signingHost_named : WellNamed (signingHost (lit "partition")) :=
  ⟨by rintro _ ⟨⟩; decide, fun _ => by decide⟩

theorem refusals_filed_named :
    (∀ deadline y h' s', Runs (contractEnv wireReference true)
        (handleAttempt wireReference (signingHost (lit "partition")) sampleAttempt none deadline sampleHost) [] (y, h') s' →
      ∃ a, y = .ok a ∧ AttemptFiled wireReference [] sampleAttempt h' a) ∧
    ∀ y h' s', Runs (contractEnv wireReference true)
        (recordOutcome wireReference (signingHost (lit "partition")) sampleAttempt none sampleHost) [] (y, h') s' →
      ∃ d, y = .ok d ∧ OutcomeFiled [] sampleAttempt h' d :=
  refusals_filed wireReference_wire signingHost_named
    (.single (.op (.openSession SAMPLE_SESSION) _ (sampleHost_opens []))) (by decide) sampleAttempt none

/-- Its partition, and so its log, has the empty name. -/
def unnamedHost : Config := signingHost []

/-- Its countersigner signs, and its clock reads the sample's time. -/
def signerAnswers : List SealedRecord → (q : Query) → Option (Reply q × List SealedRecord)
  | [], .persistenceAvailable => some (true, [])
  | [], .clockNow => some (SAMPLE_TS, [])
  | [], .sign _ => some (.ok (lit
      "bMw2AlRi6EXHzGezftHIrjhbbS892xlP3dLx5KXgXFvTayXsNeZKlABac2DC3BbDc6-8MzBvd9PTrWWuiH4jBw"), [])
  | _, _ => none

theorem signerAnswers_contract (s : List SealedRecord) (q : Query) (x : Reply q) (s' : List SealedRecord)
    (h : signerAnswers s q = some (x, s')) : contractEnv reference true s q x s' := by
  have hw : Written reference true [] [] :=
    ⟨List.prefix_refl _, fun _ hr => .inl hr, fun _ _ hr => absurd hr List.not_mem_nil⟩
  cases s with
  | cons r s => cases q <;> cases h
  | nil =>
    cases q with
    | persistenceAvailable =>
      obtain ⟨rfl, rfl⟩ := Prod.mk.inj (Option.some.inj h)
      exact ⟨trivial, [], hw, rfl⟩
    | clockNow =>
      obtain ⟨rfl, rfl⟩ := Prod.mk.inj (Option.some.inj h)
      exact ⟨(by decide : isTimestamp reference SAMPLE_TS = true), [], hw, rfl⟩
    | sign payload =>
      obtain ⟨rfl, rfl⟩ := Prod.mk.inj (Option.some.inj h)
      refine ⟨⟨fun g hg => ?_, fun _ => nofun⟩, [], hw, rfl⟩
      obtain rfl := Except.ok.inj hg
      decide
    | currentTime | loadTail | readAll | append _ | verify _ => cases h

def isValidationError {α : Type} : Except Raise α → Bool
  | .error .validationError => true
  | _ => false

/-- A first valid attempt, handed to it. -/
def unnamedRun : Option ((Except Raise (AttemptResponse reference) × Host) × List SealedRecord) :=
  (handleAttempt reference unnamedHost sampleAttempt none none sampleHost).exec signerAnswers []

/-- It seals the attempt, and raises. -/
theorem unnamed_raises : ∃ S, Relation.ReflTransGen (Attended reference) (.start unnamedHost) S ∧ ∃ h' s',
    Runs (contractEnv reference true) (handleAttempt reference unnamedHost sampleAttempt none none S.host) S.store
      (.error .validationError, h') s' ∧ h'.ledger.records.length = 1 := by
  have hopen : Runs (contractEnv reference false) ((HostOp.openSession SAMPLE_SESSION).run reference unnamedHost .new) []
      (.ok (), sampleHost) [] := .ret _ _
  have hsome : unnamedRun.isSome = true := by decide +kernel
  obtain ⟨⟨⟨x, h⟩, s⟩, hrun⟩ := Option.isSome_iff_exists.1 hsome
  have hfacts : ∀ r ∈ unnamedRun, r.1.2.ledger.records.length = 1 ∧ isValidationError r.1.1 = true := by decide +kernel
  obtain ⟨hlen, hx⟩ := hfacts _ hrun
  match x with
  | .ok _ => cases hx
  | .error .validationError => exact ⟨_, .single (.op _ _ hopen), h, s, Prog.exec_runs signerAnswers_contract hrun, hlen⟩
  | .error .cancelled | .error .repositoryError | .error .canonicalizationError | .error .other => cases hx

end AuditableMcp
