import AuditableMcp.Acceptance
import AuditableMcp.Accounting
import AuditableMcp.Keys
import AuditableMcp.Reference
/-!
# Records from untrusted storage

`from_dict` checks nothing, so a stored record may hold any JSON value in any member. What the verifier
says of it when its two checkers are registries (`registryOptions`), and exactly which records make it
raise: a member that is hashed and has no hash, an event that is no mapping, and an `int` too long to be
written into the text of a finding (`verify_answers_iff`).
-/
namespace AuditableMcp

open JsonValue

/-! ## What a record may hold -/

/-- What the verifier hashes of an event has a hash. -/
structure HashableEvent (v : Json) (e : Event) : Prop where
  object : v = .obj e
  accountable : Accountable v
  call : getNull e ID ≠ .null → get e SESSION_ID = none → (getNull e CALL_ID).hashable = true

/-- A record whose own members have a canonical form. -/
def RawRecord.canonical (r : RawRecord) : Bool :=
  !outsideCanonicalDomain r.event && !outsideCanonicalDomain r.seq && !outsideCanonicalDomain r.hostTs

/-- Whether the link after a record has a canonical form: a hash has one, the text stored by a record that
cannot be hashed may have none. -/
def linkAfter (linked : Bool) (r : RawRecord) : Bool :=
  if linked && r.canonical then true
  else
    match r.recordHash with
    | .str h => !h.any isSurrogate
    | _ => linked

/-- A whole triple whose payload is built, in a record that can be hashed: its signature is confirmed. -/
def confirmed (linked : Bool) (r : RawRecord) : Bool :=
  linked && r.canonical && !outsideCanonicalDomain r.logId && !outsideCanonicalDomain r.previousHash &&
    !outsideCanonicalDomain r.recordHash

/-- The host key of a record is looked up by one of the two checks that read it. -/
def keyRead (identity : Option ExpectedIdentity) (linked : Bool) (r : RawRecord) : Bool :=
  r.present = 3 && (confirmed linked r || identity.any fun expected => r.logId = .str expected.logId)

/-- The host key of a record is written into the finding of one of them, unless it is a text they know. -/
def keyWritten (identity : Option ExpectedIdentity) (linked : Bool) (r : RawRecord) : Bool :=
  r.present = 3 && (linked && r.canonical || identity.any fun expected => r.logId = .str expected.logId)

/-- The log of a record is written into a finding: another one is expected. -/
def logWritten (identity : Option ExpectedIdentity) (r : RawRecord) : Bool :=
  r.present = 3 && identity.any fun expected => r.logId ≠ .str expected.logId

/-- An attempt that `e` may be the outcome of. -/
def isAttemptFor (e : Event) : Json → Bool
  | .obj a => hasText a OUTCOME Outcome.attempted.text && (keyOf e).eq (keyOf a)
  | _ => false

/-- An outcome that none of these records is the attempt of. -/
def orphaned (before : List RawRecord) (e : Event) : Bool :=
  getNull e ID != .null && !hasText e OUTCOME Outcome.attempted.text && !hasText e OUTCOME Outcome.aborted.text &&
    !before.any fun r => isAttemptFor e r.event

/-- The number of a record out of its place, and the scope and id of an orphaned outcome, can be written. -/
structure Writable (before : List RawRecord) (r : RawRecord) : Prop where
  position : pyEq r.seq (.int before.length) = true ∨ intsFit r.seq = true
  call : ∀ e, r.event = .obj e → orphaned before e = true → intsFit (scopeOf e) = true ∧ intsFit (getNull e ID) = true

/-- Whether the link after these records has a canonical form. -/
def linkedAfter (before : List RawRecord) : Bool := before.foldl linkAfter true

/-- A record that makes no check raise, behind these. -/
structure Handled (identity : Option ExpectedIdentity) (before : List RawRecord) (r : RawRecord) : Prop where
  event : ∃ e, HashableEvent r.event e
  hostKeyId : keyRead identity (linkedAfter before) r = true → r.hostKeyId.hashable = true
  written : Writable before r
  keyFits : keyWritten identity (linkedAfter before) r = true → intsFit r.hostKeyId = true
  logFits : logWritten identity r = true → intsFit r.logId = true

/-- Of every record, behind the ones before it. -/
def Along (P : List RawRecord → RawRecord → Prop) : List RawRecord → List RawRecord → Prop
  | _, [] => True
  | before, r :: rs => P before r ∧ Along P (before ++ [r]) rs

/-- A verifier with both registries. -/
def registryOptions (K : Crypto) (W : World) (tool : KeyRegistry .tool) (host : KeyRegistry .host)
    (anchored : Option Str) (identity : Option ExpectedIdentity) (required : Bool) : VerifyOptions :=
  fullOptions anchored (host.confirms K) (tool.check K W) identity required

/-- A report of all the records: each that is no valid event of its version is an issue of its `seq`. -/
structure Covers (W : World) (rs : List RawRecord) (report : VerifyReport) : Prop where
  count : report.count = rs.length
  invalid : ∀ r ∈ rs, sealedError W r.event ≠ none →
    ∃ i ∈ report.issues, i.kind = .schemaInvalid ∧ (i.seq = r.seq ∨ pyEq i.seq r.seq = true)

section Checks

variable {K : Crypto} {W : World} {tool : KeyRegistry .tool} {host : KeyRegistry .host} {anchored : Option Str}
  {identity : Option ExpectedIdentity} {required : Bool} {r : RawRecord} {linked : Bool}

/-! ## Each check -/

theorem pyRepr_ok_iff {v : Json} : (∃ t, pyRepr W v = .ok t) ↔ intsFit v = true := by
  unfold pyRepr
  split <;> simp [*]

theorem pyStr_ok_iff {v : Json} : (∃ t, pyStr W v = .ok t) ↔ intsFit v = true := by
  cases v with
  | str s => exact ⟨fun _ => rfl, fun _ => ⟨s, rfl⟩⟩
  | _ => exact pyRepr_ok_iff

/-- A text made around a written value. -/
theorem around_ok_iff {α β : Type} {x : Checked α} {f : α → β} :
    (∃ b, (x >>= fun a => (pure (f a) : Checked β)) = .ok b) ↔ ∃ a, x = .ok a := by
  constructor
  · rintro ⟨b, h⟩
    obtain ⟨a, ha, -⟩ := bind_eq_ok.1 h
    exact ⟨a, ha⟩
  · rintro ⟨a, ha⟩
    exact ⟨f a, bind_eq_ok.2 ⟨a, ha, rfl⟩⟩

theorem keyOf_text_ok_iff {e : Event} :
    (∃ t, (keyOf e).text W = .ok t) ↔ intsFit (scopeOf e) = true ∧ intsFit (getNull e ID) = true := by
  rw [← @pyRepr_ok_iff W (scopeOf e), ← @pyRepr_ok_iff W (getNull e ID)]
  constructor
  · rintro ⟨t, h⟩
    obtain ⟨scope, hscope, h⟩ := bind_eq_ok.1 h
    obtain ⟨id, hid, -⟩ := bind_eq_ok.1 h
    exact ⟨⟨scope, hscope⟩, id, hid⟩
  · rintro ⟨⟨scope, hscope⟩, id, hid⟩
    exact ⟨_, bind_eq_ok.2 ⟨scope, hscope, bind_eq_ok.2 ⟨id, hid, rfl⟩⟩⟩

theorem seqIssues_ok_iff {index : Nat} :
    (∃ x, seqIssues W index r = .ok x) ↔ pyEq r.seq (.int index) = true ∨ intsFit r.seq = true := by
  rw [seqIssues, expectWritten_ok_iff, around_ok_iff, pyStr_ok_iff, or_iff_not_imp_left]

/-- What correlation hashes of an event, and what it writes of an orphaned one. -/
theorem correlate_ok_iff {o : VerifyOptions} (ho : o.adapter = DEFAULT_ADAPTER) (attempted : List CallKey) :
    (∃ x, correlate W o r r.event attempted = .ok x) ↔
      ∃ e, r.event = .obj e ∧ (getNull e ID ≠ .null → (keyOf e).hashable = true ∧
        (hasText e OUTCOME Outcome.attempted.text = false → hasText e OUTCOME Outcome.aborted.text = false →
          attempted.any (keyOf e).eq = false → intsFit (scopeOf e) = true ∧ intsFit (getNull e ID) = true)) := by
  cases hv : r.event with
  | obj e =>
    rw [← hv, correlate_obj ho hv, hv]
    simp only [Json.obj.injEq, exists_eq_left', ← @keyOf_text_ok_iff W e]
    by_cases hid : getNull e ID = .null
    · simp [hid]
    · rw [if_neg hid]
      by_cases hhash : (keyOf e).hashable = true
      · rw [if_pos hhash]
        by_cases hatt : hasText e OUTCOME Outcome.attempted.text = true
        · simp [hatt, hhash]
        · rw [if_neg hatt, around_ok_iff, expectWritten_ok_iff, around_ok_iff, not_or]
          simp only [hid, hhash, eq_false_of_ne_true hatt, ne_eq, not_false_eq_true, Bool.not_eq_true, true_and,
            forall_const]
          tauto
      · simp [hid, hhash]
  | _ => simp [correlate, ho, hv, DEFAULT_ADAPTER, topLevelId, bind, Except.bind]

/-- Members of an object in the domain are in it. -/
theorem InDomain.filter {e : Event} (h : InDomain (.obj e)) (p : Str × Json → Bool) : InDomain (.obj (e.filter p)) := by
  rw [inDomain_obj] at h ⊢
  exact fun m hm => h m (List.mem_of_mem_filter hm)

/-- `KeyRegistryVerifier.check` never raises on what `confirmEvent` lets through. -/
theorem KeyRegistry.check_ok {e : Event} (h : InDomain (.obj e)) : ∃ b, tool.check K W e = .ok b := by
  have hpayload : signaturePayload W e = .ok (W.dumps (.obj (e.filter fun m => m.1 ≠ SIGNATURE))) :=
    canonicalize_ok (h.filter _)
  have hverify : ∀ entry, ∃ b, verifyEvent K W e entry = .ok b := by
    intro entry
    unfold verifyEvent
    rw [hpayload]
    split
    · split <;> exact ⟨_, rfl⟩
    · split
      · exact ⟨_, rfl⟩
      · split <;> exact ⟨_, rfl⟩
    · exact ⟨_, rfl⟩
  have hreason : ∃ x, rejectReason K W tool.get e = .ok x := by
    unfold rejectReason
    split
    · exact ⟨_, rfl⟩
    · split
      · exact ⟨_, rfl⟩
      · next entry _ =>
        obtain ⟨b, hb⟩ := hverify entry
        rw [hb]
        exact ⟨_, rfl⟩
  obtain ⟨x, hx⟩ := hreason
  exact ⟨_, by rw [KeyRegistry.check, hx]⟩

theorem signatureCheck_ok (hashable : Bool) (v : Json) :
    ∃ x, signatureCheck (registryOptions K W tool host anchored identity required) r hashable v = .ok x := by
  have hconfirm : ∀ e, ∃ b, confirmEvent (tool.check K W) e = .ok b := by
    intro e
    unfold confirmEvent
    split
    · exact ⟨_, rfl⟩
    · next h => exact KeyRegistry.check_ok (eq_false_of_ne_true h)
  cases v with
  | obj e =>
    unfold signatureCheck
    dsimp only
    split
    · obtain ⟨b, hb⟩ := hconfirm e
      simp only [registryOptions, fullOptions, hb, bind, Except.bind]
      exact ⟨_, rfl⟩
    · exact ⟨_, rfl⟩
  | _ => exact ⟨_, rfl⟩

theorem needHash_ok_iff {v : Json} : (∃ u, needHash v = .ok u) ↔ v.hashable = true := by
  unfold needHash
  split <;> simp [*]

theorem confirms_ok_iff {key signature : Json} {payload : Str} :
    (∃ b, host.confirms K key signature payload = .ok b) ↔ key.hashable = true := by
  rw [← needHash_ok_iff]
  constructor
  · rintro ⟨b, h⟩
    obtain ⟨u, hu, _⟩ := bind_eq_ok.1 h
    exact ⟨u, hu⟩
  · rintro ⟨u, hu⟩
    simp only [KeyRegistry.confirms, hu, bind, Except.bind]
    cases key with
    | str k =>
      dsimp only
      split <;> exact ⟨_, rfl⟩
    | _ => exact ⟨_, rfl⟩

theorem outsideCanonicalDomain_eq_false {v : Json} : outsideCanonicalDomain v = false ↔ InDomain v := Iff.rfl

theorem canonical_iff : r.canonical = true ↔ InDomain r.event ∧ InDomain r.seq ∧ InDomain r.hostTs := by
  simp [RawRecord.canonical, InDomain, and_assoc]

theorem recompute_hashable {prev : Str} :
    (recompute W r prev).hashable = true ↔ r.canonical = true ∧ InDomain (.str prev) := by
  have hpre : InDomain (preimage r.event r.seq r.hostTs (.str prev)) ↔
      r.canonical = true ∧ InDomain (.str prev) := by
    rw [inDomain_preimage, canonical_iff]
    tauto
  rw [← hpre]
  unfold recompute
  cases hc : computeRecordHash W r.event r.seq r.hostTs (.str prev) with
  | ok h => simp [(computeRecordHash_eq_ok.1 hc).1]
  | error m =>
    have hnot : ¬ InDomain (preimage r.event r.seq r.hostTs (.str prev)) := by
      intro hd
      rw [computeRecordHash_eq_ok.2 ⟨hd, rfl⟩] at hc
      cases hc
    simp [hnot]

/-- A triple is confirmed without raising unless a payload meets a key without a hash. -/
theorem confirmTriple_ok_iff : (∃ b, confirmTriple W (host.confirms K) r = .ok b) ↔
    ((∃ p, countersignaturePayload W r.seq r.hostTs r.logId r.previousHash r.recordHash = .ok p) →
      r.hostKeyId.hashable = true) := by
  unfold confirmTriple
  cases hp : countersignaturePayload W r.seq r.hostTs r.logId r.previousHash r.recordHash with
  | ok p =>
    rw [confirms_ok_iff]
    simp
  | error m => simp

/-- A key that confirms is a text. -/
theorem confirmTriple_true (h : confirmTriple W (host.confirms K) r = .ok true) : ∃ k, r.hostKeyId = .str k := by
  unfold confirmTriple at h
  split at h
  · obtain ⟨_, _, h⟩ := bind_eq_ok.1 h
    split at h
    · next k hk => exact ⟨k, hk⟩
    · cases h
  · cases h

/-- A triple that is confirmed needs its key hashed, and a key that is not the host's is written. -/
theorem countersignatureCheck_ok_iff {hashable : Bool} :
    (∃ x, countersignatureCheck W (registryOptions K W tool host anchored identity required) r hashable = .ok x) ↔
      (r.present = 3 → hashable = true →
        ((∃ p, countersignaturePayload W r.seq r.hostTs r.logId r.previousHash r.recordHash = .ok p) →
          r.hostKeyId.hashable = true) ∧ intsFit r.hostKeyId = true) := by
  unfold countersignatureCheck
  by_cases h0 : r.present = 0
  · simp [h0, pure, Except.pure]
  · by_cases h3 : r.present = 3
    · cases hashable with
      | false => simp [h3, pure, Except.pure]
      | true =>
        simp only [h3, registryOptions, fullOptions, forall_const, ← @confirmTriple_ok_iff K W host]
        constructor
        · rintro ⟨x, h⟩
          obtain ⟨good, hgood, h⟩ := bind_eq_ok.1 h
          obtain ⟨invalid, hinvalid, -⟩ := bind_eq_ok.1 h
          refine ⟨⟨good, hgood⟩, ?_⟩
          cases good with
          | true =>
            obtain ⟨k, hk⟩ := confirmTriple_true hgood
            rw [hk]
            rfl
          | false => exact pyRepr_ok_iff.1 (around_ok_iff.1 (expectWritten_ok_iff.1 ⟨_, hinvalid⟩ (by simp)))
        · rintro ⟨⟨good, hgood⟩, hfits⟩
          obtain ⟨key, hkey⟩ := (@pyRepr_ok_iff W _).2 hfits
          simp only [hgood, hkey, bind, Except.bind]
          cases good <;> exact ⟨_, rfl⟩
    · simp [h0, h3, pure, Except.pure]

theorem identityMismatch_ok_iff {expected : ExpectedIdentity} : (∃ m, identityMismatch W r expected = .ok m) ↔
    (r.present = 3 → (r.logId = .str expected.logId → r.hostKeyId.hashable = true ∧ intsFit r.hostKeyId = true) ∧
      (r.logId ≠ .str expected.logId → intsFit r.logId = true)) := by
  simp only [identityMismatch]
  by_cases h3 : r.present = 3
  · by_cases hlog : r.logId = .str expected.logId
    · rw [if_neg (not_not_intro h3), if_neg (not_not_intro hlog)]
      simp only [h3, hlog, ne_eq, not_true_eq_false, false_imp_iff, and_true, forall_const]
      constructor
      · rintro ⟨m, h⟩
        obtain ⟨u, hu, h⟩ := bind_eq_ok.1 h
        refine ⟨needHash_ok_iff.1 ⟨u, hu⟩, ?_⟩
        split at h
        · next hany =>
          -- a key among the expected ones is a text
          obtain ⟨k, -, hk⟩ := List.any_eq_true.1 hany
          rw [of_decide_eq_true hk]
          rfl
        · exact pyRepr_ok_iff.1 (around_ok_iff.1 ⟨_, h⟩)
      · rintro ⟨hhash, hfits⟩
        obtain ⟨u, hu⟩ := needHash_ok_iff.2 hhash
        obtain ⟨key, hkey⟩ := (@pyRepr_ok_iff W _).2 hfits
        simp only [hu, hkey, bind, Except.bind]
        split <;> exact ⟨_, rfl⟩
    · rw [if_neg (not_not_intro h3), if_pos hlog, around_ok_iff, pyRepr_ok_iff]
      simp [h3, hlog]
  · rw [if_pos h3]
    exact ⟨fun _ h => absurd h h3, fun _ => ⟨_, rfl⟩⟩

theorem identityIssues_ok_iff :
    (∃ x, identityIssues W (registryOptions K W tool host anchored identity required) r = .ok x) ↔
      (r.present = 3 → ((identity.any fun expected => r.logId = .str expected.logId) = true →
          r.hostKeyId.hashable = true ∧ intsFit r.hostKeyId = true) ∧
        ((identity.any fun expected => r.logId ≠ .str expected.logId) = true → intsFit r.logId = true)) := by
  unfold identityIssues
  cases identity with
  | none => simp [registryOptions, fullOptions, pure, Except.pure]
  | some expected =>
    simp only [registryOptions, fullOptions, Option.any_some, decide_eq_true_eq]
    rw [← @identityMismatch_ok_iff W r expected]
    constructor
    · rintro ⟨x, h⟩
      obtain ⟨m, hm, _⟩ := bind_eq_ok.1 h
      exact ⟨m, hm⟩
    · rintro ⟨m, hm⟩
      simp only [hm, bind, Except.bind]
      cases m <;> exact ⟨_, rfl⟩

/-! ## The loop -/

/-- What correlation hashes of an event. -/
def CallHashable (v : Json) : Prop := ∃ e, v = .obj e ∧ (getNull e ID ≠ .null → (keyOf e).hashable = true)

/-- The attempts the loop has read are those of the records before it. -/
def AttemptsOf (before : List RawRecord) (s : ChainState) : Prop :=
  ∀ e, getNull e ID ≠ .null → s.attemptedIds.any (keyOf e).eq = before.any fun r => isAttemptFor e r.event

theorem attemptsOf_step {o : VerifyOptions} (ho : o.adapter = DEFAULT_ADAPTER) {before : List RawRecord} {index : Nat}
    {s s' : ChainState} (hs : AttemptsOf before s) (h : chainStep W o index r s = .ok s') :
    AttemptsOf (before ++ [r]) s' := by
  obtain ⟨q, inner, corr, p, g, c, i, _, hinner, hcorr, _, _, _, _, rfl⟩ := chainStep_eq_ok.1 h
  obtain rfl : r.event = inner := by simpa [ho, DEFAULT_ADAPTER] using hinner
  obtain ⟨a, ha, -⟩ := (correlate_ok_iff ho s.attemptedIds).1 ⟨corr, hcorr⟩
  intro e he
  have hlast : (before ++ [r]).any (fun r => isAttemptFor e r.event) =
      (s.attemptedIds.any (keyOf e).eq || isAttemptFor e (.obj a)) := by
    rw [hs e he, List.any_append, List.any_cons, List.any_nil, Bool.or_false, ha]
  rw [hlast, isAttemptFor]
  rw [correlate_obj ho ha] at hcorr
  split at hcorr
  · next hid =>
    -- an attempt without an id is the attempt of none
    cases hcorr
    have hnot : ¬ (keyOf e).eq (keyOf a) = true := by
      rw [keyOf, keyOf, CallKey.eq, hid, Bool.and_eq_true]
      exact fun h => he (pySame_null.1 h.2)
    simp [hnot]
  · split at hcorr
    · split at hcorr
      · next hatt =>
        cases hcorr
        simp [hatt, Bool.or_comm]
      · next hatt =>
        obtain ⟨orphans, -, hcorr⟩ := bind_eq_ok.1 hcorr
        cases hcorr
        simp [hatt]
    · cases hcorr

/-- The findings of position and correlation are written exactly where `Writable` says. -/
theorem position_call_ok_iff {o : VerifyOptions} (ho : o.adapter = DEFAULT_ADAPTER) {before : List RawRecord}
    {s : ChainState} (hs : AttemptsOf before s) :
    (∃ x, seqIssues W before.length r = .ok x) ∧ (∃ x, correlate W o r r.event s.attemptedIds = .ok x) ↔
      CallHashable r.event ∧ Writable before r := by
  rw [seqIssues_ok_iff, correlate_ok_iff ho]
  have horphaned : ∀ e, orphaned before e = true ↔ getNull e ID ≠ .null ∧
      hasText e OUTCOME Outcome.attempted.text = false ∧ hasText e OUTCOME Outcome.aborted.text = false ∧
        s.attemptedIds.any (keyOf e).eq = false := by
    intro e
    by_cases hid : getNull e ID = .null
    · simp [orphaned, hid]
    · rw [hs e hid]
      simp [orphaned, hid, and_assoc]
  constructor
  · rintro ⟨hseq, e, he, hcall⟩
    refine ⟨⟨e, he, fun hid => (hcall hid).1⟩, hseq, fun e' he' horph => ?_⟩
    obtain rfl : e = e' := Json.obj.inj (he.symm.trans he')
    obtain ⟨hid, hatt, hab, hnone⟩ := (horphaned e).1 horph
    exact (hcall hid).2 hatt hab hnone
  · rintro ⟨⟨e, he, hhash⟩, hseq, hcall⟩
    exact ⟨hseq, e, he, fun hid => ⟨hhash hid, fun hatt hab hnone =>
      hcall e he ((horphaned e).2 ⟨hid, hatt, hab, hnone⟩)⟩⟩

/-- **The loop**, where a state that stands for the records before it answers at a record exactly as `P` says. -/
theorem chainLoop_along {o : VerifyOptions} {I : List RawRecord → ChainState → Prop}
    {P : List RawRecord → RawRecord → Prop}
    (hstep : ∀ before r s, I before s → ((∃ s', chainStep W o before.length r s = .ok s') ↔ P before r))
    (hkeep : ∀ before r s s', I before s → chainStep W o before.length r s = .ok s' → I (before ++ [r]) s')
    {rs : List RawRecord} : ∀ {before : List RawRecord} {s : ChainState}, I before s →
      ((∃ s', chainLoop W o before.length rs s = .ok s') ↔ Along P before rs) := by
  induction rs with
  | nil => exact fun _ => ⟨fun _ => trivial, fun _ => ⟨_, rfl⟩⟩
  | cons r rs ih =>
    intro before s hs
    have hlen : before.length + 1 = (before ++ [r]).length := by simp
    rw [Along, ← hstep before r s hs]
    constructor
    · rintro ⟨s', h⟩
      obtain ⟨t, ht, hrest⟩ := chainLoop_cons_eq_ok.1 h
      rw [hlen] at hrest
      exact ⟨⟨t, ht⟩, (ih (hkeep before r s t hs ht)).1 ⟨s', hrest⟩⟩
    · rintro ⟨⟨t, ht⟩, hrest⟩
      obtain ⟨s', hs'⟩ := (ih (hkeep before r s t hs ht)).2 hrest
      rw [← hlen] at hs'
      exact ⟨s', chainLoop_cons_eq_ok.2 ⟨t, ht, hs'⟩⟩

/-- The state the loop is in behind these records. -/
structure Reads (before : List RawRecord) (s : ChainState) : Prop where
  attempts : AttemptsOf before s
  link : InDomain (.str s.prevRecomputed) ↔ linkedAfter before = true

/-- One record, of its event and triple. -/
structure StepHandled (identity : Option ExpectedIdentity) (before : List RawRecord) (r : RawRecord) : Prop where
  call : CallHashable r.event
  hostKeyId : keyRead identity (linkedAfter before) r = true → r.hostKeyId.hashable = true
  written : Writable before r
  keyFits : keyWritten identity (linkedAfter before) r = true → intsFit r.hostKeyId = true
  logFits : logWritten identity r = true → intsFit r.logId = true

theorem chainStep_ok_iff {before : List RawRecord} {s : ChainState} (hs : Reads before s) :
    (∃ s', chainStep W (registryOptions K W tool host anchored identity required) before.length r s = .ok s') ↔
      StepHandled identity before r := by
  have hhashable : (recompute W r s.prevRecomputed).hashable = true ↔ linkedAfter before = true ∧ r.canonical = true := by
    rw [recompute_hashable, hs.link, and_comm]
  have hconfirmed : confirmed (linkedAfter before) r = true ↔ (recompute W r s.prevRecomputed).hashable = true ∧
      ∃ p, countersignaturePayload W r.seq r.hostTs r.logId r.previousHash r.recordHash = .ok p := by
    rw [hhashable, countersignaturePayload_ok_iff, canonical_iff]
    simp only [confirmed, Bool.and_eq_true, canonical_iff, Bool.not_eq_true', outsideCanonicalDomain_eq_false]
    tauto
  have hpair := @position_call_ok_iff W r (registryOptions K W tool host anchored identity required) rfl before s hs.attempts
  have htriple : ((∃ x, countersignatureCheck W (registryOptions K W tool host anchored identity required) r
        (recompute W r s.prevRecomputed).hashable = .ok x) ∧
      ∃ x, identityIssues W (registryOptions K W tool host anchored identity required) r = .ok x) ↔
      (keyRead identity (linkedAfter before) r = true → r.hostKeyId.hashable = true) ∧
      (keyWritten identity (linkedAfter before) r = true → intsFit r.hostKeyId = true) ∧
      (logWritten identity r = true → intsFit r.logId = true) := by
    rw [countersignatureCheck_ok_iff, identityIssues_ok_iff]
    simp only [keyRead, keyWritten, logWritten, Bool.and_eq_true, decide_eq_true_eq, Bool.or_eq_true, hconfirmed,
      ← hhashable]
    constructor
    · rintro ⟨hc, hi⟩
      refine ⟨fun h => ?_, fun h => ?_, fun h => (hi h.1).2 h.2⟩
      · exact h.2.elim (fun hpay => (hc h.1 hpay.1).1 hpay.2) fun hlog => ((hi h.1).1 hlog).1
      · exact h.2.elim (fun hhash => (hc h.1 hhash).2) fun hlog => ((hi h.1).1 hlog).2
    · rintro ⟨hread, hkey, hlog⟩
      refine ⟨fun h3 hhash => ⟨fun hpay => hread ⟨h3, .inl ⟨hhash, hpay⟩⟩, hkey ⟨h3, .inl hhash⟩⟩, fun h3 => ?_⟩
      exact ⟨fun hlog => ⟨hread ⟨h3, .inr hlog⟩, hkey ⟨h3, .inr hlog⟩⟩, fun hother => hlog ⟨h3, hother⟩⟩
  constructor
  · rintro ⟨s', h⟩
    obtain ⟨q, inner, corr, p, g, c, i, hq, hinner, hcorr, _, _, hc, hi, _⟩ := chainStep_eq_ok.1 h
    cases hinner
    obtain ⟨hcall, hwritten⟩ := hpair.1 ⟨⟨q, hq⟩, corr, hcorr⟩
    obtain ⟨hread, hkey, hlog⟩ := htriple.1 ⟨⟨c, hc⟩, i, hi⟩
    exact ⟨hcall, hread, hwritten, hkey, hlog⟩
  · rintro ⟨hcall, hread, hwritten, hkey, hlog⟩
    obtain ⟨⟨q, hq⟩, corr, hcorr⟩ := hpair.2 ⟨hcall, hwritten⟩
    obtain ⟨⟨c, hc⟩, i, hi⟩ := htriple.2 ⟨hread, hkey, hlog⟩
    obtain ⟨g, hg⟩ := @signatureCheck_ok K W tool host anchored identity required r
      (recompute W r s.prevRecomputed).hashable r.event
    exact ⟨_, chainStep_eq_ok.2 ⟨q, r.event, corr, [], g, c, i, hq, rfl, hcorr, rfl, hg, hc, hi, rfl⟩⟩

/-- The link passed on has a canonical form as `linkAfter` says, where a hash has one. -/
theorem inDomain_link (hhex : ∀ t, InDomain (.str (W.sha256 t))) {prev : Str}
    (hl : InDomain (.str prev) ↔ linked = true) :
    InDomain (.str (recompute W r prev).hash) ↔ linkAfter linked r = true := by
  have hable := @recompute_hashable W r prev
  rw [hl] at hable
  unfold linkAfter
  by_cases h : (linked && r.canonical) = true
  · have hok : (recompute W r prev).hashable = true := hable.2 (by simpa [and_comm] using h)
    simp only [h, ↓reduceIte, iff_true]
    unfold recompute at hok ⊢
    cases hc : computeRecordHash W r.event r.seq r.hostTs (.str prev) with
    | ok d =>
      rw [(computeRecordHash_eq_ok.1 hc).2]
      exact hhex _
    | error m => simp [hc] at hok
  · have hno : ¬ (recompute W r prev).hashable = true := fun hok => h (by simpa [and_comm] using hable.1 hok)
    simp only [h]
    unfold recompute at hno ⊢
    cases hc : computeRecordHash W r.event r.seq r.hostTs (.str prev) with
    | ok d => simp [hc] at hno
    | error m =>
      cases r.recordHash with
      | str t => simp [inDomain_str]
      | _ => exact hl

/-- What a step leaves is read of one record more. -/
theorem reads_step (hhex : ∀ t, InDomain (.str (W.sha256 t))) {o : VerifyOptions} (ho : o.adapter = DEFAULT_ADAPTER)
    {before : List RawRecord} {index : Nat} {s s' : ChainState} (hs : Reads before s)
    (h : chainStep W o index r s = .ok s') : Reads (before ++ [r]) s' := by
  refine ⟨attemptsOf_step ho hs.attempts h, ?_⟩
  obtain ⟨_, _, _, _, _, _, _, _, _, _, _, _, _, _, rfl⟩ := chainStep_eq_ok.1 h
  rw [linkedAfter, List.foldl_append]
  exact inDomain_link hhex hs.link

/-! ## Both entry points -/

theorem along_and {P : List RawRecord → RawRecord → Prop} {Q : RawRecord → Prop} {rs : List RawRecord} :
    ∀ {before : List RawRecord}, Along (fun b r => P b r ∧ Q r) before rs ↔ Along P before rs ∧ ∀ r ∈ rs, Q r := by
  induction rs with
  | nil => simp [Along]
  | cons r rs ih =>
    intro before
    rw [Along, Along, ih, List.forall_mem_cons]
    tauto

theorem along_congr {P Q : List RawRecord → RawRecord → Prop} (h : ∀ b r, P b r ↔ Q b r) {rs : List RawRecord} :
    ∀ {before : List RawRecord}, Along P before rs ↔ Along Q before rs := by
  induction rs with
  | nil => simp [Along]
  | cons r rs ih =>
    intro before
    rw [Along, Along, h, ih]

theorem handled_iff {before : List RawRecord} :
    Handled identity before r ↔ StepHandled identity before r ∧ Accountable r.event := by
  constructor
  · rintro ⟨⟨e, hobj, hacc, hcall⟩, hkey, hwritten, hkeyFits, hlogFits⟩
    refine ⟨⟨⟨e, hobj, fun hid => ?_⟩, hkey, hwritten, hkeyFits, hlogFits⟩, hacc⟩
    rw [hobj] at hacc
    obtain ⟨hs, hi, _⟩ := hacc
    rw [keyOf, CallKey.hashable, hi, Bool.and_true, scopeOf]
    cases hsession : get e SESSION_ID with
    | none => exact hcall hid hsession
    | some v => simpa [getNull, hsession] using hs
  · rintro ⟨⟨⟨e, hobj, hcall⟩, hkey, hwritten, hkeyFits, hlogFits⟩, hacc⟩
    refine ⟨⟨e, hobj, hacc, fun hid hnone => ?_⟩, hkey, hwritten, hkeyFits, hlogFits⟩
    have hboth := hcall hid
    rw [keyOf, CallKey.hashable, Bool.and_eq_true, scopeOf, hnone] at hboth
    exact hboth.1

theorem verifyChain_ok_iff (hhex : ∀ t, InDomain (.str (W.sha256 t))) {rs : List RawRecord} :
    (∃ report, verifyChain W (registryOptions K W tool host anchored identity required) rs = .ok report) ↔
      Along (Handled identity) [] rs := by
  have hstart : Reads [] .initial := ⟨fun _ _ => rfl, by decide⟩
  have hmap : rs.mapM (fun r => (registryOptions K W tool host anchored identity required).adapter.eventOf r.event) =
      .ok (rs.map (·.event)) := mapM_eq_map fun _ _ => rfl
  have hloop : (∃ s', chainLoop W (registryOptions K W tool host anchored identity required) 0 rs .initial = .ok s') ↔
      Along (StepHandled identity) [] rs :=
    chainLoop_along (I := Reads) (fun _ _ _ hs => chainStep_ok_iff hs) (fun _ _ _ _ hs h => reads_step hhex rfl hs h) hstart
  rw [along_congr (Q := fun b r => StepHandled identity b r ∧ Accountable r.event) fun _ _ => handled_iff, along_and,
    ← hloop, ← List.forall_mem_map (f := RawRecord.event) (P := Accountable), ← unaccounted_ok_iff]
  constructor
  · rintro ⟨report, h⟩
    obtain ⟨_, s, inner, gaps, hs, hinner, hgaps, _⟩ := verifyChain_eq_ok.1 h
    rw [hmap] at hinner
    cases hinner
    exact ⟨⟨s, hs⟩, gaps, hgaps⟩
  · rintro ⟨⟨s, hs⟩, gaps, hgaps⟩
    exact ⟨_, verifyChain_eq_ok.2 ⟨rfl, s, _, gaps, hs, hmap, hgaps, rfl⟩⟩

/-- The schema pass has an answer, in which every invalid event not reported before is. -/
theorem schemaIssues_covers {o : VerifyOptions} (ho : o.adapter = DEFAULT_ADAPTER) (already : List Json)
    (rs : List RawRecord) : ∃ found, schemaIssues W o already rs = .ok found ∧
      ∀ r ∈ rs, sealedError W r.event ≠ none → listed r.seq already = true ∨
        ∃ i ∈ found, i.kind = .schemaInvalid ∧ i.seq = r.seq := by
  induction rs with
  | nil => exact ⟨[], rfl, fun r hr => by cases hr⟩
  | cons r rs ih =>
    obtain ⟨rest, hrest, hcover⟩ := ih
    have hevent : o.adapter.eventOf r.event = .ok r.event := by rw [ho]; rfl
    by_cases hin : listed r.seq already = true
    · refine ⟨rest, ?_, ?_⟩
      · simp [schemaIssues, hin, hrest, bind, Except.bind, pure, Except.pure]
      · rw [List.forall_mem_cons]
        exact ⟨fun _ => .inl hin, hcover⟩
    · refine ⟨(sealedError W r.event).toList.map (⟨r.seq, .schemaInvalid, ·⟩) ++ rest, ?_, ?_⟩
      · simp [schemaIssues, hin, hevent, hrest, bind, Except.bind, pure, Except.pure]
      · rw [List.forall_mem_cons]
        refine ⟨fun hne => .inr ?_, fun r' hr' hne => (hcover r' hr' hne).imp_right ?_⟩
        · obtain ⟨m, hm⟩ := Option.ne_none_iff_exists'.1 hne
          exact ⟨⟨r.seq, .schemaInvalid, m⟩, by simp [hm], rfl, rfl⟩
        · rintro ⟨i, hi, hkind⟩
          exact ⟨i, List.mem_append_right _ hi, hkind⟩

theorem versionRegressions_ok {o : VerifyOptions} (ho : o.adapter = DEFAULT_ADAPTER) (rs : List RawRecord) :
    ∀ latest, ∃ found, versionRegressions o latest rs = .ok found := by
  induction rs with
  | nil => exact fun _ => ⟨[], rfl⟩
  | cons r rs ih =>
    intro latest
    have hevent : o.adapter.eventOf r.event = .ok r.event := by rw [ho]; rfl
    simp only [versionRegressions, hevent, bind, Except.bind]
    split
    · exact ih latest
    · split
      · exact ih latest
      · split
        · next high name =>
          split
          · obtain ⟨found, hfound⟩ := ih (some (high, name))
            rw [hfound]
            exact ⟨_, rfl⟩
          · exact ih _
        · exact ih _

/-- What `verify_chain` answers, `verify_ledger` answers over, and covers every record. -/
theorem verifyLedger_covers {o : VerifyOptions} (ho : o.adapter = DEFAULT_ADAPTER) {rs : List RawRecord}
    {report : VerifyReport} (h : verifyChain W o rs = .ok report) :
    ∃ whole, verifyLedger W o rs = .ok whole ∧ Covers W rs whole := by
  obtain ⟨schema, hschema, hcover⟩ :=
    schemaIssues_covers (W := W) ho ((report.issues.filter (·.kind = .schemaInvalid)).map (·.seq)) rs
  obtain ⟨regressions, hregressions⟩ := versionRegressions_ok ho rs none
  have hcount : report.count = rs.length := by
    obtain ⟨_, _, _, _, _, _, _, rfl⟩ := verifyChain_eq_ok.1 h
    rfl
  have hin : ∀ issues, report.issues ++ (schema ++ regressions) = issues → ∀ r ∈ rs, sealedError W r.event ≠ none →
      ∃ i ∈ issues, i.kind = .schemaInvalid ∧ (i.seq = r.seq ∨ pyEq i.seq r.seq = true) := by
    rintro _ rfl r hr hne
    rcases hcover r hr hne with hlisted | ⟨i, hi, hkind, hseq⟩
    · obtain ⟨seq, hseq, heq⟩ := List.any_eq_true.1 hlisted
      obtain ⟨i, hi, rfl⟩ := List.mem_map.1 hseq
      obtain ⟨hmem, hkind⟩ := List.mem_filter.1 hi
      exact ⟨i, List.mem_append_left _ hmem, by simpa using hkind, by simpa using heq⟩
    · exact ⟨i, by simp [hi], hkind, .inl hseq⟩
  simp only [verifyLedger, h, hschema, hregressions, bind, Except.bind]
  split
  · next hnone =>
    refine ⟨report, rfl, hcount, hin _ ?_⟩
    rw [List.isEmpty_iff.1 hnone, List.append_nil]
  · exact ⟨_, rfl, hcount, hin _ rfl⟩

/-- **Exactly the handled records are answered.** -/
theorem verify_answers_iff (K : Crypto) (W : World) (hhex : ∀ t, InDomain (.str (W.sha256 t)))
    (tool : KeyRegistry .tool) (host : KeyRegistry .host) (anchored : Option Str) (identity : Option ExpectedIdentity)
    (required : Bool) (rs : List RawRecord) :
    ((∃ report, verifyChain W (registryOptions K W tool host anchored identity required) rs = .ok report ∧
        report.count = rs.length) ∧
      ∃ report, verifyLedger W (registryOptions K W tool host anchored identity required) rs = .ok report ∧
        Covers W rs report) ↔ Along (Handled identity) [] rs := by
  rw [← @verifyChain_ok_iff K W tool host anchored identity required hhex]
  constructor
  · rintro ⟨⟨report, h, _⟩, _⟩
    exact ⟨report, h⟩
  · rintro ⟨report, h⟩
    refine ⟨⟨report, h, ?_⟩, verifyLedger_covers rfl h⟩
    obtain ⟨_, _, _, _, _, _, _, rfl⟩ := verifyChain_eq_ok.1 h
    rfl

end Checks

/-- No signature verifies. -/
def deafCrypto : Crypto := ⟨fun _ _ _ => false, fun _ _ _ _ => false⟩

/-- The reference world, its hashes in the domain for every text. -/
def hexReference : World :=
  { reference with sha256 := fun t => if (reference.sha256 t).any isSurrogate then GENESIS_HASH else reference.sha256 t }

theorem hexReference_hex (t : Str) : InDomain (.str (hexReference.sha256 t)) := by
  rw [inDomain_str, hexReference]
  dsimp only
  split
  · decide
  · next h => exact eq_false_of_ne_true h

/-- The sample chain, the outcome under another number. -/
def misplacedChain : List RawRecord := [sampleRecord.raw, { outcomeRecord.raw with seq := .int 7 }, lastRecord.raw]

theorem misplacedChain_handled : Along (Handled none) [] misplacedChain := by
  have hfields : ∀ {before : List RawRecord} {r : RawRecord} {e : Event}, r.event = .obj e → r.present = 0 →
      intsFit r.seq = true → (getNull e SESSION_ID).hashable = true → (getNull e ID).hashable = true →
      (getNull e REASON).hashable = true → (get e SESSION_ID).isSome = true → orphaned before e = false →
      Handled none before r := by
    intro before r e he hnone hseq hsession hid hreason hnamed horphan
    refine ⟨⟨e, he, he ▸ ⟨hsession, hid, fun _ _ => hreason⟩, fun _ h => ?_⟩, fun h => ?_, ⟨.inr hseq, fun e' he' h => ?_⟩,
      fun h => ?_, fun h => ?_⟩
    · rw [h] at hnamed
      cases hnamed
    · simp [keyRead, hnone] at h
    · obtain rfl := Json.obj.inj (he.symm.trans he')
      rw [horphan] at h
      cases h
    · simp [keyWritten, hnone] at h
    · simp [logWritten, hnone] at h
  exact ⟨hfields rfl (by decide) (by decide) (by decide) (by decide) (by decide) (by decide) (by decide),
    hfields rfl (by decide) (by decide) (by decide) (by decide) (by decide) (by decide) (by decide),
    hfields rfl (by decide) (by decide) (by decide) (by decide) (by decide) (by decide) (by decide), trivial⟩

/-- It is reported on by both. -/
theorem verify_answers_iff_three :
    (∃ report, verifyChain hexReference (registryOptions deafCrypto hexReference .empty .empty none none false)
        misplacedChain = .ok report ∧ report.count = 3) ∧
      ∃ report, verifyLedger hexReference (registryOptions deafCrypto hexReference .empty .empty none none false)
        misplacedChain = .ok report ∧ Covers hexReference misplacedChain report :=
  (verify_answers_iff deafCrypto hexReference hexReference_hex .empty .empty none none false misplacedChain).2
    misplacedChain_handled

/-- A record whose event's `id` is a list. -/
def LISTED_ID : RawRecord where
  event := .obj [(ID, .arr [])]
  seq := .int 0
  hostTs := .str SAMPLE_TS
  previousHash := .str GENESIS_HASH
  recordHash := .str GENESIS_HASH

/-- `verify_chain` raises on it. -/
theorem verify_raises : ¬ ∃ report, verifyChain reference
    (registryOptions deafCrypto reference .empty .empty none none false) [LISTED_ID] = .ok report := by
  have hraise : verifyChain reference (registryOptions deafCrypto reference .empty .empty none none false) [LISTED_ID] =
      .error .typeError := rfl
  rw [hraise]
  rintro ⟨report, h⟩
  cases h

end AuditableMcp
