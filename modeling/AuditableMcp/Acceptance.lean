import AuditableMcp.Verify
import AuditableMcp.Reference
/-!
# What `verify_ledger` accepts

For records whose events are objects named by texts, read with the default adapter, the verifier's run is
compared with a statement about the records alone: `Passes` is what one record must meet in the state the
records before it leave, `WellSealed` says the same by position in the list (`chainLoop_clean_iff`), and
`Accepted` adds the two checks made at the end (`verify_ledger_exact`).
-/
namespace AuditableMcp

open JsonValue HashChain

variable (W : World) (o : VerifyOptions)

/-! ## The records of the statement -/

/-- A member that is a text where it is there. -/
def TextOrAbsent (e : Event) (k : Str) : Prop := ∀ v, get e k = some v → ∃ s, v = .str s

/-- An object named by texts. -/
structure Named (v : Json) (e : Event) : Prop where
  object : v = .obj e
  id : TextOrAbsent e ID
  session : TextOrAbsent e SESSION_ID
  call : TextOrAbsent e CALL_ID

/-- An event's members; none, for what is no object. -/
def RawRecord.body (r : RawRecord) : Event :=
  match r.event with
  | .obj e => e
  | _ => []

/-- A record whose event is an object named by texts. -/
def RawRecord.Readable (r : RawRecord) : Prop := Named r.event r.body

/-- What scopes an event's id: its session, or the call it named before 0.3. -/
def scopeOf (e : Event) : Json := (get e SESSION_ID).getD (getNull e CALL_ID)

/-- An event valid in the shape of its own published version (`models.py:250-353`). -/
inductive ValidForVersion : Json → Prop
  | v01 {v : Json} : validSealedV01 W v = true → ValidForVersion v
  | v011 {v : Json} : validEarlierSealed W v = true → ValidForVersion v
  | v03 {v : Json} : validSealedV03 W v = true → ValidForVersion v
  | current {v : Json} : validAuditEvent W v = true → ValidForVersion v

/-- The rank of the published version an event names. -/
def rankOf (v : Json) : Option Nat := (versionOf v).bind versionRank

/-- The hash a record after these links to. -/
def lastHash (rs : List RawRecord) : Json := (rs.getLast?.map (·.recordHash)).getD (.str GENESIS_HASH)

/-- A whole triple whose signature verifies, or none where none is due. -/
structure Countersigned (r : RawRecord) : Prop where
  whole : r.present = 3 ∨ (r.present = 0 ∧ o.countersignatureRequired = false)
  verifies : r.present = 3 → ∀ confirm, o.countersignatureChecker = some confirm →
    ∃ payload, countersignaturePayload W r.seq r.hostTs r.logId r.previousHash r.recordHash = .ok payload ∧
      confirm r.hostKeyId r.hostSignature payload = .ok true

/-- The triple binds the expected identity, where one is expected. -/
def Identified (r : RawRecord) : Prop := ∀ expected, o.expectedIdentity = some expected →
  r.present = 3 ∧ r.logId = .str expected.logId ∧ ∃ k ∈ expected.hostKeyIds, r.hostKeyId = .str k

/-- An event's own signature verifies, where there is one and a checker for it. -/
def Signed (e : Event) : Prop := ∀ check, o.signatureChecker = some check → getNull e SIGNATURE ≠ .null →
  check e = .ok true

/-- What the records say of themselves and of each other. -/
structure WellSealed (rs : List RawRecord) : Prop where
  position : ∀ (i : Nat) r, rs[i]? = some r → pyEq r.seq (.int i) = true
  linked : ∀ (i : Nat) r, rs[i]? = some r → r.previousHash = lastHash (rs.take i)
  hashed : ∀ r ∈ rs, ∃ h, computeRecordHash W r.event r.seq r.hostTs r.previousHash = .ok h ∧ r.recordHash = .str h
  correlated : ∀ (i : Nat) r, rs[i]? = some r → hasText r.body OUTCOME Outcome.attempted.text = false →
    hasText r.body OUTCOME Outcome.aborted.text = false →
      ∃ r' ∈ rs.take i, hasText r'.body OUTCOME Outcome.attempted.text = true ∧
        scopeOf r'.body = scopeOf r.body ∧ getNull r'.body ID = getNull r.body ID
  numbered : rs.Pairwise fun a b => ∀ n, numberedAs a.body = some n → numberedAs b.body ≠ some n
  signed : ∀ r ∈ rs, Signed o r.body
  countersigned : ∀ r ∈ rs, Countersigned W o r
  identified : ∀ r ∈ rs, Identified o r

/-- Each record is an event of its own version, and the versions do not go backwards. -/
structure Versioned (rs : List RawRecord) : Prop where
  domain : ∀ r ∈ rs, InDomain r.event
  valid : ∀ r ∈ rs, ValidForVersion W r.event
  ordered : rs.Pairwise fun a b => ∀ m n, rankOf a.event = some m → rankOf b.event = some n → m ≤ n

/-- What `verify_ledger` accepts. -/
structure Accepted (rs : List RawRecord) : Prop extends WellSealed W o rs, Versioned W rs where
  accounted : unaccountedSignerSeq (rs.map (·.event)) = .ok []
  anchored : ∀ d, o.anchoredDigest = some d → lastHash rs = .str d

/-! ## One record -/

/-- The key an event is correlated by. -/
def keyOf (e : Event) : CallKey := .inScope (scopeOf e) (getNull e ID)

/-- What a record must meet in the state before it. -/
structure Passes (index : Nat) (r : RawRecord) (s : ChainState) : Prop where
  position : pyIndex r.seq = some index
  hashed : ∃ h, computeRecordHash W r.event r.seq r.hostTs (.str s.prevRecomputed) = .ok h ∧
    r.previousHash = .str s.prevRecomputed ∧ r.recordHash = .str h
  correlated : hasText r.body OUTCOME Outcome.attempted.text = false →
    hasText r.body OUTCOME Outcome.aborted.text = false → keyOf r.body ∈ s.attemptedIds
  numbered : ∀ n, numberedAs r.body = some n → n ∉ s.numbered
  signed : Signed o r.body
  countersigned : Countersigned W o r
  identified : Identified o r

/-- The state after a record that passes. -/
def ChainState.after (s : ChainState) (r : RawRecord) : ChainState where
  issues := s.issues
  attemptedIds :=
    if hasText r.body OUTCOME Outcome.attempted.text then keyOf r.body :: s.attemptedIds
    else s.attemptedIds
  numbered := (numberedAs r.body).toList ++ s.numbered
  prevRecomputed := match r.recordHash with
    | .str h => h
    | _ => s.prevRecomputed
  countersignatureUnchecked := s.countersignatureUnchecked || (r.present == 3 && o.countersignatureChecker.isNone)
  l2Unchecked := s.l2Unchecked || (getNull r.body SIGNATURE != .null && o.signatureChecker.isNone)

variable {W} {o}

theorem named_text {e : Event} {k : Str} (h : TextOrAbsent e k) :
    getNull e k = .null ∨ ∃ s, getNull e k = .str s := by
  unfold getNull
  cases hk : get e k with
  | none => exact .inl rfl
  | some v => exact .inr (h v hk)

theorem named_scope {v : Json} {e : Event} (h : Named v e) :
    scopeOf e = .null ∨ ∃ s, scopeOf e = .str s := by
  unfold scopeOf
  cases hk : get e SESSION_ID with
  | none => exact named_text h.call
  | some w => exact .inr (h.session w hk)

/-- Between keys of texts, equality in a set is equality. -/
theorem keyOf_eq {v : Json} {e : Event} (h : Named v e) (key : CallKey) :
    (keyOf e).eq key = true ↔ keyOf e = key := by
  have hpart : ∀ {a b : Json}, (a = .null ∨ ∃ s, a = .str s) → (pySame a b = true ↔ a = b) := by
    rintro a b (rfl | ⟨s, rfl⟩)
    · rw [null_pySame, eq_comm]
    · rw [str_pySame, eq_comm]
  cases key with
  | value w => simp [keyOf, CallKey.eq]
  | inScope a b =>
    simp only [keyOf, CallKey.eq, Bool.and_eq_true, hpart (named_scope h), hpart (named_text h.id),
      CallKey.inScope.injEq]

theorem keyOf_hashable {v : Json} {e : Event} (h : Named v e) : (keyOf e).hashable = true := by
  have hpart : ∀ {a : Json}, (a = .null ∨ ∃ s, a = .str s) → a.hashable = true := by
    rintro a (rfl | ⟨s, rfl⟩) <;> rfl
  simp [keyOf, CallKey.hashable, hpart (named_scope h), hpart (named_text h.id)]

/-- A readable record whose event has an id. -/
structure RawRecord.Keyed (r : RawRecord) : Prop where
  readable : r.Readable
  id : getNull r.body ID ≠ .null

theorem RawRecord.Keyed.idOf {r : RawRecord} (h : r.Keyed) : topLevelId r.event = .ok (some (keyOf r.body)) := by
  rw [h.readable.object]
  unfold topLevelId
  split
  · next e he =>
    cases he
    split
    · next hnull => exact absurd hnull h.id
    · rfl
  · next hne => exact absurd rfl (hne _)

section Checks

variable {r : RawRecord} {s : ChainState}

/-- What correlation does with a bare event. -/
theorem correlate_obj (ho : o.adapter = DEFAULT_ADAPTER) {e : Event} (he : r.event = .obj e) (attempted : List CallKey) :
    correlate W o r r.event attempted =
      if getNull e ID = .null then .ok (attempted, [])
      else if (keyOf e).hashable = true then
        if hasText e OUTCOME Outcome.attempted.text = true then .ok (keyOf e :: attempted, [])
        else expectWritten (attempted.any (keyOf e).eq = true ∨ hasText e OUTCOME Outcome.aborted.text = true) r.seq
            .orphanedOutcome ((keyOf e).text W >>= fun id =>
              pure (lit "terminal outcome with no matching attempt, id=" ++ id)) >>= fun orphaned =>
          pure (attempted, orphaned)
      else .error .typeError := by
  have hattempt : topLevelIsAttempt r.event = .ok (hasText e OUTCOME Outcome.attempted.text) := by rw [he]; rfl
  have haborted : isAborted r.event = hasText e OUTCOME Outcome.aborted.text := by rw [he]; rfl
  by_cases hid : getNull e ID = .null
  · have hnone : topLevelId r.event = .ok none := by simp [he, topLevelId, hid]
    simp only [correlate, ho, DEFAULT_ADAPTER, hnone, bind, Except.bind, pure, Except.pure, hid, ↓reduceIte]
  · have hsome : topLevelId r.event = .ok (some (keyOf e)) := by
      rw [he]
      simp only [topLevelId, keyOf, scopeOf]
    simp only [correlate, ho, DEFAULT_ADAPTER, hsome, hattempt, haborted, hid, bind, Except.bind, pure, Except.pure,
      throw, throwThe, MonadExceptOf.throw, ↓reduceIte]

/-- An attempt, an aborted outcome, or an outcome whose attempt is among those before it. -/
theorem correlate_clean (ho : o.adapter = DEFAULT_ADAPTER) (hr : r.Keyed) {attempted : List CallKey}
    {x : List CallKey × List VerifyIssue} :
    correlate W o r r.event attempted = .ok x ∧ x.2 = [] ↔
      (hasText r.body OUTCOME Outcome.attempted.text = false → hasText r.body OUTCOME Outcome.aborted.text = false →
        keyOf r.body ∈ attempted) ∧
      x = (if hasText r.body OUTCOME Outcome.attempted.text then keyOf r.body :: attempted else attempted, []) := by
  have hmem : attempted.any (keyOf r.body).eq = true ↔ keyOf r.body ∈ attempted := by
    rw [List.any_eq_true]
    constructor
    · rintro ⟨key, hkey, heq⟩
      rw [(keyOf_eq hr.readable key).1 heq]
      exact hkey
    · exact fun h => ⟨_, h, (keyOf_eq hr.readable _).2 rfl⟩
  rw [correlate_obj ho hr.readable.object, if_neg hr.id, if_pos (keyOf_hashable hr.readable)]
  by_cases hatt : hasText r.body OUTCOME Outcome.attempted.text = true
  · rw [if_pos hatt, if_pos hatt]
    simp only [Except.ok.injEq, hatt, Bool.true_eq_false, false_imp_iff, true_and]
    constructor
    · rintro ⟨rfl, _⟩; rfl
    · rintro rfl; exact ⟨rfl, rfl⟩
  · rw [if_neg hatt, if_neg hatt, bind_eq_ok]
    simp only [pure_eq_ok]
    constructor
    · rintro ⟨⟨orphaned, hfound, rfl⟩, hnil⟩
      obtain rfl : orphaned = [] := hnil
      have hp := expectWritten_eq_nil.1 hfound
      exact ⟨fun _ hab => hmem.1 (hp.resolve_right (by simp [hab])), rfl⟩
    · rintro ⟨hp, rfl⟩
      refine ⟨⟨[], expectWritten_of ?_, rfl⟩, rfl⟩
      by_cases hab : hasText r.body OUTCOME Outcome.aborted.text = true
      · exact .inr hab
      · exact .inl (hmem.2 (hp (eq_false_of_ne_true hatt) (eq_false_of_ne_true hab)))

/-- A signature that is there verifies. -/
theorem signatureCheck_clean (hdom : InDomain r.event) (hr : r.Readable) {x : List VerifyIssue × Bool} :
    signatureCheck o r true r.event = .ok x ∧ x.1 = [] ↔
      Signed o r.body ∧ x = ([], getNull r.body SIGNATURE != .null && o.signatureChecker.isNone) := by
  have hout : outsideCanonicalDomain (.obj r.body) = false := hr.object ▸ hdom
  have hpair : ∀ {b : Bool}, ((([], b) : List VerifyIssue × Bool) = x ∧ x.1 = [] ↔ x = ([], b)) := by
    intro b
    constructor
    · rintro ⟨rfl, _⟩; rfl
    · rintro rfl; exact ⟨rfl, rfl⟩
  rw [hr.object]
  simp only [signatureCheck, Bool.true_and]
  by_cases hsig : getNull r.body SIGNATURE = .null
  · simp [hsig, Signed, pure_eq_ok, hpair]
  · have hne : (getNull r.body SIGNATURE != .null) = true := by simpa using hsig
    simp only [hne, ↓reduceIte]
    cases hcheck : o.signatureChecker with
    | none => simp [Signed, hcheck, pure_eq_ok, hpair]
    | some check =>
      simp only [confirmEvent, hout, Bool.false_eq_true, ↓reduceIte, bind_eq_ok, pure_eq_ok]
      constructor
      · rintro ⟨⟨good, hgood, rfl⟩, hx⟩
        rw [expect_eq_nil] at hx
        subst hx
        refine ⟨fun c hc _ => ?_, by simp [expect_of]⟩
        cases hcheck.symm.trans hc
        exact hgood
      · rintro ⟨hs, rfl⟩
        exact ⟨⟨true, hs check hcheck hsig, by simp [expect_of]⟩, rfl⟩

/-- A triple is whole and verifies, or is absent where it may be. -/
theorem countersignatureCheck_clean {x : List VerifyIssue × Bool} :
    countersignatureCheck W o r true = .ok x ∧ x.1 = [] ↔
      Countersigned W o r ∧ x = ([], r.present == 3 && o.countersignatureChecker.isNone) := by
  unfold countersignatureCheck
  by_cases h0 : r.present = 0
  · simp only [h0, ↓reduceIte, pure_eq_ok]
    constructor
    · rintro ⟨rfl, hx⟩
      have hreq := expect_eq_nil.1 hx
      exact ⟨⟨.inr ⟨h0, hreq⟩, fun h3 => by omega⟩, by simp [expect_of hreq]⟩
    · rintro ⟨hc, rfl⟩
      have hreq : o.countersignatureRequired = false := by
        rcases hc.whole with h3 | ⟨_, hreq⟩
        · omega
        · exact hreq
      exact ⟨by simp [expect_of hreq], rfl⟩
  · by_cases h3 : r.present = 3
    · have hthree : (r.present == 3) = true := by simp [h3]
      rw [if_neg h0, if_neg (not_not_intro h3), if_pos rfl, hthree, Bool.true_and]
      cases hcheck : o.countersignatureChecker with
      | none =>
        simp only [pure_eq_ok, Option.isNone_none]
        constructor
        · rintro ⟨rfl, _⟩
          exact ⟨⟨.inl h3, fun _ c hc => by simp [hcheck] at hc⟩, rfl⟩
        · rintro ⟨_, rfl⟩
          exact ⟨rfl, rfl⟩
      | some confirm =>
        simp only [bind_eq_ok, pure_eq_ok, Option.isNone_some, confirmTriple]
        constructor
        · rintro ⟨⟨good, hgood, invalid, hfound, rfl⟩, hx⟩
          obtain rfl : invalid = [] := hx
          obtain rfl := expectWritten_eq_nil.1 hfound
          refine ⟨⟨.inl h3, fun _ c hc => ?_⟩, rfl⟩
          cases hcheck.symm.trans hc
          split at hgood
          · next payload hp => exact ⟨payload, hp, hgood⟩
          · cases hgood
        · rintro ⟨hc, rfl⟩
          obtain ⟨payload, hp, hconfirm⟩ := hc.verifies h3 confirm hcheck
          exact ⟨⟨true, by simp [hp, hconfirm], [], expectWritten_of rfl, rfl⟩, rfl⟩
    · simp only [h0, ↓reduceIte, ne_eq, h3, not_false_eq_true, pure_eq_ok]
      constructor
      · rintro ⟨rfl, hx⟩
        cases hx
      · rintro ⟨hc, _⟩
        rcases hc.whole with h | ⟨h, _⟩
        · exact absurd h h3
        · exact absurd h h0

/-- The identity matches, or none is expected. -/
theorem identityMismatch_eq_none {expected : ExpectedIdentity} : identityMismatch W r expected = .ok none ↔
    r.present = 3 ∧ r.logId = .str expected.logId ∧ ∃ k ∈ expected.hostKeyIds, r.hostKeyId = .str k := by
  unfold identityMismatch
  by_cases h3 : r.present = 3
  · by_cases hlog : r.logId = .str expected.logId
    · rw [if_neg (not_not_intro h3), if_neg (not_not_intro hlog)]
      simp only [bind_eq_ok, needHash, h3, hlog, true_and]
      constructor
      · rintro ⟨_, _, hany⟩
        split at hany
        · next hk => simpa using hk
        · obtain ⟨key, -, hsome⟩ := bind_eq_ok.1 hany
          cases hsome
      · rintro ⟨k, hk, hkey⟩
        refine ⟨(), by simp [hkey, Json.hashable], ?_⟩
        have hany : expected.hostKeyIds.any (fun k => r.hostKeyId = .str k) = true := by
          rw [List.any_eq_true]
          exact ⟨k, hk, by simpa using hkey⟩
        rw [if_pos hany]
        rfl
    · rw [if_neg (not_not_intro h3), if_pos hlog]
      simp only [bind_eq_ok, hlog, false_and, and_false, iff_false]
      rintro ⟨log, -, hsome⟩
      cases hsome
  · rw [if_pos h3]
    simp [h3, pure_eq_ok]

theorem identityIssues_clean : identityIssues W o r = .ok [] ↔ Identified o r := by
  unfold identityIssues Identified
  cases hexp : o.expectedIdentity with
  | none => simp [pure_eq_ok]
  | some expected =>
    simp only [Option.some.injEq, forall_eq', bind_eq_ok, ← identityMismatch_eq_none (W := W)]
    constructor
    · rintro ⟨_ | detail, h, hd⟩
      · exact h
      · cases pure_eq_ok.1 hd
    · exact fun h => ⟨none, h, rfl⟩

/-- The options of a verifier that reads bare events and expects no principal. -/
structure VerifyOptions.Bare (o : VerifyOptions) : Prop where
  adapter : o.adapter = DEFAULT_ADAPTER
  principal : o.expectedPrincipal = .null

theorem VerifyOptions.Bare.eventOf (ho : o.Bare) (v : Json) : o.adapter.eventOf v = .ok v := by
  rw [ho.adapter]; rfl

theorem VerifyOptions.Bare.principalIssues (ho : o.Bare) : principalIssues W o r = .ok [] := by
  rw [AuditableMcp.principalIssues, if_pos ho.principal]
  rfl

theorem numberOf_event (hr : r.Readable) : numberOf r.event = numberedAs r.body := by
  rw [hr.object]; rfl

theorem replayIssues_eq_nil {number : Option Numbering} {numbered : List Numbering} :
    replayIssues W r number numbered = [] ↔ ∀ n, number = some n → n ∉ numbered := by
  cases number with
  | none => simp [replayIssues]
  | some n => simp [replayIssues]

/-- **One record.** Nothing is found at a record exactly when it passes. -/
theorem chainStep_clean_iff (ho : o.Bare) (hr : r.Keyed) {index : Nat} {s' : ChainState} :
    chainStep W o index r s = .ok s' ∧ s'.issues = [] ↔
      s.issues = [] ∧ Passes W o index r s ∧ s' = s.after o r := by
  constructor
  · rintro ⟨h, hs⟩
    obtain ⟨hclean, _, hseq, hprev, hrec⟩ := chainStep_clean h hs
    obtain ⟨q, inner, corr, p, g, c, i, hq, hinner, hcorr, hp, hg, hc, hi, rfl⟩ := chainStep_eq_ok.1 h
    simp only [List.append_eq_nil_iff] at hs
    obtain ⟨⟨⟨⟨⟨⟨⟨⟨_, rfl⟩, hhash⟩, horphan⟩, hreplay⟩, _⟩, hsig⟩, hcs⟩, rfl⟩ := hs
    obtain ⟨d, hd, hlink, hown⟩ := recompute_clean.1 hhash
    have hre := recompute_of_clean hd hlink hown
    have hdom : InDomain r.event := (inDomain_preimage.1 (computeRecordHash_eq_ok.1 hd).1).1
    obtain rfl : r.event = inner := by simpa [ho.eventOf] using hinner
    rw [hre] at hg hc
    obtain ⟨hsigned, rfl⟩ := (signatureCheck_clean hdom hr.readable).1 ⟨hg, hsig⟩
    obtain ⟨htriple, rfl⟩ := countersignatureCheck_clean.1 ⟨hc, hcs⟩
    rw [numberOf_event hr.readable, replayIssues_eq_nil] at hreplay
    obtain ⟨hcorrelated, rfl⟩ := (correlate_clean ho.adapter hr).1 ⟨hcorr, horphan⟩
    obtain rfl : p = [] := by simpa [ho.principalIssues, eq_comm] using hp
    refine ⟨hclean, ⟨hseq, ⟨d, hd, hlink, hown⟩, hcorrelated, hreplay, hsigned, htriple, identityIssues_clean.1 hi⟩, ?_⟩
    have hnone : replayIssues W r (numberOf r.event) s.numbered = [] := by
      rw [numberOf_event hr.readable]
      exact replayIssues_eq_nil.2 hreplay
    rw [hnone, hre, numberOf_event hr.readable]
    simp [ChainState.after, hown]
  · rintro ⟨hclean, ⟨hseq, ⟨d, hd, hlink, hown⟩, hcorr, hnum, hsigned, htriple, hident⟩, rfl⟩
    have hre := recompute_of_clean hd hlink hown
    have hdom : InDomain r.event := (inDomain_preimage.1 (computeRecordHash_eq_ok.1 hd).1).1
    have hcorr' := (correlate_clean (W := W) ho.adapter hr).2 ⟨hcorr, rfl⟩
    have hrep : replayIssues W r (numberOf r.event) s.numbered = [] := by
      rw [numberOf_event hr.readable]
      exact replayIssues_eq_nil.2 hnum
    have hsig := (signatureCheck_clean hdom hr.readable).2 ⟨hsigned, rfl⟩
    have hcs := countersignatureCheck_clean.2 ⟨htriple, rfl⟩
    refine ⟨chainStep_eq_ok.2 ⟨[], r.event, _, [], _, _, [], seqIssues_eq_nil.2 hseq, ho.eventOf _, hcorr'.1, ho.principalIssues,
      by rw [hre]; exact hsig.1, by rw [hre]; exact hcs.1, identityIssues_clean.2 hident, ?_⟩, hclean⟩
    rw [hre, hrep, numberOf_event hr.readable]
    simp [ChainState.after, hown]

end Checks

/-! ## The loop -/

/-- The state after records that pass. -/
def stateAfter (o : VerifyOptions) (s : ChainState) (rs : List RawRecord) : ChainState :=
  rs.foldl (fun s r => s.after o r) s

@[simp] theorem stateAfter_nil (s : ChainState) : stateAfter o s [] = s := rfl

@[simp] theorem stateAfter_cons (s : ChainState) (r : RawRecord) (rs : List RawRecord) :
    stateAfter o s (r :: rs) = stateAfter o (s.after o r) rs := rfl

@[simp] theorem stateAfter_concat (s : ChainState) (rs : List RawRecord) (r : RawRecord) :
    stateAfter o s (rs ++ [r]) = (stateAfter o s rs).after o r := by simp [stateAfter]

/-- Nothing is found in a run exactly when each record passes in the state the ones before it leave. -/
theorem chainLoop_passes_iff (ho : o.Bare) {rs : List RawRecord} (hrs : ∀ r ∈ rs, r.Keyed) :
    ∀ {index : Nat} {s s' : ChainState}, chainLoop W o index rs s = .ok s' ∧ s'.issues = [] ↔
      s.issues = [] ∧ s' = stateAfter o s rs ∧
        ∀ (i : Nat) (r : RawRecord), rs[i]? = some r → Passes W o (index + i) r (stateAfter o s (rs.take i)) := by
  induction rs with
  | nil =>
    intro index s s'
    simp only [chainLoop, pure_eq_ok, stateAfter_nil, List.getElem?_nil, reduceCtorEq, false_implies,
      implies_true, and_true]
    constructor
    · rintro ⟨rfl, h⟩; exact ⟨h, rfl⟩
    · rintro ⟨h, rfl⟩; exact ⟨rfl, h⟩
  | cons r rs ih =>
    intro index s s'
    have hr := hrs r (List.mem_cons_self ..)
    have hkeyed : ∀ r' ∈ rs, r'.Keyed := fun r' hr' => hrs r' (List.mem_cons_of_mem _ hr')
    constructor
    · rintro ⟨h, hs⟩
      obtain ⟨t, hstep, hloop⟩ := chainLoop_cons_eq_ok.1 h
      obtain ⟨ht, rfl, hpass⟩ := (ih hkeyed).1 ⟨hloop, hs⟩
      obtain ⟨hclean, hp, rfl⟩ := (chainStep_clean_iff ho hr).1 ⟨hstep, ht⟩
      refine ⟨hclean, rfl, fun i r' hi => ?_⟩
      cases i with
      | zero =>
        obtain rfl : r = r' := by simpa using hi
        exact hp
      | succ i =>
        rw [show index + (i + 1) = index + 1 + i by omega]
        exact hpass i r' (by simpa using hi)
    · rintro ⟨hclean, rfl, hpass⟩
      have hp : Passes W o index r s := hpass 0 r rfl
      obtain ⟨hstep, ht⟩ := (chainStep_clean_iff ho hr).2 ⟨hclean, hp, rfl⟩
      have htail : ∀ (i : Nat) (r' : RawRecord), rs[i]? = some r' →
          Passes W o (index + 1 + i) r' (stateAfter o (s.after o r) (rs.take i)) := by
        intro i r' hi
        rw [show index + 1 + i = index + (i + 1) by omega]
        exact hpass (i + 1) r' (by simpa using hi)
      obtain ⟨hloop, hs⟩ := (ih hkeyed).2 ⟨ht, rfl, htail⟩
      exact ⟨chainLoop_cons_eq_ok.2 ⟨_, hstep, hloop⟩, hs⟩

/-! ### What the state holds -/

theorem stateAfter_attemptedIds {rs : List RawRecord} {key : CallKey} :
    key ∈ (stateAfter o .initial rs).attemptedIds ↔
      ∃ r ∈ rs, hasText r.body OUTCOME Outcome.attempted.text = true ∧ keyOf r.body = key := by
  induction rs using List.reverseRecOn with
  | nil => simp [ChainState.initial]
  | append_singleton rs r ih =>
    rw [stateAfter_concat]
    simp only [ChainState.after]
    by_cases hatt : hasText r.body OUTCOME Outcome.attempted.text = true
    · simp only [hatt, ↓reduceIte, List.mem_cons, ih, List.mem_append, List.not_mem_nil, or_false]
      constructor
      · rintro (rfl | ⟨r', hr', h⟩)
        · exact ⟨r, .inr rfl, hatt, rfl⟩
        · exact ⟨r', .inl hr', h⟩
      · rintro ⟨r', hr' | rfl, h⟩
        · exact .inr ⟨r', hr', h⟩
        · exact .inl h.2.symm
    · simp only [hatt, Bool.false_eq_true, ↓reduceIte, ih, List.mem_append, List.mem_singleton]
      constructor
      · rintro ⟨r', hr', h⟩
        exact ⟨r', .inl hr', h⟩
      · rintro ⟨r', hr' | rfl, h⟩
        · exact ⟨r', hr', h⟩
        · exact absurd h.1 hatt

theorem stateAfter_numbered {rs : List RawRecord} {n : Numbering} :
    n ∈ (stateAfter o .initial rs).numbered ↔ ∃ r ∈ rs, numberedAs r.body = some n := by
  induction rs using List.reverseRecOn with
  | nil => simp [ChainState.initial]
  | append_singleton rs r ih =>
    rw [stateAfter_concat]
    simp only [ChainState.after, List.mem_append, Option.mem_toList, ih, List.mem_singleton]
    constructor
    · rintro (h | ⟨r', hr', h⟩)
      · exact ⟨r, .inr rfl, h⟩
      · exact ⟨r', .inl hr', h⟩
    · rintro ⟨r', hr' | rfl, h⟩
      · exact .inr ⟨r', hr', h⟩
      · exact .inl h

theorem lastHash_concat (rs : List RawRecord) (r : RawRecord) : lastHash (rs ++ [r]) = r.recordHash := by
  simp [lastHash]

/-- Over records whose hashes are texts, the link carried on is the last record's hash. -/
theorem stateAfter_prev {rs : List RawRecord} (h : ∀ r ∈ rs, ∃ d, r.recordHash = .str d) :
    .str (stateAfter o .initial rs).prevRecomputed = lastHash rs := by
  induction rs using List.reverseRecOn with
  | nil => rfl
  | append_singleton rs r ih =>
    obtain ⟨d, hd⟩ := h r (by simp)
    rw [stateAfter_concat, lastHash_concat, hd]
    simp [ChainState.after, hd]

/-- A check is left out only where there is no checker for it. -/
theorem stateAfter_unchecked {rs : List RawRecord} :
    (stateAfter o .initial rs).countersignatureUnchecked =
        rs.any (fun r => r.present == 3 && o.countersignatureChecker.isNone) ∧
      (stateAfter o .initial rs).l2Unchecked =
        rs.any (fun r => getNull r.body SIGNATURE != .null && o.signatureChecker.isNone) := by
  induction rs using List.reverseRecOn with
  | nil => exact ⟨rfl, rfl⟩
  | append_singleton rs r ih =>
    rw [stateAfter_concat]
    simp only [ChainState.after, ih.1, ih.2, List.any_append, List.any_cons, List.any_nil, Bool.or_false, and_self]

/-- **The loop.** Nothing is found in a run exactly when the records are well sealed. -/
theorem chainLoop_clean_iff (ho : o.Bare) {rs : List RawRecord} (hrs : ∀ r ∈ rs, r.Keyed) {s : ChainState} :
    chainLoop W o 0 rs .initial = .ok s ∧ s.issues = [] ↔
      WellSealed W o rs ∧ s = stateAfter o .initial rs := by
  rw [chainLoop_passes_iff ho hrs]
  simp only [Nat.zero_add]
  constructor
  · rintro ⟨_, rfl, hpass⟩
    have htext : ∀ r ∈ rs, ∃ d, r.recordHash = .str d := by
      intro r hr
      obtain ⟨i, hi⟩ := List.mem_iff_getElem?.1 hr
      obtain ⟨d, _, _, hd⟩ := (hpass i r hi).hashed
      exact ⟨d, hd⟩
    have hprev : ∀ (i : Nat), .str (stateAfter o .initial (rs.take i)).prevRecomputed = lastHash (rs.take i) :=
      fun i => stateAfter_prev fun r hr => htext r (List.mem_of_mem_take hr)
    refine ⟨⟨?_, ?_, ?_, ?_, ?_, ?_, ?_, ?_⟩, rfl⟩
    · exact fun i r hi => pyEq_nat.2 (hpass i r hi).position
    · intro i r hi
      obtain ⟨_, _, hlink, _⟩ := (hpass i r hi).hashed
      rw [hlink, hprev]
    · intro r hr
      obtain ⟨i, hi⟩ := List.mem_iff_getElem?.1 hr
      obtain ⟨d, hd, hlink, hown⟩ := (hpass i r hi).hashed
      exact ⟨d, by rw [hlink, hd], hown⟩
    · intro i r hi hatt hab
      obtain ⟨r', hr', hatt', hkey⟩ := stateAfter_attemptedIds.1 ((hpass i r hi).correlated hatt hab)
      have hparts : scopeOf r'.body = scopeOf r.body ∧ getNull r'.body ID = getNull r.body ID := by
        simpa [keyOf] using hkey
      exact ⟨r', hr', hatt', hparts⟩
    · rw [List.pairwise_iff_getElem]
      intro i j hi hj hij n hn hn'
      refine (hpass j _ (List.getElem?_eq_getElem hj)).numbered n hn' (stateAfter_numbered.2 ⟨rs[i], ?_, hn⟩)
      exact List.mem_take_iff_getElem.2 ⟨i, by omega, rfl⟩
    all_goals
      intro r hr
      obtain ⟨i, hi⟩ := List.mem_iff_getElem?.1 hr
    · exact (hpass i r hi).signed
    · exact (hpass i r hi).countersigned
    · exact (hpass i r hi).identified
  · rintro ⟨hw, rfl⟩
    have hprev : ∀ (i : Nat), .str (stateAfter o .initial (rs.take i)).prevRecomputed = lastHash (rs.take i) := by
      refine fun i => stateAfter_prev fun r hr => ?_
      obtain ⟨d, _, hd⟩ := hw.hashed r (List.mem_of_mem_take hr)
      exact ⟨d, hd⟩
    refine ⟨rfl, rfl, fun i r hi => ?_⟩
    have hr : r ∈ rs := List.mem_of_getElem? hi
    refine ⟨pyEq_nat.1 (hw.position i r hi), ?_, ?_, ?_, hw.signed r hr, hw.countersigned r hr, hw.identified r hr⟩
    · obtain ⟨d, hd, hown⟩ := hw.hashed r hr
      rw [hw.linked i r hi] at hd ⊢
      exact ⟨d, by rw [hprev, hd], (hprev i).symm, hown⟩
    · intro hatt hab
      obtain ⟨r', hr', hatt', hscope, hid⟩ := hw.correlated i r hi hatt hab
      exact stateAfter_attemptedIds.2 ⟨r', hr', hatt', by rw [keyOf, hscope, hid, keyOf]⟩
    · intro n hn hmem
      obtain ⟨r', hr', hn'⟩ := stateAfter_numbered.1 hmem
      obtain ⟨j, hj, rfl⟩ := List.mem_take_iff_getElem.1 hr'
      obtain ⟨hi', rfl⟩ := List.getElem?_eq_some_iff.1 hi
      exact List.pairwise_iff_getElem.1 hw.numbered j i (by omega) hi' (by omega) n hn' hn

/-! ## Events of their own version -/

theorem isModel_iff {names : List Str} {p : Members → Bool} {v : Json} : isModel names p v = true ↔
    ∃ e, v = .obj e ∧ hasLoneSurrogate (.obj e) = false ∧ closed e names = true ∧ p e = true := by
  cases v <;> simp [isModel, and_assoc]

theorem version_of_required {e : Event} {versions : List Str}
    (h : required e SPEC_VERSION_KEY (isOneOf versions) = true) :
    ∃ s ∈ versions, get e SPEC_VERSION_KEY = some (.str s) := by
  obtain ⟨w, hw, hp⟩ := required_iff.1 h
  obtain ⟨s, hs, rfl⟩ := isOneOf_iff.1 hp
  exact ⟨s, hs, hw⟩

/-- A valid event has an id and names its published version. -/
theorem ValidForVersion.spec {v : Json} (h : ValidForVersion W v) : ∃ e, v = .obj e ∧
    (∃ s, get e ID = some (.str s)) ∧ ∃ version ∈ KNOWN_SPEC_VERSIONS, get e SPEC_VERSION_KEY = some (.str version) := by
  have hid : ∀ {e : Event} {r : Regex.Re}, required e ID (isPattern r) = true → ∃ s, get e ID = some (.str s) := by
    intro e r hr
    obtain ⟨w, hw, hp⟩ := required_iff.1 hr
    obtain ⟨s, rfl, _⟩ := isPattern_iff.1 hp
    exact ⟨s, hw⟩
  have hknown : ∀ {e : Event} {versions : List Str}, versions ⊆ KNOWN_SPEC_VERSIONS →
      required e SPEC_VERSION_KEY (isOneOf versions) = true →
        ∃ version ∈ KNOWN_SPEC_VERSIONS, get e SPEC_VERSION_KEY = some (.str version) := by
    intro e versions hsub hr
    obtain ⟨s, hs, hw⟩ := version_of_required hr
    exact ⟨s, hsub hs, hw⟩
  cases h with
  | v01 h =>
    obtain ⟨e, rfl, _, _, hp⟩ := isModel_iff.1 h
    simp only [Bool.and_eq_true] at hp
    have hsub : [V01] ⊆ KNOWN_SPEC_VERSIONS := by decide
    exact ⟨e, rfl, hid hp.1.1.1.1.1.1.1.1, hknown hsub hp.1.1.1.1.1.1.1.2⟩
  | v011 h =>
    obtain ⟨e, rfl, _, _, hp⟩ := isModel_iff.1 h
    simp only [Bool.and_eq_true] at hp
    have hsub : [V011, V02] ⊆ KNOWN_SPEC_VERSIONS := by decide
    exact ⟨e, rfl, hid hp.1.1.1.1.1.1.1.1.1, hknown hsub hp.1.1.1.1.1.1.1.1.2⟩
  | v03 h =>
    obtain ⟨e, rfl, hs, hver⟩ := validSealedV03_spec h
    exact ⟨e, rfl, hs.id, V03, by decide, hver⟩
  | current h =>
    obtain ⟨e, rfl, hs, hver⟩ := validAuditEvent_spec h
    exact ⟨e, rfl, hs.id, SPEC_VERSION, by decide, hver⟩

/-- `first_sealed_validation_error` finds nothing exactly in the events valid for their own version. -/
theorem firstSealedValidationError_eq_none {v : Json} :
    firstSealedValidationError W v = none ↔ ValidForVersion W v := by
  constructor
  · have hread : ∀ version : Option Json,
        (if version = some (.str V01) then firstError W (validSealedV01 W) v
          else if version = some (.str V03) then firstError W (validSealedV03 W) v
          else if version = some (.str V011) ∨ version = some (.str V02) then firstError W (validEarlierSealed W) v
          else firstError W (validAuditEvent W) v) = none → ValidForVersion W v := by
      intro version h
      split at h
      · exact .v01 (firstError_eq_none.1 h)
      · split at h
        · exact .v03 (firstError_eq_none.1 h)
        · split at h
          · exact .v011 (firstError_eq_none.1 h)
          · exact .current (firstError_eq_none.1 h)
    exact hread _
  · intro h
    have hne : V03 ≠ V01 ∧ V011 ≠ V01 ∧ V011 ≠ V03 ∧ V02 ≠ V01 ∧ V02 ≠ V03 ∧ SPEC_VERSION ≠ V01 ∧
        SPEC_VERSION ≠ V03 ∧ SPEC_VERSION ≠ V011 ∧ SPEC_VERSION ≠ V02 := by decide
    cases h with
    | v01 h =>
      obtain ⟨e, rfl, _, _, hp⟩ := isModel_iff.1 h
      simp only [Bool.and_eq_true] at hp
      obtain ⟨s, hs, hver⟩ := version_of_required hp.1.1.1.1.1.1.1.2
      obtain rfl : s = V01 := by simpa using hs
      simp [firstSealedValidationError, hver, firstError_eq_none, h]
    | v011 h =>
      obtain ⟨e, rfl, _, _, hp⟩ := isModel_iff.1 h
      simp only [Bool.and_eq_true] at hp
      obtain ⟨s, hs, hver⟩ := version_of_required hp.1.1.1.1.1.1.1.1.2
      have hs' : s = V011 ∨ s = V02 := by simpa using hs
      rcases hs' with rfl | rfl <;> simp [firstSealedValidationError, hver, firstError_eq_none, h, hne]
    | v03 h =>
      obtain ⟨e, rfl, _, hver⟩ := validSealedV03_spec h
      simp [firstSealedValidationError, hver, firstError_eq_none, h, hne]
    | current h =>
      obtain ⟨e, rfl, _, hver⟩ := validAuditEvent_spec h
      simp [firstSealedValidationError, hver, firstError_eq_none, h, hne]

theorem sealedError_eq_none {v : Json} : sealedError W v = none ↔ ValidForVersion W v ∧ InDomain v := by
  rw [← firstSealedValidationError_eq_none]
  unfold sealedError InDomain
  cases firstSealedValidationError W v <;> simp

/-- Nothing is reported of any event exactly when each is a valid event of its own version. -/
theorem schemaIssues_eq_nil (ho : o.Bare) {rs : List RawRecord} : schemaIssues W o [] rs = .ok [] ↔
    ∀ r ∈ rs, ValidForVersion W r.event ∧ InDomain r.event := by
  induction rs with
  | nil => simp [schemaIssues, pure_eq_ok]
  | cons r rs ih =>
    have hhere : schemaIssues W o [] (r :: rs) = (schemaIssues W o [] rs).map fun rest =>
        (sealedError W r.event).toList.map (⟨r.seq, .schemaInvalid, ·⟩) ++ rest := by
      simp only [schemaIssues, listed, List.any_nil, Bool.false_eq_true, ↓reduceIte, ho.eventOf]
      cases schemaIssues W o [] rs <;> rfl
    rw [hhere, List.forall_mem_cons, ← ih, ← sealedError_eq_none]
    cases schemaIssues W o [] rs with
    | error x => simp [Except.map]
    | ok rest => simp [Except.map]

theorem versionRegressions_cons (ho : o.Bare) (latest : Option (Nat × Str)) (r : RawRecord) (rs : List RawRecord) :
    (rankOf r.event = none ∧ versionRegressions o latest (r :: rs) = versionRegressions o latest rs) ∨
    (∃ rank version, rankOf r.event = some rank ∧ (∀ high ∈ latest, high.1 ≤ rank) ∧
      versionRegressions o latest (r :: rs) = versionRegressions o (some (rank, version)) rs) ∨
    (∃ rank high, rankOf r.event = some rank ∧ high ∈ latest ∧ rank < high.1 ∧
      versionRegressions o latest (r :: rs) ≠ .ok []) := by
  have hbind : versionRegressions o latest (r :: rs) = versionRegressions o latest (r :: rs) := rfl
  conv_rhs at hbind => rw [versionRegressions, ho.eventOf]
  simp only [bind, Except.bind] at hbind
  unfold rankOf
  cases hv : versionOf r.event with
  | none => exact .inl ⟨rfl, by simpa [hv] using hbind⟩
  | some version =>
    simp only [hv] at hbind
    cases hr : versionRank version with
    | none => exact .inl ⟨hr, by simpa [hr] using hbind⟩
    | some rank =>
      simp only [hr] at hbind
      cases latest with
      | none => exact .inr (.inl ⟨rank, version, hr, by simp, hbind⟩)
      | some high =>
        obtain ⟨top, name⟩ := high
        simp only at hbind
        by_cases hlt : rank < top
        · refine .inr (.inr ⟨rank, (top, name), hr, rfl, hlt, ?_⟩)
          rw [hbind, if_pos hlt]
          cases versionRegressions o (some (top, name)) rs <;> simp [pure, Except.pure]
        · refine .inr (.inl ⟨rank, version, hr, ?_, ?_⟩)
          · rintro _ ⟨⟩
            exact not_lt.1 hlt
          · rw [hbind, if_neg hlt]

/-- No regression is reported exactly when the ranks never decrease, from the latest so far on. -/
theorem versionRegressions_eq_nil (ho : o.Bare) {rs : List RawRecord} : ∀ {latest : Option (Nat × Str)},
    versionRegressions o latest rs = .ok [] ↔
      (∀ high ∈ latest, ∀ r ∈ rs, ∀ n, rankOf r.event = some n → high.1 ≤ n) ∧
        rs.Pairwise fun a b => ∀ m n, rankOf a.event = some m → rankOf b.event = some n → m ≤ n := by
  induction rs with
  | nil => simp [versionRegressions, pure_eq_ok]
  | cons r rs ih =>
    intro latest
    simp only [List.pairwise_cons, List.mem_cons, forall_eq_or_imp]
    rcases versionRegressions_cons ho latest r rs with ⟨hnone, heq⟩ | ⟨rank, version, hrank, hle, heq⟩ |
      ⟨rank, high, hrank, hhigh, hlt, hne⟩
    · rw [heq, ih]
      simp [hnone]
    · rw [heq, ih]
      simp only [Option.mem_def, Option.some.injEq, forall_eq', hrank]
      constructor
      · rintro ⟨hrs, hp⟩
        refine ⟨fun high hh => ⟨?_, fun r' hr' n hn => (hle high hh).trans (hrs r' hr' n hn)⟩, ?_, hp⟩
        · exact hle high hh
        · exact fun r' hr' m n hm hn => hm ▸ hrs r' hr' n hn
      · rintro ⟨_, hfirst, hp⟩
        exact ⟨fun r' hr' n hn => hfirst r' hr' rank n rfl hn, hp⟩
    · refine ⟨fun h => absurd h hne, fun h => ?_⟩
      have hle := (h.1 high hhigh).1 rank hrank
      omega

/-! ## The whole verdict -/

/-- A report of `verify_ledger` is ok exactly when the chain's is and neither later pass finds anything. -/
theorem verifyLedger_ok_iff {rs : List RawRecord} {report : VerifyReport} :
    verifyLedger W o rs = .ok report ∧ report.ok = true ↔ verifyChain W o rs = .ok report ∧ report.ok = true ∧
      schemaIssues W o [] rs = .ok [] ∧ versionRegressions o none rs = .ok [] := by
  have hclean : ∀ {report : VerifyReport}, verifyChain W o rs = .ok report → report.ok = true →
      (report.issues.filter (·.kind = .schemaInvalid)).map (·.seq) = [] := by
    intro report hv hok
    obtain ⟨_, s, inner, gaps, _, _, _, rfl⟩ := verifyChain_eq_ok.1 hv
    rw [List.isEmpty_iff.1 hok]
    rfl
  simp only [verifyLedger, bind_eq_ok]
  constructor
  · rintro ⟨⟨chain, hv, schema, hs, regressions, hr, hreport⟩, hok⟩
    by_cases hfound : (schema ++ regressions).isEmpty = true
    · rw [if_pos hfound, pure_eq_ok] at hreport
      subst hreport
      rw [List.isEmpty_iff, List.append_eq_nil_iff] at hfound
      obtain ⟨rfl, rfl⟩ := hfound
      rw [hclean hv hok] at hs
      exact ⟨hv, hok, hs, hr⟩
    · rw [if_neg hfound, pure_eq_ok] at hreport
      subst hreport
      cases hok
  · rintro ⟨hv, hok, hs, hr⟩
    rw [← hclean hv hok] at hs
    exact ⟨⟨report, hv, [], hs, [], hr, rfl⟩, hok⟩

theorem mapM_event (ho : o.Bare) (rs : List RawRecord) :
    (rs.mapM fun r => o.adapter.eventOf r.event) = .ok (rs.map (·.event)) := by
  simp only [ho.eventOf]
  exact List.mapM_pure

theorem lastHash_eq {rs : List RawRecord} (hw : WellSealed W o rs) :
    lastHash rs = .str (stateAfter o .initial rs).prevRecomputed := by
  refine (stateAfter_prev fun r hr => ?_).symm
  obtain ⟨d, _, hd⟩ := hw.hashed r hr
  exact ⟨d, hd⟩

/-- An event valid for its version has an id, so the chain's checks read it. -/
theorem keyed_of_valid {r : RawRecord} (hr : r.Readable) (hv : ValidForVersion W r.event) : r.Keyed := by
  obtain ⟨e, he, ⟨s, hs⟩, _⟩ := hv.spec
  have hbody : r.body = e := by simp [RawRecord.body, he]
  exact ⟨hr, by simp [hbody, getNull, hs]⟩

/-- **Exact acceptance.** Records whose events are objects named by texts are reported ok exactly when they
are `Accepted`. -/
theorem verifyLedger_accepted_iff (ho : o.Bare) {rs : List RawRecord} (hrs : ∀ r ∈ rs, r.Readable) :
    (∃ report, verifyLedger W o rs = .ok report ∧ report.ok = true) ↔ Accepted W o rs := by
  simp only [verifyLedger_ok_iff, schemaIssues_eq_nil ho, versionRegressions_eq_nil ho]
  have hkeyed : (∀ r ∈ rs, ValidForVersion W r.event ∧ InDomain r.event) → ∀ r ∈ rs, r.Keyed :=
    fun hvalid r hr => keyed_of_valid (hrs r hr) (hvalid r hr).1
  constructor
  · rintro ⟨report, hv, hok, hvalid, _, hordered⟩
    obtain ⟨_, s, inner, gaps, hloop, hinner, hgaps, rfl⟩ := verifyChain_eq_ok.1 hv
    simp only [List.isEmpty_iff, List.append_eq_nil_iff, List.map_eq_nil_iff] at hok
    obtain ⟨⟨hissues, rfl⟩, hdigest⟩ := hok
    obtain ⟨hw, rfl⟩ := (chainLoop_clean_iff ho (hkeyed hvalid)).1 ⟨hloop, hissues⟩
    obtain rfl : rs.map (·.event) = inner := by simpa [mapM_event ho] using hinner
    refine { hw with
      domain := fun r hr => (hvalid r hr).2
      valid := fun r hr => (hvalid r hr).1
      ordered := hordered
      accounted := hgaps
      anchored := fun d hd => ?_ }
    simp only [digestIssues, hd, expect_eq_nil] at hdigest
    rw [lastHash_eq hw, hdigest]
  · intro ha
    have hvalid : ∀ r ∈ rs, ValidForVersion W r.event ∧ InDomain r.event := fun r hr => ⟨ha.valid r hr, ha.domain r hr⟩
    obtain ⟨hloop, hissues⟩ := (chainLoop_clean_iff ho (hkeyed hvalid)).2 ⟨ha.toWellSealed, rfl⟩
    have hdigest : digestIssues o (stateAfter o .initial rs).prevRecomputed = [] := by
      unfold digestIssues
      split
      · rfl
      · next d hd =>
        have hlast := (lastHash_eq ha.toWellSealed).symm.trans (ha.anchored d hd)
        exact expect_of (Json.str.inj hlast).symm
    refine ⟨_, verifyChain_eq_ok.2 ⟨by rw [ho.principal]; rfl, _, _, _, hloop, mapM_event ho rs, ha.accounted, rfl⟩, ?_,
      hvalid, by simp, ha.ordered⟩
    rw [hissues, hdigest]
    rfl

/-- With both checkers given, nothing that applies is left unchecked. -/
theorem verifyLedger_complete (ho : o.Bare) {rs : List RawRecord} (hrs : ∀ r ∈ rs, r.Readable)
    (hsig : o.signatureChecker.isSome = true) (hcs : o.countersignatureChecker.isSome = true)
    {report : VerifyReport} (hv : verifyLedger W o rs = .ok report) (hok : report.ok = true) :
    report.complete = true := by
  have ha := (verifyLedger_accepted_iff ho hrs).1 ⟨report, hv, hok⟩
  obtain ⟨hv, _⟩ := verifyLedger_ok_iff.1 ⟨hv, hok⟩
  obtain ⟨_, s, inner, gaps, hloop, _, _, hreport⟩ := verifyChain_eq_ok.1 hv
  have hkeyed : ∀ r ∈ rs, r.Keyed := fun r hr => keyed_of_valid (hrs r hr) (ha.valid r hr)
  obtain ⟨hloop', _⟩ := (chainLoop_clean_iff ho hkeyed).2 ⟨ha.toWellSealed, rfl⟩
  obtain rfl : stateAfter o .initial rs = s := by simpa [hloop'] using hloop
  obtain ⟨hc, hl⟩ := @stateAfter_unchecked o rs
  have hunchecked : report.unchecked = [] := by
    rw [hreport]
    simp [hc, hl, Option.isNone_eq_false_iff.2 hsig, Option.isNone_eq_false_iff.2 hcs]
  simp [VerifyReport.complete, hok, hunchecked]

/-- A verifier with both checkers, and the default adapter. -/
def fullOptions (anchoredDigest : Option Str) (confirm : Json → Json → Str → Checked Bool)
    (check : Event → Checked Bool) (expectedIdentity : Option ExpectedIdentity) (required : Bool) : VerifyOptions where
  anchoredDigest := anchoredDigest
  countersignatureChecker := some confirm
  signatureChecker := some check
  expectedIdentity := expectedIdentity
  countersignatureRequired := required

/-- **Exact acceptance.** With both checkers, any anchor, any expected identity and either requirement,
records of events named by texts are reported ok, and then also complete, exactly when they are
`Accepted`. -/
theorem verify_ledger_exact (W : World) (anchoredDigest : Option Str) (confirm : Json → Json → Str → Checked Bool)
    (check : Event → Checked Bool) (expectedIdentity : Option ExpectedIdentity) (required : Bool)
    {rs : List RawRecord} (hrs : ∀ r ∈ rs, r.Readable) :
    ((∃ report, verifyLedger W (fullOptions anchoredDigest confirm check expectedIdentity required) rs = .ok report ∧
        report.ok = true) ↔
      Accepted W (fullOptions anchoredDigest confirm check expectedIdentity required) rs) ∧
    ∀ report, verifyLedger W (fullOptions anchoredDigest confirm check expectedIdentity required) rs = .ok report →
      report.ok = true → report.complete = true := by
  have ho : (fullOptions anchoredDigest confirm check expectedIdentity required).Bare := ⟨rfl, rfl⟩
  exact ⟨verifyLedger_accepted_iff ho hrs, fun report => verifyLedger_complete ho hrs rfl rfl⟩

/-! ## The sample chain -/

theorem textOrAbsent_of {e : Event} {k : Str} (h : (get e k).all isText = true) : TextOrAbsent e k := by
  intro v hv
  rw [hv] at h
  cases v with
  | str s => exact ⟨s, rfl⟩
  | _ => cases h

theorem sampleChain_readable : ∀ r ∈ sampleChain.map (·.raw), r.Readable := by
  have hnamed : ∀ r ∈ sampleChain.map (·.raw), r.event = .obj r.body ∧
      [ID, SESSION_ID, CALL_ID].all (fun k => (get r.body k).all isText) = true := by decide
  intro r hr
  obtain ⟨hobj, htexts⟩ := hnamed r hr
  rw [List.all_eq_true] at htexts
  exact ⟨hobj, textOrAbsent_of (htexts ID (by simp)), textOrAbsent_of (htexts SESSION_ID (by simp)),
    textOrAbsent_of (htexts CALL_ID (by simp))⟩

/-- Anchored to its last hash, the sample chain is accepted. -/
theorem verify_ledger_exact_three :
    Accepted reference (fullOptions (some lastRecord.recordHash) (fun _ _ _ => .ok false) (fun _ => .ok false) none false)
        (sampleChain.map (·.raw)) ∧
      ∃ report, verifyLedger reference (fullOptions (some lastRecord.recordHash) (fun _ _ _ => .ok false)
        (fun _ => .ok false) none false) (sampleChain.map (·.raw)) = .ok report ∧ report.complete = true := by
  have hreport : verifyLedger reference (fullOptions (some lastRecord.recordHash) (fun _ _ _ => .ok false)
      (fun _ => .ok false) none false) (sampleChain.map (·.raw)) = .ok ⟨true, 3, lastRecord.recordHash, [], []⟩ := by
    decide +kernel
  obtain ⟨hexact, hcomplete⟩ := verify_ledger_exact reference (some lastRecord.recordHash) (fun _ _ _ => .ok false)
    (fun _ => .ok false) none false sampleChain_readable
  exact ⟨hexact.1 ⟨_, hreport, rfl⟩, _, hreport, hcomplete _ hreport rfl⟩

end AuditableMcp
