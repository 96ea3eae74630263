import AuditableMcp.Verify
import AuditableMcp.Reference
/-!
# An anchored digest admits one chain

A ledger that only seals and commits has a chain whose last hash is its `digest`. A verifier given that
digest out of band, and any records at all, reports them ok only if they are that chain
(`verify_chain_anchored`): its own run recomputes every link from genesis (`verifyChain_ok`), the last
link is the anchor, and a last hash commits to the whole chain (`HashChain.commit`).
-/
namespace AuditableMcp

open JsonValue HashChain

variable {W : World} {o : VerifyOptions}

/-- The record hash is SHA-256 over the RFC 8785 form: injective on JSON values, and never 64 zeros. -/
structure HashSpec (W : World) : Prop where
  inj : ∀ a b, InDomain a → InDomain b → hashOf W a = hashOf W b → JsonEq a b
  ne_genesis : ∀ a, InDomain a → hashOf W a ≠ GENESIS_HASH

/-- The ledgers `append`, or `seal` and `commit`, build from an empty one; a committed record may carry a
countersignature (`host.py:433-435`). -/
inductive Built (W : World) : Ledger → Prop
  | empty : Built W .empty
  | append {l l' : Ledger} {e : Event} {ts : Str} : Built W l → l.append W e ts = .ok l' → Built W l'
  | commit {l : Ledger} {e : Event} {ts : Str} {r : SealedRecord} (hostSignature hostKeyId logId : Option Str) :
      Built W l → l.seal W e ts = .ok r → Built W (l.commit { r with hostSignature, hostKeyId, logId })

/-- A ledger built so holds one valid chain, and continues it. -/
structure Ledger.Holds (W : World) (l : Ledger) : Prop where
  chain : ValidChain W l.records
  continues : l.At W l.records

theorem Ledger.Holds.commit {l : Ledger} {r : SealedRecord} (h : l.Holds W) (hseq : r.seq = l.count)
    (hprev : r.previousHash = l.tailHash) (hs : r.Sealed W) : (l.commit r).Holds W :=
  ⟨validChain_concat h.chain h.continues hseq hprev hs, h.continues.commit r⟩

theorem Built.holds {l : Ledger} (h : Built W l) : l.Holds W := by
  induction h with
  | empty => exact ⟨trivial, Ledger.empty_at⟩
  | @append l l' e ts _ happ ih =>
    unfold Ledger.append at happ
    split at happ
    · next r hr =>
      cases happ
      obtain ⟨_, hseq, hprev, _, hs⟩ := Ledger.seal_eq_ok hr
      exact ih.commit hseq hprev hs
    · cases happ
  | commit _ _ _ _ hr ih =>
    obtain ⟨_, hseq, hprev, _, hs⟩ := Ledger.seal_eq_ok hr
    exact ih.commit hseq hprev hs

/-! ## Sealed records, read back -/

theorem SealedRecord.Sealed.raw {r : SealedRecord} (h : r.Sealed W) : RawRecord.Sealed W r.raw :=
  ⟨by simp [SealedRecord.raw], ⟨_, rfl⟩, _, h, rfl⟩

/-- A chain is the same chain when its records are read back. -/
theorem chain_raw {rs : List SealedRecord} : ∀ {n : Nat} {t : Str}, Chain (links W) n t rs →
    Chain (rawLinks W) n (.str t) (rs.map (·.raw)) ∧
      tail (rawLinks W) (.str t) (rs.map (·.raw)) = .str (tail (links W) t rs) := by
  induction rs with
  | nil => exact fun _ => ⟨trivial, rfl⟩
  | cons r rs ih =>
    rintro n t ⟨hseq, hprev, hok, hrest⟩
    obtain ⟨hchain, htail⟩ := ih hrest
    refine ⟨⟨?_, congrArg Json.str hprev, hok.raw, hchain⟩, htail⟩
    have hr : r.seq = n := hseq
    simp [rawLinks, SealedRecord.raw, hr]

/-! ## What equal hashes say -/

/-- Two records are the same but for their countersignatures. -/
structure Agree (r r' : RawRecord) : Prop where
  event : JsonEq r.event r'.event
  seq : JsonEq r.seq r'.seq
  hostTs : JsonEq r.hostTs r'.hostTs
  previousHash : r.previousHash = r'.previousHash
  recordHash : r.recordHash = r'.recordHash

theorem agree_of_hash (hW : HashSpec W) {r r' : RawRecord} (hr : RawRecord.Sealed W r)
    (hr' : RawRecord.Sealed W r') (h : r.recordHash = r'.recordHash) : Agree r r' := by
  obtain ⟨_, ⟨p, hp⟩, d, hd, hrec⟩ := hr
  obtain ⟨_, ⟨p', hp'⟩, d', hd', hrec'⟩ := hr'
  obtain ⟨hdom, hhash⟩ := computeRecordHash_eq_ok.1 hd
  obtain ⟨hdom', hhash'⟩ := computeRecordHash_eq_ok.1 hd'
  have hdd : d = d' := by
    rw [hrec, hrec'] at h
    exact Json.str.inj h
  have heq := hW.inj _ _ hdom hdom' (by rw [← hhash, ← hhash', hdd])
  obtain ⟨hevent, hseq, hts, hprev⟩ := jsonEq_preimage.1 heq
  refine ⟨hevent, hseq, hts, ?_, h⟩
  rw [hp] at hprev ⊢
  exact (jsonEq_str.1 hprev).symm

theorem recordHash_ne_genesis (hW : HashSpec W) {r : RawRecord} (hr : RawRecord.Sealed W r) :
    r.recordHash ≠ .str GENESIS_HASH := by
  obtain ⟨_, _, d, hd, hrec⟩ := hr
  obtain ⟨hdom, hhash⟩ := computeRecordHash_eq_ok.1 hd
  rw [hrec]
  rintro ⟨⟩
  exact hW.ne_genesis _ hdom hhash.symm

/-- Two chains of records read back that end in one hash agree record by record. -/
theorem rawChain_commit (hW : HashSpec W) {rs rs' : List RawRecord}
    (h : Chain (rawLinks W) 0 (.str GENESIS_HASH) rs) (h' : Chain (rawLinks W) 0 (.str GENESIS_HASH) rs')
    (ht : tail (rawLinks W) (.str GENESIS_HASH) rs = tail (rawLinks W) (.str GENESIS_HASH) rs') :
    List.Forall₂ Agree rs rs' := by
  have hne : ∀ r, RawRecord.Sealed W r → r.recordHash ≠ .str GENESIS_HASH := fun r => recordHash_ne_genesis hW
  refine commit ?_ hne hne rs rs' h h' ht
  intro r r' hr hr' hrec
  have hagree := agree_of_hash hW hr hr' hrec
  refine ⟨?_, hagree.previousHash, hagree⟩
  simp [rawLinks, hagree.seq.pyIndex]

/-- **Anchored tamper evidence.** Records a verifier accepts under a ledger's digest are the ledger's. -/
theorem verify_chain_anchored (hW : HashSpec W) {l : Ledger} (hl : Built W l) {rs : List RawRecord}
    {report : VerifyReport} (ho : o.anchoredDigest = some l.digest) (hv : verifyChain W o rs = .ok report)
    (hok : report.ok = true) : rs.length = l.records.length ∧
      ∀ (i : Nat) (r : SealedRecord) (r' : RawRecord), l.records[i]? = some r → rs[i]? = some r' → Agree r.raw r' := by
  obtain ⟨hchain, htail, hanchor⟩ := verifyChain_ok hv hok
  obtain ⟨hraw, hrawTail⟩ := chain_raw hl.holds.chain
  have hdigest : tail (rawLinks W) (.str GENESIS_HASH) (l.records.map (·.raw)) =
      tail (rawLinks W) (.str GENESIS_HASH) rs := by
    have hl' : l.digest = tail (links W) GENESIS_HASH l.records := hl.holds.continues.2
    rw [hrawTail, htail, ← hanchor _ ho, hl']
  have hagree := rawChain_commit hW hraw hchain hdigest
  refine ⟨by simpa using hagree.length_eq.symm, fun i r r' hr hr' => ?_⟩
  obtain ⟨hi, rfl⟩ := List.getElem?_eq_some_iff.1 hr
  obtain ⟨hi', rfl⟩ := List.getElem?_eq_some_iff.1 hr'
  have hget := hagree.get (i := i) (by simpa using hi) hi'
  simpa using hget

/-! ## The sample chain, anchored -/

theorem reference_hashSpec : HashSpec reference where
  inj a b ha hb h := (reference_jcs.eq_iff a b ha hb).1 (reference_sha256_inj h)
  ne_genesis _ _ := reference_sha256_ne_genesis _

def sampleLedger : Ledger := ((Ledger.empty.commit sampleRecord).commit outcomeRecord).commit lastRecord

theorem sampleLedger_built : Built reference sampleLedger := by
  have hone := Built.commit none none none .empty sampleRecord_sealed
  have houtcome : (Ledger.empty.commit sampleRecord).seal reference sampleOutcome SAMPLE_TS = .ok outcomeRecord := by
    decide +kernel
  have hlast : ((Ledger.empty.commit sampleRecord).commit outcomeRecord).seal reference otherAttempt SAMPLE_TS =
      .ok lastRecord := by decide +kernel
  exact .commit none none none (.commit none none none hone houtcome) hlast

/-- The sample chain read back, the last event's members in another order. -/
def reorderedChain : List RawRecord :=
  [sampleRecord.raw, outcomeRecord.raw, { lastRecord.raw with event := .obj otherAttempt.reverse }]

theorem reorderedChain_verifies : verifyChain reference { anchoredDigest := some sampleLedger.digest } reorderedChain =
    .ok ⟨true, 3, lastRecord.recordHash, [], []⟩ := by
  decide +kernel

theorem verify_chain_anchored_three : reorderedChain.length = sampleLedger.records.length ∧
    ∀ (i : Nat) (r : SealedRecord) (r' : RawRecord), sampleLedger.records[i]? = some r →
      reorderedChain[i]? = some r' → Agree r.raw r' :=
  verify_chain_anchored reference_hashSpec sampleLedger_built rfl reorderedChain_verifies rfl

end AuditableMcp
