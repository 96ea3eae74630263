import AuditableMcp.Host
import AuditableMcp.Lib.Jcs
/-!
# A world to run the model in

The functions outside the repository, as concrete ones: the canonical writer of `Lib/Jcs`, and a hash that
is SHA-256 on the values of `hashed` and tells every other text apart. It meets what the theorems ask of
a `World` (`reference_jcs`, `reference_sha256_inj`, `reference_sha256_ne_genesis`).
-/
namespace AuditableMcp

open JsonValue Effect

/-! ## An operation's events -/

def SAMPLE_SESSION : Str := lit "22222222-2222-4222-8222-222222222222"

/-- An event of one operation: a write to a file. -/
def sampleEvent (version : Str) (outcome : Outcome) : Event :=
  [(ID, .str (lit "11111111-1111-4111-8111-111111111111")), (SPEC_VERSION_KEY, .str version),
    (TS, .str (lit "2026-01-01T00:00:00Z")), (SESSION_ID, .str SAMPLE_SESSION), (ACTION_TYPE, .str (lit "write")),
    (MUTATES, .bool true), (EGRESS, .bool false),
    (TARGET_RESOURCE, .obj [(KIND, .str (lit "file")), (REF, .str (lit "a"))]), (OUTCOME, .str outcome.text)]

def sampleAttempt : Event := sampleEvent SPEC_VERSION .attempted
def sampleOutcome : Event := sampleEvent SPEC_VERSION .success

def OTHER_SESSION : Str := lit "44444444-4444-4444-8444-444444444444"

/-- An attempt of another session. -/
def otherAttempt : Event :=
  [(ID, .str (lit "33333333-3333-4333-8333-333333333333")), (SPEC_VERSION_KEY, .str SPEC_VERSION),
    (TS, .str (lit "2026-01-01T00:00:00Z")), (SESSION_ID, .str OTHER_SESSION), (ACTION_TYPE, .str (lit "write")),
    (MUTATES, .bool true), (EGRESS, .bool false),
    (TARGET_RESOURCE, .obj [(KIND, .str (lit "file")), (REF, .str (lit "a"))]),
    (OUTCOME, .str Outcome.attempted.text)]

/-- The attempt of a tool that spoke the version before. -/
def earlierAttempt : Event := sampleEvent V03 .attempted

/-- The sample attempt, signed by an Ed25519 key. -/
def signedAttempt : Event :=
  sampleAttempt ++ [(KEY_ID, .str (lit "tool-1")), (SIGNER_SEQ, .int 0), (SIGNATURE, .str (lit
    "bMw2AlRi6EXHzGezftHIrjhbbS892xlP3dLx5KXgXFvTayXsNeZKlABac2DC3BbDc6-8MzBvd9PTrWWuiH4jBw"))]

def SAMPLE_TS : Str := lit "2026-01-01T00:00:01Z"

/-- The preimage of an event sealed first. -/
def firstPreimage (e : Event) : Json := preimage (.obj e) (.int 0) (.str SAMPLE_TS) (.str GENESIS_HASH)

/-- The records of an attempt, its outcome, and an attempt of another session. -/
def sampleRecord : SealedRecord where
  event := sampleAttempt
  seq := 0
  hostTs := SAMPLE_TS
  previousHash := GENESIS_HASH
  recordHash := lit "7ba4f8114fccbfd324a47d4bd46b2bbdfe0d9fedaf8202bdb3af6a1afad0ddde"

def outcomeRecord : SealedRecord where
  event := sampleOutcome
  seq := 1
  hostTs := SAMPLE_TS
  previousHash := sampleRecord.recordHash
  recordHash := lit "6ba433b94d9e66132ebcf7e9525ab802166b7b4ebe6765256bca4f4214160335"

def lastRecord : SealedRecord where
  event := otherAttempt
  seq := 2
  hostTs := SAMPLE_TS
  previousHash := outcomeRecord.recordHash
  recordHash := lit "0ecdd2a48977ae860006f04f3b6d862b473c49b49e8c5a30d409b29da7cfb4ec"

def sampleChain : List SealedRecord := [sampleRecord, outcomeRecord, lastRecord]

/-- Values with their SHA-256. -/
def hashed : List (Json × Str) :=
  [(.obj sampleAttempt, lit "b25e1184a53c2007d75d4429d90d34d9f7e22f1c0e81c0ee057a20352521f854"),
    (firstPreimage sampleAttempt, sampleRecord.recordHash),
    (.obj sampleOutcome, lit "a5431de1842696937826e70199f285f6bfdb198292b3c10e0dc388563ac3f139"),
    (preimage (.obj sampleOutcome) (.int 1) (.str SAMPLE_TS) (.str sampleRecord.recordHash), outcomeRecord.recordHash),
    (.obj otherAttempt, lit "65c7e09c5979e432e14e8c4343cc9ae685ada5acc64b2549de44a85e945bb05f"),
    (preimage (.obj otherAttempt) (.int 2) (.str SAMPLE_TS) (.str outcomeRecord.recordHash), lastRecord.recordHash),
    (.obj earlierAttempt, lit "820f47d2cec572ee88060a85eb492887d0917f1c3b8fade073e038ab1c98836f"),
    (firstPreimage earlierAttempt, lit "10b6dd94d65af685a9daecb854d01a970ae74a9629981dd7c0fe569d79236e35"),
    (.obj signedAttempt, lit "b30d69ace084774469f940659710d396ab8da9f169f0ad040bdca6b861b5817a"),
    (firstPreimage signedAttempt, lit "f30c197d74a20f1300ef82ecdc81a798b4428a31d452083f428d5af7297f0ed9")]

/-- A text that is no hash: it begins with `x`. -/
def unhashed (t : Str) : Str := 120 :: t

def referenceSha256 (t : Str) : Str :=
  match hashed.find? fun m => jcs m.1 == t with
  | some m => m.2
  | none => unhashed t

def reference : World where
  dumps := jcs
  sha256 := referenceSha256
  repr := jcs
  schemaMessage _ := lit "invalid"
  unicodeDigit _ := false

theorem reference_jcs : JcsSpec reference.dumps InDomain := jcs_spec InDomain

theorem hashed_nodup : (hashed.map Prod.snd).Nodup := by decide

theorem hashed_ne_unhashed : ∀ m ∈ hashed, m.2.head? ≠ some 120 := by decide

theorem hashed_ne_genesis : ∀ m ∈ hashed, m.2 ≠ GENESIS_HASH := by decide

theorem referenceSha256_cases (t : Str) :
    (∃ m ∈ hashed, jcs m.1 = t ∧ referenceSha256 t = m.2) ∨ referenceSha256 t = unhashed t := by
  unfold referenceSha256
  cases h : hashed.find? fun m => jcs m.1 == t with
  | none => exact .inr rfl
  | some m =>
    have ht := List.find?_some h
    exact .inl ⟨m, List.mem_of_find?_eq_some h, eq_of_beq ht, rfl⟩

theorem reference_sha256_inj {s t : Str} (h : reference.sha256 s = reference.sha256 t) : s = t := by
  have h' : referenceSha256 s = referenceSha256 t := h
  rcases referenceSha256_cases s with ⟨m, hm, rfl, hs⟩ | hs <;> rcases referenceSha256_cases t with ⟨n, hn, rfl, ht⟩ | ht
  · obtain rfl := List.inj_on_of_nodup_map hashed_nodup hm hn (hs.symm.trans (h'.trans ht))
    rfl
  · exact absurd (by rw [← hs, h', ht]; rfl) (hashed_ne_unhashed m hm)
  · exact absurd (by rw [← ht, ← h', hs]; rfl) (hashed_ne_unhashed n hn)
  · exact (List.cons.inj (hs.symm.trans (h'.trans ht))).2

theorem reference_sha256_ne_genesis (t : Str) : reference.sha256 t ≠ GENESIS_HASH := by
  have hne : ∀ t, referenceSha256 t ≠ GENESIS_HASH := by
    intro t h
    rcases referenceSha256_cases t with ⟨m, hm, _, ht⟩ | ht
    · exact hashed_ne_genesis m hm (ht.symm.trans h)
    · rw [ht] at h
      exact absurd (List.cons.inj h).1 (by decide)
  exact hne t

/-! ## The sample events are what a host admits -/

theorem sampleAttempt_valid : validAuditEvent reference (.obj sampleAttempt) = true := by decide

theorem sampleAttempt_inDomain : InDomain (.obj sampleAttempt) := by decide

/-! ## A host to run -/

/-- A Level-1 host with a repository. -/
def sampleConfig : Config where
  level := .l1
  countersign := .none
  hasVerifier := false
  countersigner := none
  logId := lit "partition"
  hasRepository := true
  verifier_of_l2 := verifier_of_l1
  countersigner_iff := none_countersigns

/-- It, the sample session open. -/
def sampleHost : Host :=
  { Host.new with issued := [SAMPLE_SESSION], sessions := Function.update Host.new.sessions SAMPLE_SESSION (some .new) }

theorem sampleRecord_sealed : sampleHost.ledger.seal reference sampleAttempt SAMPLE_TS = .ok sampleRecord := by
  decide +kernel

theorem sampleHost_opens {σ : Type} {env : σ → (q : Query) → Reply q → σ → Prop} (s : σ) :
    Runs env ((HostOp.openSession SAMPLE_SESSION).run reference sampleConfig .new) s (.ok (), sampleHost) s :=
  .ret _ s

theorem sampleAttempt_unopposed : Unopposed reference sampleConfig sampleHost sampleAttempt SAMPLE_SESSION where
  level := rfl
  settled := rfl
  valid := sampleAttempt_valid
  attempt := by decide
  domain := sampleAttempt_inDomain
  session := by decide
  isOpen := by decide
  unsealed := rfl
  unconcluded s hs := by
    obtain rfl : Session.new = s := by simpa [sampleHost] using hs
    rfl

end AuditableMcp
