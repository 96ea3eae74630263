import AuditableMcp.Tracking
/-!
# A restart the tool cannot tell

A host resumed from the store, its open sessions given back with their signer trackers, against the host
that went on: they ask their environment the same, answer the same and note the same anomalies, whatever
comes after (`Alike`, and `Effect.Tandem` of their operations).

Two sources rebuild the live tables. The records give what was sealed (`Mirrors`, of both hosts); the
tracker gives what was decided or received without a seal. That nothing sealed lies above what was
received is the one fact neither source holds (`Tracks`), an invariant of the live host's runs.
-/
namespace AuditableMcp

open JsonValue Effect

variable (c : Config)

/-! ## Two hosts alike -/

/-- Two sessions no event tells apart: at Level 1 nothing reads the signer's numbers. -/
structure Session.Alike (s s' : Session) : Prop where
  accepted : ∀ id, id ∈ s.accepted ↔ id ∈ s'.accepted
  nodup : s.accepted.Nodup ∧ s'.accepted.Nodup
  resolved : ∀ id, id ∈ s.resolved ↔ id ∈ s'.resolved
  outcomes : s.outcomes = s'.outcomes
  decided : c.level = .l2 → ∀ m, m ∈ s.decided ↔ m ∈ s'.decided
  received : c.level = .l2 → s.received = s'.received

/-- The anomalies after the first `n`, without their texts. -/
def anomaliesFrom (n : Nat) (h : Host) : List (Str × Reason) := (h.anomalies.drop n).map fun a => (a.id, a.kind)

/-- Two hosts no call tells apart, the first `n` and `n'` of their anomalies aside. -/
structure Alike (n n' : Nat) (h h' : Host) : Prop where
  count : h.ledger.count = h'.ledger.count
  tailHash : h.ledger.tailHash = h'.ledger.tailHash
  tailUncertain : h.tailUncertain = h'.tailUncertain
  sealedAttempts : h.sealedAttempts = h'.sealedAttempts
  sealedDigests : ∀ d, d ∈ h.sealedDigests ↔ d ∈ h'.sealedDigests
  sessions : ∀ sid, Option.Rel (Session.Alike c) (h.sessions sid) (h'.sessions sid)
  earlier : n ≤ h.anomalies.length ∧ n' ≤ h'.anomalies.length
  noted : anomaliesFrom n h = anomaliesFrom n' h'

variable {c} {n n' : Nat} {h h' : Host}

section Updates

variable (a : Alike c n n' h h')
include a

theorem Alike.flag (id : Str) (kind : Reason) (detail detail' : Str) :
    Alike c n n' (h.flag id kind detail) (h'.flag id kind detail') := by
  obtain ⟨hn, hn'⟩ := a.earlier
  refine { a with earlier := ⟨?_, ?_⟩, noted := ?_ }
  · simp only [Host.flag, List.length_append]
    omega
  · simp only [Host.flag, List.length_append]
    omega
  · have hnoted := a.noted
    simp only [anomaliesFrom] at hnoted ⊢
    simp [Host.flag, List.drop_append_of_le_length hn, List.drop_append_of_le_length hn', hnoted]

theorem Alike.reject (id id' : Str) : Alike c n n' (h.reject id) (h'.reject id') := { a with }

theorem Alike.updateSession (sid : Str) {f : Session → Session} (hf : ∀ s s' : Session, s.Alike c s' → (f s).Alike c (f s')) :
    Alike c n n' (h.updateSession sid f) (h'.updateSession sid f) := by
  refine { a with sessions := fun k => ?_ }
  have hk := a.sessions k
  simp only [Host.updateSession]
  generalize h.sessions k = x at hk ⊢
  generalize h'.sessions k = y at hk ⊢
  split
  · cases hk with
    | none => exact .none
    | some hs => exact .some (hf _ _ hs)
  · exact hk

theorem Alike.commit (r : SealedRecord) : Alike c n n' (h.commit r) (h'.commit r) :=
  { a with count := by simp [Host.commit, Ledger.commit, a.count], tailHash := rfl }

theorem Alike.rememberWith (r : SealedRecord) (d : Str) : Alike c n n' (h.rememberWith r d) (h'.rememberWith r d) := by
  refine { a with sealedAttempts := ?_, sealedDigests := fun d' => ?_ }
  · simp only [Host.rememberWith, a.sealedAttempts]
  · simp only [Host.rememberWith, List.mem_insert_iff, a.sealedDigests]

theorem Alike.tail (b : Bool) : Alike c n n' { h with tailUncertain := b } { h' with tailUncertain := b } :=
  { a with tailUncertain := rfl }

theorem Alike.uncertain : Alike c n n' h.uncertain h'.uncertain := a.tail true

theorem Alike.jump (r : Option SealedRecord) :
    Alike c n n' { h with ledger := .resumeFrom r } { h' with ledger := .resumeFrom r } :=
  { a with count := rfl, tailHash := rfl }

theorem Alike.isSome (sid : Str) : (h.sessions sid).isSome = (h'.sessions sid).isSome := by
  have hk := a.sessions sid
  generalize h.sessions sid = x at hk ⊢
  generalize h'.sessions sid = y at hk ⊢
  cases hk <;> rfl

/-- What is read of a session, where it does not tell two alike apart. -/
theorem Alike.any {p : Session → Bool} (sid : Str) (hp : ∀ s s' : Session, s.Alike c s' → p s = p s') :
    (h.sessions sid).any p = (h'.sessions sid).any p := by
  have hk := a.sessions sid
  generalize h.sessions sid = x at hk ⊢
  generalize h'.sessions sid = y at hk ⊢
  cases hk with
  | none => rfl
  | some hs => exact hp _ _ hs

theorem Alike.outcome (sid id : Str) :
    ((h.sessions sid).bind fun s => s.outcomes id) = (h'.sessions sid).bind fun s => s.outcomes id := by
  have hk := a.sessions sid
  generalize h.sessions sid = x at hk ⊢
  generalize h'.sessions sid = y at hk ⊢
  cases hk with
  | none => rfl
  | some hs => exact congrFun hs.outcomes id

theorem Alike.received (hl : c.level = .l2) (sid k : Str) :
    ((h.sessions sid).bind fun s => s.received k) = (h'.sessions sid).bind fun s => s.received k := by
  have hk := a.sessions sid
  generalize h.sessions sid = x at hk ⊢
  generalize h'.sessions sid = y at hk ⊢
  cases hk with
  | none => rfl
  | some hs => exact congrFun (hs.received hl) k

end Updates

/-! ### A session's updates -/

namespace Session.Alike

variable {s s' : Session} (a : s.Alike c s')
include a

theorem decide (e : Event) : (s.decide c e).Alike c (s'.decide c e) := by
  unfold Session.decide
  split
  · next k n hl _ _ =>
    exact { a with decided := fun _ m => by simp only [List.mem_insert_iff, a.decided hl] }
  · exact a

theorem accept (id : Str) :
    { s with accepted := s.accepted.insert id }.Alike c { s' with accepted := s'.accepted.insert id } :=
  { a with
    accepted := fun k => by simp only [List.mem_insert_iff, a.accepted]
    nodup := ⟨a.nodup.1.insert, a.nodup.2.insert⟩ }

theorem conclude (id d : Str) : (s.conclude id d).Alike c (s'.conclude id d) := by
  refine { a with resolved := fun k => ?_, outcomes := ?_ }
  · have hacc := a.accepted id
    by_cases hid : id ∈ s.accepted
    · simp [Session.conclude, hid, hacc.1 hid, a.resolved]
    · have hid' : id ∉ s'.accepted := fun hin => hid (hacc.2 hin)
      simp [Session.conclude, hid, hid', a.resolved]
  · simp only [Session.conclude, a.outcomes]

theorem receive (k : Str) (m : Int) :
    { s with received := Function.update s.received k (some m) }.Alike c
      { s' with received := Function.update s'.received k (some m) } :=
  { a with received := fun hl => by rw [a.received hl] }

/-- They leave the same attempts unresolved, in one order. -/
theorem unresolved : s.unresolved = s'.unresolved := by
  have hperm : (s.accepted.filter fun id => id ∉ s.resolved).Perm (s'.accepted.filter fun id => id ∉ s'.resolved) := by
    refine (List.perm_ext_iff_of_nodup (a.nodup.1.filter _) (a.nodup.2.filter _)).2 fun id => ?_
    simp only [List.mem_filter, a.accepted, a.resolved]
  exact ((List.perm_insertionSort _ _).trans (hperm.trans (List.perm_insertionSort _ _).symm)).eq_of_pairwise'
    (List.pairwise_insertionSort _ _) (List.pairwise_insertionSort _ _)

end Session.Alike

/-! ### A host's updates, by call -/

section Calls

variable (W : World) (a : Alike c n n' h h')
include a

theorem Alike.decide (e : Event) (sid : Str) : Alike c n n' (h.decide c e sid) (h'.decide c e sid) :=
  a.updateSession sid fun _ _ hs => hs.decide e

theorem Alike.accept (sid id : Str) : Alike c n n' (h.accept sid id) (h'.accept sid id) :=
  a.updateSession sid fun _ _ hs => hs.accept id

theorem Alike.conclude (sid id d : Str) : Alike c n n' (h.conclude sid id d) (h'.conclude sid id d) :=
  a.updateSession sid fun _ _ hs => hs.conclude id d

theorem Alike.noteReceived (hl : c.level = .l2) (e : Event) (k : Str) (m : Int) (sid : Str) :
    Alike c n n' (noteReceived e k m sid h) (noteReceived e k m sid h') := by
  have hgap : ∀ received, Alike c n n' (flagGap e m received h) (flagGap e m received h') := by
    intro received
    simp only [flagGap]
    split
    · exact a.flag _ _ _ _
    · exact a
  simp only [AuditableMcp.noteReceived, a.received hl]
  split
  · exact (hgap _).updateSession sid fun _ _ hs => hs.receive k m
  · exact hgap _

theorem Alike.sessionOf (e : Event) (expected : Option Str) :
    (sessionOf W e expected h).1 = (sessionOf W e expected h').1 ∧
      Alike c n n' (sessionOf W e expected h).2 (sessionOf W e expected h').2 := by
  unfold AuditableMcp.sessionOf
  split
  · next sid _ =>
    rw [a.isSome sid]
    split
    · exact ⟨rfl, a⟩
    · exact ⟨rfl, a.flag _ _ _ _⟩
  · exact ⟨rfl, a.flag _ _ _ _⟩

theorem Alike.admitEvent (e : Event) (expected : Option Str) (attempt : Bool) :
    (admitEvent W e expected attempt h).1 = (admitEvent W e expected attempt h').1 ∧
      Alike c n n' (admitEvent W e expected attempt h).2 (admitEvent W e expected attempt h').2 := by
  unfold AuditableMcp.admitEvent
  split
  · exact ⟨rfl, a.flag _ _ _ _⟩
  · split
    · exact ⟨rfl, a.flag _ _ _ _⟩
    · split
      · exact ⟨rfl, a.flag _ _ _ _⟩
      · exact a.sessionOf W e expected

theorem Alike.checkReplay (e : Event) (sid : Str) : (checkReplay c e sid h).1 = (checkReplay c e sid h').1 ∧
    Alike c n n' (checkReplay c e sid h).2 (checkReplay c e sid h').2 := by
  unfold AuditableMcp.checkReplay
  split
  · next k m hl _ _ =>
    have hany : (h.sessions sid).any (fun s => (k, m) ∈ s.decided) = (h'.sessions sid).any fun s => (k, m) ∈ s.decided :=
      a.any sid fun s s' hs => by simp only [hs.decided hl]
    rw [hany]
    split
    · exact ⟨rfl, a.flag _ _ _ _⟩
    · exact ⟨rfl, a⟩
  · exact ⟨rfl, a⟩

theorem Alike.flagAll (detail : Str → Str) (ids : List Str) :
    Alike c n n' (flagAll detail ids h) (flagAll detail ids h') := by
  induction ids generalizing h h' with
  | nil => exact a
  | cons id ids ih => exact ih (a.flag _ _ _ _)

/-! ## Their operations in tandem -/

theorem Alike.canonically {α : Type} (x : Except Str α) :
    Act.Beside (Alike c n n') (canonically x) (canonically x) h h' := by
  cases x <;> exact .lift _ a

theorem Alike.verifySignature (e : Event) (sid : Str) :
    Act.Beside (Alike c n n') (verifySignature c e sid) (verifySignature c e sid) h h' := by
  unfold AuditableMcp.verifySignature
  split
  · exact .pure _ a
  · next hl =>
    split
    · refine .bind (.await _ a) fun x _ _ a => ?_
      cases x with
      | error x => exact .raise x a
      | ok x =>
        cases x with
        | none => exact .bind (.modify (a.noteReceived hl e _ _ sid)) fun _ _ _ a => .pure _ a
        | some reason => exact .bind (.modify (a.flag _ _ _ _)) fun _ _ _ a => .pure _ a
    · exact .bind (.modify (a.flag _ _ _ _)) fun _ _ _ a => .pure _ a

theorem Alike.remember (r : SealedRecord) : Act.Beside (Alike c n n') (remember W r) (remember W r) h h' :=
  .bind (a.canonically _) fun d _ _ a => .modify (a.rememberWith r d)

theorem Alike.countersign (r : SealedRecord) :
    Act.Beside (Alike c n n') (countersign W c r) (countersign W c r) h h' := by
  unfold AuditableMcp.countersign
  split
  · exact .pure _ a
  · refine .bind (a.canonically _) fun payload _ _ a => .bind (.await _ a) fun x _ _ a => ?_
    cases x with
    | ok signature => exact .pure _ a
    | error x => cases x with
      | cancelled => exact .bind (.modify a.uncertain) fun _ _ _ a => .raise _ a
      | _ => exact .pure _ a

theorem Alike.commitSealed (r : SealedRecord) :
    Act.Beside (Alike c n n') (commitSealed W r) (commitSealed W r) h h' :=
  .bind (.modify (a.commit r)) fun _ _ _ a => .bind (a.remember W r) fun _ _ _ a => .pure _ a

theorem Alike.persist (r : SealedRecord) : Act.Beside (Alike c n n') (persist W c r) (persist W c r) h h' := by
  unfold AuditableMcp.persist
  split
  · refine .bind (.await _ a) fun x _ _ a => ?_
    cases x with
    | ok _ => exact a.commitSealed W r
    | error x => cases x with
      | repositoryError => exact .bind (.modify a.uncertain) fun _ _ _ a => .pure _ a
      | _ => exact .bind (.modify a.uncertain) fun _ _ _ a => .raise _ a
  · exact a.commitSealed W r

/-- A ledger seals by its count and its tail hash. -/
theorem Alike.ledger_seal (e : Event) (ts : Str) : h.ledger.seal W e ts = h'.ledger.seal W e ts := by
  unfold Ledger.seal
  rw [a.count, a.tailHash]

theorem Alike.sealRecord (e : Event) (ts : Str) :
    Act.Beside (Alike c n n') (sealRecord W c e ts) (sealRecord W c e ts) h h' := by
  refine .get_bind ?_
  rw [a.ledger_seal W e ts]
  refine .bind (a.canonically _) fun r _ _ a => .bind (a.countersign W r) fun x _ _ a => ?_
  cases x with
  | none => exact .pure _ a
  | some r => exact a.persist W r

theorem Alike.adopt (r : SealedRecord) : Act.Beside (Alike c n n') (adopt W c r) (adopt W c r) h h' := by
  refine .get_bind ?_
  split
  · exact .pure _ a
  · next sid _ =>
    rw [a.isSome sid]
    split
    · refine .bind (.modify (a.decide _ _)) fun _ _ _ a => ?_
      split
      · exact .modify (a.accept _ _)
      · exact .bind (a.canonically _) fun d _ _ a => .modify (a.conclude _ _ d)
    · exact .pure _ a

theorem Alike.settleWith (tail : Option SealedRecord) :
    Act.Beside (Alike c n n') (settleWith W c tail) (settleWith W c tail) h h' := by
  refine .get_bind ?_
  split
  · exact .pure _ a
  · next r =>
    have hdigest : h.ledger.digest = h'.ledger.digest := a.tailHash
    rw [a.count, hdigest]
    split
    · exact .bind (.modify (a.commit r)) fun _ _ _ a => .bind (a.remember W r) fun _ _ _ a => a.adopt W r
    · split
      · exact .modify (a.jump (some r))
      · exact .pure _ a

theorem Alike.settleTail : Act.Beside (Alike c n n') (settleTail W c) (settleTail W c) h h' := by
  refine .get_bind ?_
  rw [a.tailUncertain]
  split
  · refine .bind (.await _ a) fun x _ _ a => ?_
    cases x with
    | ok tail => exact .bind (a.settleWith W tail) fun _ _ _ a => .bind (.modify (a.tail false)) fun _ _ _ a => .pure _ a
    | error x => cases x with
      | repositoryError => exact .pure _ a
      | _ => exact .raise _ a
  · exact .pure _ a

theorem Alike.sealAttempt (e : Event) (sid : Str) :
    Act.Beside (Alike c n n') (sealAttempt W c e sid) (sealAttempt W c e sid) h h' := by
  refine .bind (.await _ a) fun up _ _ a => ?_
  split
  · refine .bind (.await _ a) fun ts _ _ a => .bind (a.sealRecord W e ts) fun x _ _ a => ?_
    cases x with
    | none => exact .pure _ a
    | some r => exact .bind (.modify ((a.decide e sid).accept sid (eventId e))) fun _ _ _ a => .lift _ a
  · exact .pure _ a

theorem Alike.refuse (e : Event) (sid : Str) (detail : Str) :
    Alike c n n' (((h.reject (eventId e)).decide c e sid).flag (eventId e) .replayDetected detail)
      (((h'.reject (eventId e)).decide c e sid).flag (eventId e) .replayDetected detail) :=
  ((a.reject (eventId e) (eventId e)).decide e sid).flag _ _ _ _

theorem Alike.answerSealed (e : Event) (sid : Str) (r : SealedRecord) :
    Act.Beside (Alike c n n') (answerSealed W c e sid r) (answerSealed W c e sid r) h h' := by
  refine .bind (a.canonically _) fun was _ _ a => .bind (a.canonically _) fun is _ _ a => ?_
  split
  · dsimp only
    split
    · exact .bind (.modify (a.accept _ _)) fun _ _ _ a => .lift _ a
    · exact .bind (.pure _ a) fun _ _ _ a => .lift _ a
  · exact .bind (.modify (a.refuse e sid _)) fun _ _ _ a => .pure _ a

theorem Alike.decideAttempt (e : Event) (sid : Str) :
    Act.Beside (Alike c n n') (decideAttempt W c e sid) (decideAttempt W c e sid) h h' := by
  refine .get_bind ?_
  rw [a.sealedAttempts]
  split
  · exact a.answerSealed W e sid _
  · have hany : (h.sessions sid).any (fun s => (s.outcomes (eventId e)).isSome) =
        (h'.sessions sid).any fun s => (s.outcomes (eventId e)).isSome := a.any sid fun s s' hs => by rw [hs.outcomes]
    rw [hany]
    split
    · exact .bind (.modify (a.refuse e sid _)) fun _ _ _ a => .pure _ a
    · refine .bind (.state (a.checkReplay e sid).1 (a.checkReplay e sid).2) fun x _ _ a => ?_
      cases x with
      | none => exact a.sealAttempt W e sid
      | some reason => exact .bind (.modify ((a.reject _ _).decide e sid)) fun _ _ _ a => .pure _ a

theorem Alike.handleAttempt (e : Event) (expected : Option Str) (deadline : Option Rat) :
    Act.Beside (Alike c n n') (handleAttempt W c e expected deadline) (handleAttempt W c e expected deadline) h h' := by
  have hlocked : ∀ {h h'}, Alike c n n' h h' →
      Act.Beside (Alike c n n') (handleAttemptLocked W c e expected) (handleAttemptLocked W c e expected) h h' := by
    intro h h' a
    refine .bind (.state (a.admitEvent W e expected true).1 (a.admitEvent W e expected true).2) fun x _ _ a => ?_
    cases x with
    | error reason => exact .pure _ a
    | ok sid =>
      refine .bind (a.verifySignature e sid) fun x _ _ a => ?_
      cases x with
      | none => exact a.decideAttempt W e sid
      | some reason => exact .bind (.modify (a.reject _ _)) fun _ _ _ a => .pure _ a
  have hrest : ∀ {h h'}, Alike c n n' h h' → ∀ late : Bool,
      Act.Beside (Alike c n n') (if late = true then pure .unavailable else do
        if ← AuditableMcp.settleTail W c then handleAttemptLocked W c e expected else pure .unavailable)
        (if late = true then pure .unavailable else do
        if ← AuditableMcp.settleTail W c then handleAttemptLocked W c e expected else pure .unavailable) h h' := by
    intro h h' a late
    split
    · exact .pure _ a
    · refine .bind (a.settleTail W) fun settled _ _ a => ?_
      split
      · exact hlocked a
      · exact .pure _ a
  unfold AuditableMcp.handleAttempt
  cases deadline with
  | none => exact .bind (.pure false a) fun late _ _ a => hrest a late
  | some d =>
    exact .bind (.await _ a) fun now _ _ a => hrest a (Decidable.decide (d ≤ now))

theorem Alike.sealOutcome (e : Event) (sid d : Str) :
    Act.Beside (Alike c n n') (sealOutcome W c e sid d) (sealOutcome W c e sid d) h h' := by
  refine .bind (.await _ a) fun up _ _ a => ?_
  split
  · refine .bind (.await _ a) fun ts _ _ a => .bind (a.sealRecord W e ts) fun x _ _ a => ?_
    cases x with
    | none => exact .pure _ a
    | some r => exact .bind (.modify ((a.decide e sid).conclude sid (eventId e) d)) fun _ _ _ a => .pure _ a
  · exact .pure _ a

theorem Alike.correlateOutcome (e : Event) (sid d : Str) :
    Act.Beside (Alike c n n') (correlateOutcome W c e sid d) (correlateOutcome W c e sid d) h h' := by
  refine .bind (.state (a.checkReplay e sid).1 (a.checkReplay e sid).2) fun x h h' a => ?_
  cases x with
  | some reason => exact .pure _ a
  | none =>
    refine .get_bind ?_
    have hany : (h.sessions sid).any (fun s => eventId e ∈ s.accepted) =
        (h'.sessions sid).any fun s => eventId e ∈ s.accepted := a.any sid fun s s' hs => by simp only [hs.accepted]
    dsimp only
    rw [hany]
    split
    -- the texts of the two may differ: a resumed host has forgotten which ids it rejected
    · exact .bind (.modify ((a.decide e sid).flag _ _ _ _)) fun _ _ _ a => .pure _ a
    · exact a.sealOutcome W e sid d

theorem Alike.recordOutcome (e : Event) (expected : Option Str) :
    Act.Beside (Alike c n n') (recordOutcome W c e expected) (recordOutcome W c e expected) h h' := by
  have hdecide : ∀ {h h'}, Alike c n n' h h' → ∀ sid,
      Act.Beside (Alike c n n') (decideOutcome W c e sid) (decideOutcome W c e sid) h h' := by
    intro h h' a sid
    refine .bind (a.canonically _) fun d h h' a => .get_bind ?_
    simp only [a.outcome sid (eventId e), a.sealedDigests d]
    split
    · exact .pure _ a
    · split
      · exact .bind (.modify ((a.decide e sid).flag _ _ _ _)) fun _ _ _ a => .pure _ a
      · exact a.correlateOutcome W e sid d
  refine .bind (a.settleTail W) fun settled _ _ a => ?_
  split
  · refine .bind (.state (a.admitEvent W e expected false).1 (a.admitEvent W e expected false).2) fun x _ _ a => ?_
    cases x with
    | error reason => exact .pure _ a
    | ok sid =>
      refine .bind (a.verifySignature e sid) fun x _ _ a => ?_
      cases x with
      | none => exact hdecide a sid
      | some reason => exact .pure _ a
  · exact .pure _ a

theorem Alike.closeSession (sid : Str) :
    Act.Beside (Alike c n n') (closeSession sid) (closeSession sid) h h' := by
  refine .get_bind ?_
  have hk := a.sessions sid
  generalize h.sessions sid = x at hk
  generalize h'.sessions sid = y at hk
  cases hk with
  | none => exact .pure _ a
  | some hs =>
    dsimp only
    rw [hs.unresolved]
    refine .modify (Alike.flagAll ?_ _ _)
    refine { a with sessions := fun k => ?_ }
    simp only [Function.update_apply]
    split
    · exact .none
    · exact a.sessions k

end Calls

/-! ## Later calls -/

/-- A call of a session's binding. -/
inductive Call
  | attempt (e : Event) (expected : Option Str) (deadline : Option Rat)
  | outcome (e : Event) (expected : Option Str)
  | close (sid : Str)

/-- What a call returns or raises. -/
inductive CallAnswer (W : World)
  | attempt (x : Except Raise (AttemptResponse W))
  | outcome (x : Except Raise OutcomeDisposition)
  | close (x : Except Raise Unit)

section Answers

variable (c) (W : World)

def Call.answer : Call → HostM (CallAnswer W)
  | .attempt e expected deadline => do
    let x ← Act.caught (handleAttempt W c e expected deadline)
    pure (.attempt x)
  | .outcome e expected => do
    let x ← Act.caught (recordOutcome W c e expected)
    pure (.outcome x)
  | .close sid => do
    let x ← Act.caught (closeSession sid)
    pure (.close x)

/-- The answers to calls, one after the other. -/
def answers : List Call → HostM (List (CallAnswer W))
  | [] => pure []
  | call :: calls => do
    let a ← call.answer c W
    let as ← answers calls
    pure (a :: as)

variable {c}

theorem Alike.answers (calls : List Call) : ∀ {h h' : Host}, Alike c n n' h h' →
    Act.Beside (Alike c n n') (answers c W calls) (answers c W calls) h h' := by
  induction calls with
  | nil => exact fun a => .pure _ a
  | cons call calls ih =>
    intro h h' a
    refine .bind ?_ fun _ _ _ a => .bind (ih a) fun _ _ _ a => .pure _ a
    cases call with
    | attempt e expected deadline => exact .bind (.caught (a.handleAttempt W e expected deadline)) fun _ _ _ a => .pure _ a
    | outcome e expected => exact .bind (.caught (a.recordOutcome W e expected)) fun _ _ _ a => .pure _ a
    | close sid => exact .bind (.caught (a.closeSession sid)) fun _ _ _ a => .pure _ a

end Answers

/-! ## Sessions given back -/

/-- `signer_tracker` (`host.py:472-485`); `keys` are the keys of `session.received`. -/
def Host.signerTracker (keys : List Str) (sid : Str) (h : Host) : Option SignerTracker :=
  (h.sessions sid).map fun s => ⟨s.decided, keys.filterMap fun k => (s.received k).map (k, ·)⟩

/-- Every session open on a host, and no other, each with its tracker. -/
structure Reopens (h : Host) (opens : List OpenSession) : Prop where
  entry : ∀ o ∈ opens, ∃ ss keys, h.sessions o.sessionId = some ss ∧ (∀ k, ss.received k ≠ none → k ∈ keys) ∧
    o.signers = h.signerTracker keys o.sessionId
  every : ∀ sid, (h.sessions sid).isSome = true → ∃ o ∈ opens, o.sessionId = sid

/-- A tracker holds what its session decided and received. -/
structure SignerTracker.Of (t : SignerTracker) (s : Session) : Prop where
  decided : ∀ m, m ∈ t.decided ↔ m ∈ s.decided
  received : ∀ k m, (k, m) ∈ t.received ↔ s.received k = some m

theorem signerTracker_of {keys : List Str} {sid : Str} {s : Session} (hs : h.sessions sid = some s)
    (hkeys : ∀ k, s.received k ≠ none → k ∈ keys) : ∃ t, h.signerTracker keys sid = some t ∧ t.Of s := by
  refine ⟨_, by rw [Host.signerTracker, hs]; rfl, fun _ => Iff.rfl, fun k m => ?_⟩
  simp only [List.mem_filterMap, Option.map_eq_some_iff, Prod.mk.injEq]
  constructor
  · rintro ⟨k', _, m', hm', rfl, rfl⟩
    exact hm'
  · intro hm
    exact ⟨k, hkeys k (by simp [hm]), m, hm, rfl, rfl⟩

/-! ### A session restored knows what the live one does -/

section Restored

variable {s u : Session}

theorem receiveMax_within (k : Str) (m : Int) : s.Within (s.receiveMax k m) ∧
    ∃ l, (s.receiveMax k m).received k = some l ∧ m ≤ l := by
  refine ⟨⟨List.Subset.refl _, fun k' m' hm' => ?_⟩, _, Function.update_self .., le_max_right _ _⟩
  simp only [Session.receiveMax, Function.update_apply]
  split
  · next heq =>
    subst heq
    exact ⟨_, rfl, by simp [hm']⟩
  · exact ⟨m', hm', le_refl _⟩

/-- A number received in `u` takes a session within `u` no further. -/
theorem within_receiveMax {k : Str} {m l : Int} (hs : s.Within u) (hl : u.received k = some l) (hml : m ≤ l) :
    (s.receiveMax k m).Within u := by
  refine ⟨hs.decided, fun k' m' hm' => ?_⟩
  simp only [Session.receiveMax, Function.update_apply] at hm'
  split at hm'
  · next heq =>
    subst heq
    refine ⟨l, hl, ?_⟩
    obtain rfl := Option.some.inj hm'
    cases hr : s.received k' with
    | none => simpa using hml
    | some i =>
      obtain ⟨j, hj, hij⟩ := hs.received k' i hr
      obtain rfl : l = j := Option.some.inj (hl.symm.trans hj)
      simpa using ⟨hij, hml⟩
  · exact hs.received k' m' hm'

theorem within_restoreSigner {e : Event} (hs : s.Within u) (hr : u.Received e) (hd : u.Decided e) :
    (s.restoreSigner e).Within u := by
  unfold Session.restoreSigner
  split
  · next k m hk hm =>
    obtain ⟨l, hl, hml⟩ := hr k m hk hm
    refine within_receiveMax ⟨fun p hp => ?_, hs.received⟩ hl hml
    rcases List.mem_insert_iff.1 hp with rfl | hp
    · exact hd k m hk hm
    · exact hs.decided hp
  · exact hs

/-- What each record restored keeps, a restored session has. -/
theorem restoredSession_keeps {W : World} {sid : Str} {P : Session → Prop} (rs : List SealedRecord)
    (hsigner : ∀ r ∈ rs, sessionId r.event = some sid → ∀ s : Session, P s → P (s.restoreSigner r.event))
    (haccept : ∀ (s : Session) id, P s → P { s with accepted := s.accepted.insert id })
    (hconclude : ∀ (s : Session) id d, P s → P (s.conclude id d)) :
    ∀ {s s' : Session}, P s → restoredSession W sid s rs = .ok s' → P s' := by
  induction rs with
  | nil =>
    rintro s s' hs ⟨⟩
    exact hs
  | cons r rs ih =>
    intro s s' hs hs'
    unfold restoredSession at hs'
    cases hrec : restoreRecord W sid s r with
    | error m => simp [hrec] at hs'
    | ok s₁ =>
      simp only [hrec] at hs'
      refine ih (fun a ha => hsigner a (List.mem_cons_of_mem r ha)) ?_ hs'
      simp only [restoreRecord] at hrec
      split at hrec
      · next hsid =>
        have hs₁ := hsigner r List.mem_cons_self hsid.1 s hs
        split at hrec
        · cases hrec
          exact haccept _ _ hs₁
        · split at hrec
          · cases hrec
          · cases hrec
            exact hconclude _ _ _ hs₁
      · cases hrec
        exact hs

/-- What the stored records restore lies within any session their numbers were received and decided in. -/
theorem restoredSession_within {W : World} {sid : Str} {rs : List SealedRecord} {s' : Session}
    (hknown : ∀ r ∈ rs, sessionId r.event = some sid → u.Received r.event ∧ u.Decided r.event)
    (hs : s.Within u) (hs' : restoredSession W sid s rs = .ok s') : s'.Within u := by
  refine @restoredSession_keeps W sid (·.Within u) rs ?_ ?_ ?_ s s' hs hs'
  · exact fun r hr hsid s hs => within_restoreSigner hs (hknown r hr hsid).1 (hknown r hr hsid).2
  · exact fun _ _ hs => ⟨hs.decided, hs.received⟩
  · exact fun _ _ _ hs => ⟨hs.decided, hs.received⟩

theorem restoredSession_nodup {W : World} {sid : Str} {rs : List SealedRecord} {s' : Session}
    (hs : s.accepted.Nodup) (hs' : restoredSession W sid s rs = .ok s') : s'.accepted.Nodup := by
  refine @restoredSession_keeps W sid (·.accepted.Nodup) rs ?_ ?_ ?_ s s' hs hs'
  · intro r _ _ s hs
    rw [(restoreSigner_le r.event s).accepted]
    exact hs
  · exact fun _ _ hs => hs.insert
  · exact fun _ _ _ hs => hs

theorem receiveAll_within (ms : List (Str × Int)) : ∀ s : Session,
    s.Within (ms.foldl (fun s m => s.receiveMax m.1 m.2) s) ∧
      ∀ m ∈ ms, ∃ l, (ms.foldl (fun s m => s.receiveMax m.1 m.2) s).received m.1 = some l ∧ m.2 ≤ l := by
  induction ms with
  | nil => exact fun s => ⟨.refl s, by simp⟩
  | cons m ms ih =>
    intro s
    obtain ⟨hstep, l, hl, hml⟩ := @receiveMax_within s m.1 m.2
    obtain ⟨hrest, hin⟩ := ih (s.receiveMax m.1 m.2)
    refine ⟨hstep.trans hrest, fun p hp => ?_⟩
    rcases List.mem_cons.1 hp with rfl | hp
    · obtain ⟨l', hl', hll'⟩ := hrest.received _ l hl
      exact ⟨l', hl', le_trans hml hll'⟩
    · exact hin p hp

theorem within_receiveAll (ms : List (Str × Int)) (hms : ∀ m ∈ ms, ∃ l, u.received m.1 = some l ∧ m.2 ≤ l) :
    ∀ {s : Session}, s.Within u → (ms.foldl (fun s m => s.receiveMax m.1 m.2) s).Within u := by
  induction ms with
  | nil => exact id
  | cons m ms ih =>
    intro s hs
    obtain ⟨l, hl, hml⟩ := hms m List.mem_cons_self
    exact ih (fun p hp => hms p (List.mem_cons_of_mem m hp)) (within_receiveMax hs hl hml)

theorem mem_insertAll {ms : List (Str × Int)} : ∀ {ds : List (Str × Int)} {m : Str × Int},
    m ∈ ms.foldl (fun d m => d.insert m) ds ↔ m ∈ ds ∨ m ∈ ms := by
  induction ms with
  | nil => simp
  | cons a ms ih =>
    intro ds m
    simp only [List.foldl_cons, ih, List.mem_insert_iff, List.mem_cons]
    tauto

/-- With a session's tracker, what lies within it becomes it. -/
theorem withSigners_within {t : SignerTracker} (ht : t.Of u) (hs : s.Within u) :
    (s.withSigners (some t)).Within u ∧ u.Within (s.withSigners (some t)) := by
  have hin : ∀ m ∈ t.received, ∃ l, u.received m.1 = some l ∧ m.2 ≤ l := by
    rintro ⟨k, m⟩ hm
    exact ⟨m, (ht.received k m).1 hm, le_refl m⟩
  obtain ⟨hgrown, hgot⟩ := receiveAll_within t.received { s with decided := t.decided.foldl (fun d m => d.insert m) s.decided }
  refine ⟨within_receiveAll _ hin ⟨fun m hm => ?_, hs.received⟩, fun m hm => hgrown.decided ?_, fun k m hm => ?_⟩
  · rcases mem_insertAll.1 hm with hm | hm
    · exact hs.decided hm
    · exact (ht.decided m).1 hm
  · exact mem_insertAll.2 (.inr ((ht.decided m).2 hm))
  · exact hgot (k, m) ((ht.received k m).2 hm)

/-- **A session restored.** From the records it was sealed in, and its tracker. -/
theorem restored_alike {W : World} {sid : Str} {rs : List SealedRecord} {t : SignerTracker} {s' : Session}
    (hl : Lifecycle W rs) (hsound : ∀ r ∈ rs, Sound W r) (hm : u.Mirrors W sid rs) (htidy : u.Tidy)
    (hknown : c.level = .l2 → ∀ r ∈ rs, sessionId r.event = some sid → u.Received r.event ∧ u.Decided r.event)
    (ht : t.Of u) (hs' : restoredSession W sid .new rs = .ok s') : u.Alike c (s'.withSigners (some t)) := by
  have hnew : Session.new.Mirrors W sid [] := .new fun r hr => by simp at hr
  obtain ⟨s₀, hs₀, hm₀⟩ := restoredSession_mirrors rs hnew hl hsound
  obtain rfl : s₀ = s' := Except.ok.inj (hs₀.symm.trans hs')
  have hm' := hm₀.le (withSigners_le s₀ (some t))
  have hacc : ∀ id, id ∈ u.accepted ↔ id ∈ (s₀.withSigners (some t)).accepted := fun id => by
    rw [hm.accepted, hm'.accepted, List.nil_append]
  have hout : u.outcomes = (s₀.withSigners (some t)).outcomes := by
    refine funext fun id => Option.ext fun d => ?_
    rw [hm.outcomes, hm'.outcomes, List.nil_append]
  have hsame : c.level = .l2 → u.Within (s₀.withSigners (some t)) ∧ (s₀.withSigners (some t)).Within u := by
    intro hl2
    have hstart : Session.new.Within u := ⟨by simp [Session.new], by simp [Session.new]⟩
    exact (withSigners_within ht (restoredSession_within (hknown hl2) hstart hs')).symm
  refine ⟨hacc, ⟨htidy.accepted, ?_⟩, fun id => ?_, hout, fun hl2 => ?_, fun hl2 => ?_⟩
  · rw [(withSigners_le s₀ (some t)).accepted]
    exact restoredSession_nodup (s := Session.new) List.nodup_nil hs'
  · rw [hm.resolved, hm'.resolved, hacc, hout]
  · exact ((hsame hl2).1.antisymm (hsame hl2).2).1
  · exact ((hsame hl2).1.antisymm (hsame hl2).2).2

end Restored

/-! ## A host restored -/

/-- The sessions a restart opens from the records of the store: those given, as `_restored_session` and their
trackers make them. -/
structure Reopened (W : World) (records : List SealedRecord) (opens : List OpenSession) (h : Host) : Prop where
  certain : h.tailUncertain = false
  session : ∀ sid ss, h.sessions sid = some ss → ∃ o ∈ opens, o.sessionId = sid ∧
    ∃ s, restoredSession W sid .new records = .ok s ∧ ss = s.withSigners o.signers
  opened : ∀ o ∈ opens, (h.sessions o.sessionId).isSome = true

section Resume

variable {W : World} {records s : List SealedRecord}

theorem restoreAll_reopened (rest : List OpenSession) : ∀ {done : List OpenSession} {h : Host},
    Reopened W records done h → (restoreAll W records rest).wp (.seq storeEnv)
      (fun x h' _ => x = .ok () → Reopened W records (done ++ rest) h') h s := by
  induction rest with
  | nil =>
    intro done h hr _
    rwa [List.append_nil]
  | cons o rest ih =>
    intro done h hr
    simp only [restoreAll, Act.wp_bind, Act.wp_modify, Act.next_ok]
    cases hs : restoredSession W o.sessionId .new records with
    | error m => rintro ⟨⟩
    | ok ss =>
      simp only [canonically, Act.wp_lift, Act.next_ok, Act.wp_bind, Act.wp_modify]
      rw [List.append_cons]
      refine ih ⟨hr.certain, fun sid ss' hss' => ?_, fun o' ho' => ?_⟩
      · simp only [Function.update_apply] at hss'
        split at hss'
        · next heq =>
          subst heq
          exact ⟨o, by simp, rfl, ss, hs, (Option.some.inj hss').symm⟩
        · obtain ⟨o', ho', hrest⟩ := hr.session sid ss' hss'
          exact ⟨o', List.mem_append_left _ ho', hrest⟩
      · simp only [Function.update_apply]
        split
        · rfl
        · next hne =>
          rcases List.mem_append.1 ho' with ho' | ho'
          · exact hr.opened o' ho'
          · exact absurd (congrArg OpenSession.sessionId (List.mem_singleton.1 ho')) hne

theorem resume_reopened (opens : List OpenSession) : (resume W opens).wp (.seq storeEnv)
    (fun x h' _ => x = .ok () → Reopened W s opens h') .new s := by
  simp only [resume, Act.wp_bind, Act.wp_await_seq]
  rintro x s' ⟨rfl, rfl | ⟨err, rfl⟩⟩
  · simp only [Act.next_ok, Act.wp_bind, Act.wp_modify]
    have hnone : Act.Keeps (.seq storeEnv) (fun h _ => h.tailUncertain = false ∧ h.sessions = fun _ => none)
        (rememberAll W s') := remembering_keeps (fun _ _ _ _ hh => hh) (fun _ _ _ hh => hh) s'
    refine Act.wp_mono ?_ (hnone _ s' ⟨rfl, rfl⟩)
    rintro (err | _) h s₁ ⟨htail, hsess⟩
    · rintro ⟨⟩
    · have hstart : Reopened W s' [] h := ⟨htail, by simp [hsess], by simp⟩
      simp only [Act.next_ok, Act.wp_bind]
      refine Act.wp_mono ?_ (restoreAll_reopened opens hstart)
      rintro (err | _) h' s₂ hr
      · rintro ⟨⟩
      · have hflags := (Host.Grows.flagAll (fun id => lit "host restarted with attempt " ++ id ++ lit " unresolved")
          ((openAttempts (opens.map (·.sessionId)) s').map Prod.snd) h')
        have hsame : ∀ detail ids (h : Host), (flagAll detail ids h).sessions = h.sessions := by
          intro detail ids
          induction ids with
          | nil => exact fun _ => rfl
          | cons id ids ih => exact fun h => ih _
        refine fun _ => ⟨hflags.tail.trans (hr rfl).certain, fun sid ss hss => ?_, fun o ho => ?_⟩
        · rw [flagUnresolved, hsame] at hss
          exact (hr rfl).session sid ss hss
        · rw [flagUnresolved, hsame]
          exact (hr rfl).opened o ho
  · rintro ⟨⟩

theorem storeEnv_total (s : List SealedRecord) : ∀ q, ∃ (x : Reply q) (s' : _), storeEnv s q x s'
  | .append _ => ⟨.error .repositoryError, s, .inr ⟨rfl, _, rfl⟩⟩
  | .loadTail => ⟨.ok s.getLast?, s, rfl, .inl rfl⟩
  | .readAll => ⟨.ok s, s, rfl, .inl rfl⟩
  | .currentTime => ⟨(0 : Rat), s, rfl⟩
  | .verify _ => ⟨(.ok none : Except Raise (Option RejectReason)), s, rfl⟩
  | .sign _ => ⟨(.ok [] : Except Raise Str), s, rfl⟩
  | .clockNow => ⟨([] : Str), s, rfl⟩
  | .persistenceAvailable => ⟨true, s, rfl⟩

/-- A restart over a store whose read succeeds completes. -/
theorem resume_completes (hst : Restorable W s) (opens : List OpenSession) :
    ∃ h', Runs storeEnv (resume W opens .new) s (.ok (), h') s := by
  let rest : HostM Unit := do
    Act.modify fun h => { h with ledger := Ledger.resumeFrom s.getLast? }
    rememberAll W s
    restoreAll W s opens
    Act.modify (flagUnresolved (opens.map (·.sessionId)) s)
  obtain ⟨⟨x, h'⟩, s', hrun⟩ := runs_total storeEnv_total (rest .new) s
  have hw : rest.wp (.seq storeEnv) (fun x _ s' => x = .ok () ∧ s' = s) .new s := by
    have hstart : Restoring W { Host.new with ledger := Ledger.resumeFrom s.getLast? } s [] :=
      { attempts := by simp [Host.new], digests := by simp [Host.new], issued := by simp,
        openIssued := by simp [Host.new], sessions := by simp [Host.new], ledger := rfl, tail := rfl }
    simp only [rest, Act.wp_bind, Act.wp_modify, Act.next_ok]
    refine Act.wp_mono ?_ (rememberAll_wp s hstart hst.lifecycle hst.sound)
    rintro x h s₂ ⟨rfl, rfl, hrem⟩
    simp only [Act.next_ok, Act.wp_bind]
    refine Act.wp_mono ?_ (restoreAll_wp hst.lifecycle hst.sound opens hrem)
    rintro x h s₃ ⟨rfl, rfl, _⟩
    exact ⟨rfl, rfl⟩
  obtain ⟨rfl, rfl⟩ := Act.wp_runs hw hrun
  refine ⟨h', ?_⟩
  simp only [resume, Act.await_bind_apply]
  exact .ask ⟨rfl, .inl rfl⟩ hrun

end Resume

/-- **A host restored.** From a store it mirrors, its open sessions given back with their trackers. -/
theorem reopened_alike {W : World} {s : List SealedRecord} {opens : List OpenSession} (hm : Mirrors W h s)
    (ht : Tracks c none h s) (ho : Reopens h opens) (hm' : Mirrors W h' s) (hr : Reopened W s opens h') :
    Alike c h.anomalies.length h'.anomalies.length h h' where
  count := hm.ledger.1.trans hm'.ledger.1.symm
  tailHash := hm.ledger.2.trans hm'.ledger.2.symm
  tailUncertain := ht.certain.trans hr.certain.symm
  sealedAttempts := by
    refine funext fun id => Option.ext fun r => ?_
    rw [hm.attempts, hm'.attempts]
  sealedDigests d := by rw [hm.digests, hm'.digests]
  sessions sid := by
    cases hs' : h'.sessions sid with
    | none =>
      cases hs : h.sessions sid with
      | none => exact .none
      | some ss =>
        obtain ⟨o, hin, rfl⟩ := ho.every sid (by rw [hs]; rfl)
        have hopen := hr.opened o hin
        rw [hs'] at hopen
        cases hopen
    | some ss' =>
      obtain ⟨o, hin, rfl, s₀, hs₀, rfl⟩ := hr.session sid ss' hs'
      obtain ⟨ss, keys, hss, hkeys, hsigners⟩ := ho.entry o hin
      obtain ⟨t, htrack, hof⟩ := signerTracker_of hss hkeys
      rw [hss, hsigners, htrack]
      refine .some (restored_alike hm.lifecycle hm.sound (hm.sessions _ ss hss) (ht.tidy _ ss hss) ?_ hof hs₀)
      exact fun hl r hr hsid => ⟨ht.received hl r hr _ ss hsid hss, ht.decided hl r hr _ ss hsid hss (by simp)⟩
  earlier := ⟨le_refl _, le_refl _⟩
  noted := by simp [anomaliesFrom]

/-- A host's open sessions and their trackers, listed. -/
theorem reopens_exists {W : World} {s : List SealedRecord} (hm : Mirrors W h s) (ht : Tracks c none h s) :
    ∃ opens, Reopens h opens := by
  have hkeys : ∀ sid, ∃ keys : List Str, ∀ ss, h.sessions sid = some ss → ∀ k, ss.received k ≠ none → k ∈ keys := by
    intro sid
    cases hs : h.sessions sid with
    | none => exact ⟨[], by simp⟩
    | some ss =>
      obtain ⟨keys, hin⟩ := (ht.tidy sid ss hs).received
      refine ⟨keys, fun ss' hss' => ?_⟩
      obtain rfl := Option.some.inj hss'
      exact hin
  choose keys hkeys using hkeys
  refine ⟨(h.issued.filter fun sid => (h.sessions sid).isSome).map fun sid => ⟨sid, h.signerTracker (keys sid) sid⟩, ?_, ?_⟩
  · intro o ho
    obtain ⟨sid, hin, rfl⟩ := List.mem_map.1 ho
    obtain ⟨ss, hss⟩ := Option.isSome_iff_exists.1 (List.mem_filter.1 hin).2
    exact ⟨ss, keys sid, hss, hkeys sid ss hss, rfl⟩
  · intro sid hopen
    exact ⟨_, List.mem_map.2 ⟨sid, List.mem_filter.2 ⟨hm.openIssued sid hopen, hopen⟩, rfl⟩, rfl⟩

/-! ## Restart transparency -/

/-- Whatever the environment, one host can answer calls as the other does, leave the environment (the store
in it) as the other does, and note the same new anomalies. -/
def Follows (W : World) (c : Config) (h h' : Host) : Prop :=
  ∀ (σ : Type) (env : σ → (q : Query) → Reply q → σ → Prop) (calls : List Call) (t t' : σ)
    (x : Except Raise (List (CallAnswer W))) (h₁ : Host), Runs env (answers c W calls h) t (x, h₁) t' →
    ∃ h₁', Runs env (answers c W calls h') t (x, h₁') t' ∧
      anomaliesFrom h.anomalies.length h₁ = anomaliesFrom h'.anomalies.length h₁'

theorem Alike.follows {W : World} (a : Alike c h.anomalies.length h'.anomalies.length h h') :
    Follows W c h h' ∧ Follows W c h' h := by
  constructor
  · intro σ env calls t t' x h₁ hrun
    obtain ⟨⟨x', h₁'⟩, hrun', hx, ha⟩ := (a.answers W calls).runs hrun
    obtain rfl : x = x' := hx
    exact ⟨h₁', hrun', ha.noted⟩
  · intro σ env calls t t' x h₁' hrun
    obtain ⟨⟨x', h₁⟩, hrun', hx, ha⟩ := (a.answers W calls).flip.runs hrun
    obtain rfl : x' = x := hx
    exact ⟨h₁, hrun', ha.noted.symm⟩

/-- **Restart transparency.** At any point between two operations of a host that started over an empty store,
none of its failures ambiguous, its open sessions can be listed with their trackers, and resuming from the
store with them gives a host that answers every later sequence of calls alike: the same responses, the
same new anomalies, the same store, each following the other in every environment. -/
theorem restart_transparent {W : World} (hj : JcsSpec W.dumps InDomain) (hrepo : c.hasRepository = true)
    {s : List SealedRecord} (hr : Relation.ReflTransGen (Operated W c) (.new, []) (h, s)) :
    (∃ opens, Reopens h opens) ∧ ∀ opens, Reopens h opens →
      (∃ h', Runs storeEnv (resume W opens .new) s (.ok (), h') s) ∧
      ∀ h' s', Runs storeEnv (resume W opens .new) s (.ok (), h') s' →
        s' = s ∧ Follows W c h h' ∧ Follows W c h' h := by
  obtain ⟨hm, ht⟩ := operated_tracks hj hrepo hr
  have hst : Restorable W s := ⟨hm.chain, hm.lifecycle, hm.sound⟩
  refine ⟨reopens_exists hm ht, fun opens ho => ⟨resume_completes hst opens, fun h' s' hrun => ?_⟩⟩
  obtain ⟨hsame, hc⟩ := resume_consistent (onlyStore_fair c) hrepo (s := s) hst hrun
  obtain rfl : s' = s := hsame
  exact ⟨rfl, (reopened_alike hm ht ho (hc rfl).mirrors (Act.wp_runs (resume_reopened opens) hrun rfl)).follows⟩

/-- A host that sealed the sample attempt, and one resumed in its place. -/
theorem restart_transparent_one : ∃ h opens h',
    Relation.ReflTransGen (Operated reference sampleConfig) (.new, []) (h, [sampleRecord]) ∧ Reopens h opens ∧
      Runs storeEnv (resume reference opens .new) [sampleRecord] (.ok (), h') [sampleRecord] ∧
      Follows reference sampleConfig h h' ∧ Follows reference sampleConfig h' h := by
  obtain ⟨_, h, hrun⟩ := @sample_accepted_in steadyEnv ⟨rfl, trivial⟩ ⟨rfl, trivial⟩ ⟨.inl rfl, rfl⟩
  have hopen : Relation.ReflTransGen (Operated reference sampleConfig) (.new, []) (sampleHost, []) :=
    .single ⟨.openSession SAMPLE_SESSION, _, sampleHost_opens []⟩
  have hseal : Operated reference sampleConfig (sampleHost, []) (h, [sampleRecord]) :=
    ⟨.attempt sampleAttempt none none, .ok (), Act.runs_bind hrun (.ret _ _)⟩
  have hreach := hopen.tail hseal
  obtain ⟨⟨opens, ho⟩, hall⟩ := restart_transparent reference_jcs rfl hreach
  obtain ⟨⟨h', hresume⟩, hfollow⟩ := hall opens ho
  exact ⟨h, opens, h', hreach, ho, hresume, (hfollow h' _ hresume).2⟩

end AuditableMcp
