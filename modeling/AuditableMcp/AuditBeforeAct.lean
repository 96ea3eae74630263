import AuditableMcp.Session
import AuditableMcp.Reference
/-!
# Audit before act

An action run alone, by its deeds: what it handed to `send_attempt` and `send_outcome`, and whether its body
ran (`Deed`). Around it a clock that gives timestamps, a signer that stamps, a verifier that answers a function
of what it is given, no cancellation, and a transport that does anything but misuse the SDK (`Working`).
`Cleared` says when the action may be performed, `refusal` why it may not, in the order of §7.2.
-/
namespace AuditableMcp

open JsonValue Effect

variable {W : World}

inductive Deed (W : World)
  | attempt (event : Event) (reply : Except ToolRaise (AttemptResponse W))
  | outcome (event : Event)
  | body

/-- What an exchange adds to the deeds. -/
def deed : (q : ToolQuery) → ToolReply W q → List (Deed W)
  | .sendAttempt e, x => [.attempt e x]
  | .sendOutcome e, _ => [.outcome e]
  | .body, _ => [.body]
  | .now, _ => []
  | .take _, _ => []
  | .leave _ _, _ => []
  | .sign _ _ _, _ => []
  | .verify _ _ _, _ => []

/-- A verifier's answer to a key, a signature and a payload. -/
abbrev Answer : Type := Str → Str → Str → Verification

/-- The answers of working surroundings; the transport's are its own. -/
def Working (answer : Answer) : (q : ToolQuery) → ToolReply W q → Prop
  | .now, ts => isTimestamp W ts = true
  | .take _, x => ∃ n, x = .ok n
  | .leave _ _, _ => True
  | .sign key e n, x =>
    ∃ signature, x = .ok (stamp e key n signature) ∧ (InDomain (.obj e) → InDomain (.obj (stamp e key n signature)))
  | .sendAttempt _, x => x ≠ .error .cancelled ∧ x ≠ .error .usageError
  | .sendOutcome _, x => x ≠ .error .cancelled
  | .verify key signature payload, x => x = .ok (answer key signature payload)
  | .body, _ => True

/-- Working surroundings that keep the deeds. -/
def witnessed (answer : Answer) (d : List (Deed W)) (q : ToolQuery) (x : ToolReply W q) (d' : List (Deed W)) : Prop :=
  Working answer q x ∧ d' = d ++ deed q x

/-! ## When an action may be performed -/

/-- The verifier's answer over the payload of a response's own fields. -/
def answered (answer : Answer) (W : World) (r : AcceptFields) (signature : Str) : Verification :=
  match r.hostKeyId, r.logId with
  | some key, some log =>
    match countersignaturePayload W (.int r.seq) (.str r.hostTs) (.str log) (.str r.previousHash) (.str r.recordHash) with
    | .ok payload => answer key signature payload
    | .error _ => .failed
  | _, _ => .failed

/-- An accept that clears its attempt. -/
structure Cleared (answer : Answer) (s : AmcpSession) (attempt : Event) (r : AcceptResponse W) : Prop where
  countersigned : s.requireCountersign = true → r.1.hostSignature.isSome = true
  verified : s.hasVerifier = true → ∀ signature, r.1.hostSignature = some signature →
    answered answer W r.1 signature = .verified
  recorded : s.pollutedStop = true →
    computeRecordHash W (.obj attempt) (.int r.1.seq) (.str r.1.hostTs) (.str r.1.previousHash) = .ok r.1.recordHash

/-- The reply that lets the body run. -/
def Clears (answer : Answer) (s : AmcpSession) (attempt : Event) (x : Except ToolRaise (AttemptResponse W)) : Prop :=
  ∃ r, x = .ok (.accept r) ∧ Cleared answer s attempt r

/-- What its countersignature holds against an accept. -/
def countersignatureRefusal (answer : Answer) (s : AmcpSession) (W : World) (r : AcceptFields) : Option Reason :=
  if s.requireCountersign = true ∧ r.hostSignature = none then some .hostUncountersigned
  else match r.hostSignature, s.hasVerifier with
    | some signature, true =>
      match answered answer W r signature with
      | .unavailable => some .hostUnavailable
      | .failed => some .hostSignatureInvalid
      | .verified => none
    | _, _ => none

/-- What its `record_hash` holds against it. -/
def hashRefusal (s : AmcpSession) (attempt : Event) (W : World) (r : AcceptFields) : Option Reason :=
  if s.pollutedStop = true ∧
      computeRecordHash W (.obj attempt) (.int r.seq) (.str r.hostTs) (.str r.previousHash) ≠ .ok r.recordHash then
    some .hashMismatch
  else none

/-- Why a reply does not let the body run. -/
def refusal (answer : Answer) (s : AmcpSession) (attempt : Event) :
    Except ToolRaise (AttemptResponse W) → Option Reason
  | .error _ => some .hostUnavailable
  | .ok .unavailable => some .hostUnavailable
  | .ok (.reject _) => some .hostRejected
  | .ok (.accept r) => (countersignatureRefusal answer s W r.1).or (hashRefusal s attempt W r.1)

theorem countersignatureRefusal_eq_none {answer : Answer} {s : AmcpSession} {r : AcceptFields} :
    countersignatureRefusal answer s W r = none ↔
      (s.requireCountersign = true → r.hostSignature.isSome = true) ∧
      (s.hasVerifier = true → ∀ signature, r.hostSignature = some signature →
        answered answer W r signature = .verified) := by
  unfold countersignatureRefusal
  cases hsig : r.hostSignature with
  | none => by_cases hreq : s.requireCountersign = true <;> simp [hreq]
  | some signature =>
    cases hv : s.hasVerifier with
    | false => simp
    | true => cases ha : answered answer W r signature <;> simp [ha]

theorem hashRefusal_eq_none {s : AmcpSession} {attempt : Event} {r : AcceptFields} :
    hashRefusal s attempt W r = none ↔ (s.pollutedStop = true →
      computeRecordHash W (.obj attempt) (.int r.seq) (.str r.hostTs) (.str r.previousHash) = .ok r.recordHash) := by
  rw [hashRefusal, ite_eq_right_iff]
  constructor
  · intro h hs
    by_contra hne
    exact nomatch h ⟨hs, hne⟩
  · rintro h ⟨hs, hne⟩
    exact absurd (h hs) hne

theorem acceptRefusal_eq_none {answer : Answer} {s : AmcpSession} {attempt : Event} {r : AcceptResponse W} :
    (countersignatureRefusal answer s W r.1).or (hashRefusal s attempt W r.1) = none ↔
      Cleared answer s attempt r := by
  rw [Option.or_eq_none_iff, countersignatureRefusal_eq_none, hashRefusal_eq_none]
  exact ⟨fun h => ⟨h.1.1, h.1.2, h.2⟩, fun h => ⟨⟨h.1, h.2⟩, h.3⟩⟩

/-- A reply lets the body run exactly where there is no reason against it. -/
theorem refusal_eq_none {answer : Answer} {s : AmcpSession} {attempt : Event}
    {x : Except ToolRaise (AttemptResponse W)} : refusal answer s attempt x = none ↔ Clears answer s attempt x := by
  unfold Clears
  rcases x with e | r | _ | _
  · simp [refusal]
  · simp only [refusal, acceptRefusal_eq_none, Except.ok.injEq, AttemptResponse.accept.injEq, exists_eq_left']
  · simp [refusal]
  · simp [refusal]

/-- The host-assigned fields of an accept are inside the domain: nothing is hashed in vain. -/
theorem AcceptResponse.inDomain (r : AcceptResponse W) : InDomain (.int r.1.seq) ∧ InDomain (.str r.1.hostTs) ∧
    InDomain (.str r.1.previousHash) ∧ InDomain (.str r.1.recordHash) ∧
      ∀ log, r.1.logId = some log → InDomain (.str log) := by
  obtain ⟨f, hf⟩ := r
  simp only [AcceptFields.valid, Bool.and_eq_true, decide_eq_true_eq, List.all_eq_true, Option.all_eq_true,
    Bool.not_eq_eq_eq_not, Bool.not_true] at hf
  obtain ⟨⟨⟨⟨⟨⟨⟨⟨⟨h0, h1⟩, _⟩, _⟩, _⟩, _⟩, _⟩, _⟩, hs⟩, _⟩ := hf
  have hscalar : ∀ o ∈ [some f.recordHash, some f.hostTs, some f.previousHash, f.hostSignature, f.hostKeyId, f.logId],
      ∀ t, o = some t → InDomain (.str t) := fun o ho t ht => inDomain_str.2 (hs o ho t ht)
  have hseq : f.seq.natAbs ≤ MAX_SAFE_INTEGER := by omega
  refine ⟨inDomain_int.2 hseq, ?_, ?_, ?_, ?_⟩
  · exact hscalar (some f.hostTs) (by simp) _ rfl
  · exact hscalar (some f.previousHash) (by simp) _ rfl
  · exact hscalar (some f.recordHash) (by simp) _ rfl
  · exact fun log hl => hscalar f.logId (by simp) log hl

theorem AcceptResponse.payload_ok (r : AcceptResponse W) {log : Str} (hl : r.1.logId = some log) :
    ∃ p, countersignaturePayload W (.int r.1.seq) (.str r.1.hostTs) (.str log) (.str r.1.previousHash)
      (.str r.1.recordHash) = .ok p := by
  obtain ⟨hseq, hts, hprev, hhash, hlog⟩ := r.inDomain
  refine ⟨_, canonicalize_ok (inDomain_obj.2 ?_)⟩
  have hk : (lit "host_ts").any isSurrogate = false ∧ (lit "log_id").any isSurrogate = false ∧
      (lit "previous_hash").any isSurrogate = false ∧ (lit "record_hash").any isSurrogate = false ∧
      (lit "seq").any isSurrogate = false := by decide
  simp [hk, hseq, hts, hprev, hhash, hlog log hl, -List.any_eq_false]

theorem AcceptResponse.recordHash_ok (r : AcceptResponse W) {attempt : Event} (h : InDomain (.obj attempt)) :
    ∃ t, computeRecordHash W (.obj attempt) (.int r.1.seq) (.str r.1.hostTs) (.str r.1.previousHash) = .ok t := by
  obtain ⟨hseq, hts, hprev, _⟩ := r.inDomain
  exact ⟨_, computeRecordHash_eq_ok.2 ⟨inDomain_preimage.2 ⟨h, hts, hprev, hseq⟩, rfl⟩⟩

/-! ## What an action emits -/

/-- An event of the action as it is sent: stamped where its session signs. -/
def AuditedAction.Emits (a : AuditedAction) (o : Outcome) (reason : Option Reason) (e : Event) : Prop :=
  ∃ ts, match a.session.signer with
    | none => e = a.wire o reason ts
    | some key => ∃ n signature, e = stamp (a.wire o reason ts) key n signature

/-- What is read of an event is read of it stamped. -/
theorem AuditedAction.Emits.get {a : AuditedAction} {o : Outcome} {reason : Option Reason} {e : Event}
    (h : a.Emits o reason e) {k : Str} {v : Json} (hv : ∀ ts, get (a.wire o reason ts) k = some v) :
    get e k = some v := by
  obtain ⟨ts, h⟩ := h
  split at h
  · rw [h]
    exact hv ts
  · obtain ⟨n, signature, rfl⟩ := h
    exact get_stamp (hv ts)

theorem AuditedAction.Emits.id {a : AuditedAction} {o : Outcome} {reason : Option Reason} {e : Event}
    (h : a.Emits o reason e) : JsonValue.get e ID = some (.str a.id) := h.get fun ts => a.wire_id o reason ts

theorem AuditedAction.Emits.outcome {a : AuditedAction} {o : Outcome} {reason : Option Reason} {e : Event}
    (h : a.Emits o reason e) : JsonValue.get e OUTCOME = some (.str o.text) :=
  h.get fun ts => a.wire_outcome o reason ts

theorem AuditedAction.Emits.reason {a : AuditedAction} {o : Outcome} {reason : Reason} {e : Event}
    (h : a.Emits o (some reason) e) : JsonValue.get e REASON = some (.str reason.text) :=
  h.get fun ts => a.wire_reason o (some reason) ts

/-! ## The action, part by part -/

section Parts

variable {answer : Answer} {a : AuditedAction} {l : Option (AcceptResponse W)} {d : List (Deed W)}

/-- An action whose event is valid, and inside the domain. -/
structure Describes (W : World) (a : AuditedAction) : Prop where
  valid : ∃ ts, validAuditEvent W (.obj (a.wire .attempted none ts)) = true
  domain : ∃ ts, InDomain (.obj (a.wire .attempted none ts))

theorem wp_numbering {α : Type} {s : AmcpSession} {m : Option Nat → ToolM W α}
    {P : Except ToolRaise α → Option (AcceptResponse W) → List (Deed W) → Prop}
    (h : ∀ n, (s.signer.isSome = true → n.isSome = true) → Act.wp (.seq (witnessed answer)) (m n) P l d) :
    Act.wp (.seq (witnessed answer)) (numbering s m) P l d := by
  unfold numbering
  split
  · next hs => exact h none (by simp [hs])
  · simp only [Act.wp_bind, Act.wp_await_seq]
    rintro x d' ⟨⟨n, rfl⟩, rfl⟩
    rw [deed, List.append_nil]
    simp only [Act.next_ok, Act.wp_lift, Act.wp_bind, Act.wp_caught]
    refine Act.wp_mono ?_ (h (some n) fun _ => rfl)
    intro x l d' hP
    cases x with
    | ok y =>
      simp only [Act.next_ok, Act.wp_bind, Act.wp_await_seq, Act.wp_pure]
      rintro _ d'' ⟨_, rfl⟩
      rw [deed, List.append_nil]
      exact hP
    | error e =>
      simp only [Act.next_ok, Act.wp_bind, Act.wp_await_seq, Act.wp_raise]
      rintro _ d'' ⟨_, rfl⟩
      rw [deed, List.append_nil]
      exact hP

theorem wp_build {o : Outcome} {n : Option Nat} {reason : Option Reason}
    {P : Except ToolRaise Event → Option (AcceptResponse W) → List (Deed W) → Prop} (ha : Describes W a)
    (hn : a.session.signer.isSome = true → n.isSome = true)
    (habort : o = .aborted → reason.isSome = true) (hreason : ∀ x ∈ reason, x ∈ abortReasons)
    (h : ∀ e, a.Emits o reason e → InDomain (.obj e) → P (.ok e) l d) :
    Act.wp (.seq (witnessed answer)) (a.build o n reason) P l d := by
  obtain ⟨⟨ts₀, hvalid⟩, ts₁, hdomain⟩ := ha
  unfold AuditedAction.build
  simp only [Act.wp_bind, Act.wp_await_seq]
  rintro ts d' ⟨hts, rfl⟩
  rw [deed, List.append_nil, Act.next_ok, if_pos (AuditedAction.valid_wire hvalid hts habort hreason)]
  simp only [Working, isTimestamp, Bool.and_eq_true, Bool.not_eq_true'] at hts
  have hdom : InDomain (.obj (a.wire o reason ts)) := AuditedAction.inDomain_wire hdomain hts.2
  unfold stampWith
  split
  · next key n hs =>
    simp only [Act.wp_bind, Act.wp_await_seq]
    rintro x d' ⟨⟨signature, rfl, hstamp⟩, rfl⟩
    rw [deed, List.append_nil]
    exact h _ ⟨ts, by rw [hs]; exact ⟨n, signature, rfl⟩⟩ (hstamp hdom)
  · next hs =>
    refine h _ ⟨ts, ?_⟩ hdom
    cases hk : a.session.signer with
    | none => rfl
    | some key =>
      obtain ⟨m, rfl⟩ := Option.isSome_iff_exists.1 (hn (by rw [hk]; rfl))
      exact (hs key m hk rfl).elim

theorem wp_swallow {m : ToolM W Unit} {P : Except ToolRaise Unit → Option (AcceptResponse W) → List (Deed W) → Prop}
    (h : Act.wp (.seq (witnessed answer)) m (fun x l d => x ≠ .error .cancelled ∧ P (.ok ()) l d) l d) :
    Act.wp (.seq (witnessed answer)) (AuditedAction.swallow m) P l d := by
  unfold AuditedAction.swallow
  simp only [Act.wp_bind, Act.wp_caught]
  refine Act.wp_mono ?_ h
  rintro x l d ⟨hx, hP⟩
  rw [Act.next_ok]
  split
  · exact (hx rfl).elim
  · exact hP

theorem wp_emit {o : Outcome} {reason : Option Reason}
    {P : Except ToolRaise Unit → Option (AcceptResponse W) → List (Deed W) → Prop} (ha : Describes W a)
    (habort : o = .aborted → reason.isSome = true) (hreason : ∀ x ∈ reason, x ∈ abortReasons)
    (h : ∀ e, a.Emits o reason e → ∀ x, x ≠ .error .cancelled → P x l (d ++ [.outcome e])) :
    Act.wp (.seq (witnessed answer)) (a.emit o reason) P l d := by
  refine wp_numbering fun n hn => ?_
  rw [Act.wp_bind]
  refine wp_build ha hn habort hreason fun e he _ => ?_
  simp only [Act.next_ok, Act.wp_bind, Act.wp_await_seq]
  rintro x d' ⟨hx, rfl⟩
  exact h e he x hx

theorem wp_abort {reason : Reason} {P : Except ToolRaise Unit → Option (AcceptResponse W) → List (Deed W) → Prop}
    (ha : Describes W a) (hreason : reason ∈ abortReasons)
    (h : ∀ e, a.Emits .aborted (some reason) e →
      P (.error (.aborted a.actionType a.target.ref reason)) l (d ++ [.outcome e])) :
    Act.wp (.seq (witnessed answer)) (a.abort reason) P l d := by
  unfold AuditedAction.abort AuditedAction.emitAbortedBestEffort
  rw [Act.wp_bind]
  refine wp_swallow (wp_emit ha (fun _ => rfl) (by rintro _ ⟨⟩; exact hreason) fun e he x hx => ⟨hx, ?_⟩)
  exact h e he

/-- The attempt's section: an attempt goes out, and what the transport does comes back, a fault as none. -/
theorem wp_sendAttempt {P : Except ToolRaise (Event × Option (AttemptResponse W)) → Option (AcceptResponse W) →
      List (Deed W) → Prop} (ha : Describes W a)
    (h : ∀ e, a.Emits .attempted none e → InDomain (.obj e) → ∀ x, P (.ok (e, x.toOption)) l (d ++ [.attempt e x])) :
    Act.wp (.seq (witnessed answer)) (numbering a.session a.sendAttempt) P l d := by
  refine wp_numbering fun n hn => ?_
  unfold AuditedAction.sendAttempt
  rw [Act.wp_bind]
  refine wp_build ha hn (fun h => nomatch h) (fun _ h => nomatch h) fun e he hdom => ?_
  simp only [Act.next_ok, Act.wp_bind, Act.wp_await_seq]
  rintro x d' ⟨⟨hc, hu⟩, rfl⟩
  have hx := h e he hdom x
  split
  · exact hx
  · exact (hc rfl).elim
  · exact (hu rfl).elim
  · exact hx

theorem wp_verification {r : AcceptResponse W} {signature : Str}
    {P : Except ToolRaise Verification → Option (AcceptResponse W) → List (Deed W) → Prop}
    (h : P (.ok (answered answer W r.1 signature)) l d) :
    Act.wp (.seq (witnessed answer)) (AuditedAction.verification r.1 signature) P l d := by
  unfold AuditedAction.verification
  unfold answered at h
  split
  · next key log hk hl =>
    obtain ⟨p, hp⟩ := r.payload_ok hl
    simp only [hk, hl, hp] at h
    simp only [hp, orFault, Act.wp_bind, Act.wp_lift, Act.next_ok, Act.wp_await_seq]
    rintro x d' ⟨rfl, rfl⟩
    rw [deed, List.append_nil]
    exact h
  · next hn =>
    refine Act.wp_pure _ |>.2 ?_
    split at h
    · next key log hk hl => exact (hn key log hk hl).elim
    · exact h

theorem wp_checkCountersignature {r : AcceptResponse W}
    {P : Except ToolRaise Unit → Option (AcceptResponse W) → List (Deed W) → Prop} (ha : Describes W a)
    (habort : ∀ reason e, countersignatureRefusal answer a.session W r.1 = some reason →
      a.Emits .aborted (some reason) e → P (.error (.aborted a.actionType a.target.ref reason)) l (d ++ [.outcome e]))
    (hpass : countersignatureRefusal answer a.session W r.1 = none → P (.ok ()) l d) :
    Act.wp (.seq (witnessed answer)) (a.checkCountersignature r.1) P l d := by
  unfold AuditedAction.checkCountersignature
  unfold countersignatureRefusal at habort hpass
  split
  · next hcs =>
    rw [if_pos hcs] at habort
    exact wp_abort ha (by decide) fun e he => habort _ e rfl he
  · next hcs =>
    rw [if_neg hcs] at habort hpass
    cases hsig : r.1.hostSignature with
    | none =>
      simp only [hsig] at hpass
      exact hpass trivial
    | some signature =>
      cases hv : a.session.hasVerifier with
      | false =>
        simp only [hsig, hv] at hpass
        exact hpass trivial
      | true =>
        simp only [hsig, hv] at habort hpass ⊢
        rw [Act.wp_bind]
        refine wp_verification ?_
        rw [Act.next_ok]
        cases hans : answered answer W r.1 signature with
        | verified =>
          simp only [hans] at hpass
          exact hpass trivial
        | failed =>
          simp only [hans] at habort
          exact wp_abort ha (by decide) fun e he => habort _ e rfl he
        | unavailable =>
          simp only [hans] at habort
          exact wp_abort ha (by decide) fun e he => habort _ e rfl he

theorem wp_checkRecordHash {attempt : Event} {r : AcceptResponse W}
    {P : Except ToolRaise Unit → Option (AcceptResponse W) → List (Deed W) → Prop} (ha : Describes W a)
    (hdom : InDomain (.obj attempt))
    (habort : ∀ reason e, hashRefusal a.session attempt W r.1 = some reason →
      a.Emits .aborted (some reason) e → P (.error (.aborted a.actionType a.target.ref reason)) l (d ++ [.outcome e]))
    (hpass : hashRefusal a.session attempt W r.1 = none → P (.ok ()) l d) :
    Act.wp (.seq (witnessed answer)) (a.checkRecordHash attempt r.1) P l d := by
  unfold AuditedAction.checkRecordHash
  unfold hashRefusal at habort hpass
  obtain ⟨t, ht⟩ := r.recordHash_ok hdom
  rw [ht] at habort hpass
  split
  · next hs =>
    rw [ht, orFault, Act.wp_bind, Act.wp_lift, Act.next_ok]
    by_cases hr : t = r.1.recordHash
    · rw [if_neg (by simp [hr])]
      exact hpass (if_neg (by simp [hr]))
    · rw [if_pos (by simp [hr])]
      exact wp_abort ha (by decide) fun e he => habort _ e (if_pos ⟨hs, by simp [hr]⟩) he
  · next hs => exact hpass (if_neg (by simp [hs]))

/-- `__aenter__`: an attempt goes out, and it returns where the reply clears it. Elsewhere one aborted outcome of
the same action goes out, with the reason it raises. -/
theorem wp_aenter {P : Except ToolRaise Unit → Option (AcceptResponse W) → List (Deed W) → Prop}
    (ha : Describes W a)
    (habort : ∀ attempt x reason e l, a.Emits .attempted none attempt → InDomain (.obj attempt) →
      refusal answer a.session attempt x = some reason → a.Emits .aborted (some reason) e →
      P (.error (.aborted a.actionType a.target.ref reason)) l (d ++ [.attempt attempt x, .outcome e]))
    (hclear : ∀ attempt x l, a.Emits .attempted none attempt → InDomain (.obj attempt) →
      refusal answer a.session attempt x = none → P (.ok ()) l (d ++ [.attempt attempt x])) :
    Act.wp (.seq (witnessed answer)) a.aenter P l d := by
  unfold AuditedAction.aenter
  rw [Act.wp_bind]
  refine wp_sendAttempt ha fun attempt he hdom x => ?_
  have habort' : ∀ reason e l, refusal answer a.session attempt x = some reason → a.Emits .aborted (some reason) e →
      P (.error (.aborted a.actionType a.target.ref reason)) l ((d ++ [.attempt attempt x]) ++ [.outcome e]) := by
    intro reason e l hr hab
    rw [List.append_assoc]
    exact habort attempt x reason e l he hdom hr hab
  rw [Act.next_ok]
  rcases x with x | r | r | _
  · exact wp_abort ha (by decide) fun e => habort' _ e l rfl
  · unfold AuditedAction.checkAccept
    rw [Except.toOption, Act.wp_bind]
    refine wp_checkCountersignature ha (fun reason e hr => habort' reason e l ?_) fun hcs => ?_
    · rw [refusal, hr]
      rfl
    · rw [Act.next_ok, Act.wp_bind]
      refine wp_checkRecordHash ha hdom (fun reason e hr => habort' reason e l ?_) fun hh => ?_
      · rw [refusal, hcs, hr]
        rfl
      · rw [Act.next_ok, Act.wp_modify]
        refine hclear attempt _ _ he hdom ?_
        rw [refusal, hcs, hh]
        rfl
  · exact wp_abort ha (by decide) fun e => habort' _ e l rfl
  · exact wp_abort ha (by decide) fun e => habort' _ e l rfl

theorem wp_aexit {raised : Bool} {P : Except ToolRaise Unit → Option (AcceptResponse W) → List (Deed W) → Prop}
    (ha : Describes W a)
    (h : ∀ e, a.Emits (if raised then .failed else .success) none e → P (.ok ()) l (d ++ [.outcome e])) :
    Act.wp (.seq (witnessed answer)) (a.aexit raised) P l d := by
  unfold AuditedAction.aexit
  refine wp_swallow (wp_emit ha ?_ (fun _ h => nomatch h) fun e he x hx => ⟨hx, h e he⟩)
  cases raised
  · exact fun h => nomatch h
  · exact fun h => nomatch h

end Parts

/-- **Audit before act.** One attempt goes out. Where the reply clears it the body runs; elsewhere one aborted
outcome of the same id goes out, the body does not run, and both the outcome and the `AmcpAbortedError` carry
the first reason against the reply. -/
theorem audit_before_act {answer : Answer} {a : AuditedAction} (ha : Describes W a) {l l' : Option (AcceptResponse W)}
    {x : Except ToolRaise Unit} {deeds : List (Deed W)}
    (hrun : Runs (witnessed answer) (a.run l) [] (x, l') deeds) :
    ∃ attempt reply, get attempt ID = some (.str a.id) ∧ get attempt OUTCOME = some (.str Outcome.attempted.text) ∧
      (.body ∈ deeds ↔ Clears answer a.session attempt reply) ∧
      (Clears answer a.session attempt reply → ∃ e, deeds = [.attempt attempt reply, .body, .outcome e]) ∧
      (¬ Clears answer a.session attempt reply → ∃ reason e, deeds = [.attempt attempt reply, .outcome e] ∧
        refusal answer a.session attempt reply = some reason ∧ get e ID = some (.str a.id) ∧
        get e OUTCOME = some (.str Outcome.aborted.text) ∧ get e REASON = some (.str reason.text) ∧
        x = .error (.aborted a.actionType a.target.ref reason)) := by
  have hwp : Act.wp (.seq (witnessed answer)) a.run (fun x _ deeds => ∃ attempt reply,
      a.Emits .attempted none attempt ∧
      ((∃ e, Clears answer a.session attempt reply ∧ deeds = [.attempt attempt reply, .body, .outcome e]) ∨
        ∃ reason e, refusal answer a.session attempt reply = some reason ∧ a.Emits .aborted (some reason) e ∧
          deeds = [.attempt attempt reply, .outcome e] ∧
          x = .error (.aborted a.actionType a.target.ref reason))) l [] := by
    unfold AuditedAction.run
    rw [Act.wp_bind]
    refine wp_aenter ha (fun attempt reply reason e l he _ hr hab => ?_) fun attempt reply l he _ hr => ?_
    · exact ⟨attempt, reply, he, .inr ⟨reason, e, hr, hab, rfl, rfl⟩⟩
    · simp only [Act.next_ok, Act.wp_bind, Act.wp_await_seq]
      rintro y d' ⟨_, rfl⟩
      cases y with
      | ok _ => exact wp_aexit ha fun e _ => ⟨attempt, reply, he, .inl ⟨e, refusal_eq_none.1 hr, rfl⟩⟩
      | error y =>
        rw [Act.wp_bind]
        exact wp_aexit ha fun e _ => ⟨attempt, reply, he, .inl ⟨e, refusal_eq_none.1 hr, rfl⟩⟩
  obtain ⟨attempt, reply, he, h⟩ := Act.wp_runs hwp hrun
  refine ⟨attempt, reply, he.id, he.outcome, ?_⟩
  rcases h with ⟨e, hclear, rfl⟩ | ⟨reason, e, hr, hab, rfl, hx⟩
  · exact ⟨by simp [hclear], fun _ => ⟨e, rfl⟩, fun h => (h hclear).elim⟩
  · have hnot : ¬ Clears answer a.session attempt reply := by
      rw [← refusal_eq_none, hr]
      exact Option.some_ne_none reason
    refine ⟨by simp [hnot], fun h => (hnot h).elim, fun _ => ?_⟩
    exact ⟨reason, e, rfl, hr, hab.id, hab.outcome, hab.reason, hx⟩

/-! ## An action to run -/

/-- A Level-1 session with Polluted Stop. -/
def sampleSession : AmcpSession where
  sessionId := SAMPLE_SESSION
  signer := none
  pollutedStop := true
  hasVerifier := false
  requireCountersign := false
  numbering := 0
  isSessionId := by decide
  verifier_of_required := by decide
  stop_of_signer := by decide
  stop_of_required := by decide

/-- The operation of the sample attempt. -/
def sampleAction : AuditedAction where
  session := sampleSession
  id := lit "11111111-1111-4111-8111-111111111111"
  actionType := lit "write"
  target := ⟨lit "file", lit "a", none⟩
  mutates := true
  egress := false
  disclose := none
  commitHash := none
  saltedHash := none

def ATTEMPT_TS : Str := lit "2026-01-01T00:00:00Z"

/-- The accept a host gives it first. -/
def sampleAccept : AcceptResponse reference :=
  ⟨⟨0, sampleRecord.recordHash, SAMPLE_TS, GENESIS_HASH, none, none, none⟩, by decide⟩

def sampleWire (o : Outcome) : Event := sampleAction.wire o none ATTEMPT_TS

theorem sampleAction_describes : Describes reference sampleAction where
  valid := ⟨ATTEMPT_TS, by decide⟩
  domain := ⟨ATTEMPT_TS, by decide⟩

def sampleDeeds : List (Deed reference) :=
  [.attempt (sampleWire .attempted) (.ok (.accept sampleAccept)), .body, .outcome (sampleWire .success)]

theorem sampleAction_runs (answer : Answer) :
    Runs (witnessed answer) (sampleAction.run none) [] (.ok (), some sampleAccept) sampleDeeds := by
  have hvalid : ∀ o ∈ [Outcome.attempted, .success],
      validAuditEvent reference (.obj (sampleAction.wire o none ATTEMPT_TS)) = true := by decide
  have hts : isTimestamp reference ATTEMPT_TS = true := by decide
  have hhash : computeRecordHash reference (.obj (sampleAction.wire .attempted none ATTEMPT_TS)) (.int 0)
      (.str SAMPLE_TS) (.str GENESIS_HASH) = .ok sampleRecord.recordHash := by decide +kernel
  have hbuild : ∀ o ∈ [Outcome.attempted, .success], ∀ (l : Option (AcceptResponse reference)) (d : List (Deed reference)),
      Runs (witnessed answer) (sampleAction.build o none none l) d (.ok (sampleWire o), l) d := by
    intro o ho l d
    have hd : d = d ++ @deed reference .now ATTEMPT_TS := (List.append_nil d).symm
    simp only [AuditedAction.build, Act.await_bind_apply]
    refine .ask ⟨hts, hd⟩ ?_
    simp only [hvalid o ho, ↓reduceIte]
    exact .ret _ _
  have hsend : Runs (witnessed answer) (numbering sampleSession sampleAction.sendAttempt none) []
      (.ok (sampleWire .attempted, some (.accept sampleAccept)), none)
      [.attempt (sampleWire .attempted) (.ok (.accept sampleAccept))] := by
    have hsent : witnessed answer [] (.sendAttempt (sampleWire .attempted)) (.ok (.accept sampleAccept))
        [.attempt (sampleWire .attempted) (.ok (.accept sampleAccept))] :=
      ⟨⟨by simp, by simp⟩, rfl⟩
    exact Act.runs_bind (hbuild .attempted (by decide) none []) (.ask hsent (.ret _ _))
  have hhashed : (sampleAction.checkRecordHash (sampleWire .attempted) sampleAccept.1 : ToolM reference Unit) =
      pure () := by
    have hstop : sampleAction.session.pollutedStop = true := rfl
    have hsame : computeRecordHash reference (.obj (sampleWire .attempted)) (.int sampleAccept.1.seq)
      (.str sampleAccept.1.hostTs) (.str sampleAccept.1.previousHash) = .ok sampleAccept.1.recordHash := hhash
    simp only [AuditedAction.checkRecordHash, hstop, ↓reduceIte, hsame, orFault]
    rfl
  have hcheck : Runs (witnessed answer) (sampleAction.checkAccept (sampleWire .attempted) sampleAccept none)
      [.attempt (sampleWire .attempted) (.ok (.accept sampleAccept))] (.ok (), some sampleAccept)
      [.attempt (sampleWire .attempted) (.ok (.accept sampleAccept))] := by
    have hcs : (sampleAction.checkCountersignature sampleAccept.1 : ToolM reference Unit) = pure () := rfl
    rw [AuditedAction.checkAccept, hcs, hhashed]
    exact .ret _ _
  have hbody : witnessed answer [.attempt (sampleWire .attempted) (.ok (.accept sampleAccept))] .body (.ok ())
      [.attempt (sampleWire .attempted) (.ok (.accept sampleAccept)), .body] := ⟨trivial, rfl⟩
  have hemit : Runs (witnessed answer) (sampleAction.emit .success none (some sampleAccept))
      [.attempt (sampleWire .attempted) (.ok (.accept sampleAccept)), .body] (.ok (), some sampleAccept) sampleDeeds := by
    have hsent : witnessed answer [.attempt (sampleWire .attempted) (.ok (.accept sampleAccept)), .body]
        (.sendOutcome (sampleWire .success)) (.ok ()) sampleDeeds := ⟨by rintro ⟨⟩, rfl⟩
    exact Act.runs_bind (hbuild .success (by decide) _ _) (.ask hsent (.ret _ _))
  exact Act.runs_bind (Act.runs_bind hsend hcheck) (.ask hbody (Runs.bind (.ret _ _) (Runs.bind
    (Runs.bind hemit (.ret _ _)) (.ret _ _))))

theorem audit_before_act_sample : ∃ (attempt : Event) (reply : Except ToolRaise (AttemptResponse reference)), get attempt ID = some (.str sampleAction.id) ∧
    Clears (fun _ _ _ => .failed) sampleAction.session attempt reply := by
  obtain ⟨attempt, reply, hid, _, hbody, _⟩ := audit_before_act sampleAction_describes (sampleAction_runs fun _ _ _ => .failed)
  exact ⟨attempt, reply, hid, hbody.1 (by simp [sampleDeeds])⟩

end AuditableMcp
