import AuditableMcp.HostMoves
/-!
# A host handed new events

What a host makes of an event that is new to it: its session is open, its id (or, for an outcome, its
operation's outcome) and its signer number were not handed over before (`New`). The host's tables hold
nothing but what was handed over (`Known`), so such an event meets no uniqueness and no replay check, and
an attempt is accepted only with its record stored.

The verifier is the one its protocol describes: it rejects with `unknown-key` or `signature-invalid`
(`host.py:69-71`).
-/
namespace AuditableMcp

open JsonValue Effect

/-- What a `SignatureVerifier` answers. -/
def honestVerify : (q : Query) → Reply q → Prop
  | .verify _, x => ∀ reason : RejectReason, x = (.ok (some reason) : Except Raise (Option RejectReason)) →
      reason.1 = .unknownKey ∨ reason.1 = .signatureInvalid
  | _, _ => True

/-- A store, and such a verifier. -/
def honestEnv (s : List SealedRecord) (q : Query) (x : Reply q) (s' : List SealedRecord) : Prop :=
  storeEnv s q x s' ∧ honestVerify q x

/-- The records of a host's chain: the store's, or its ledger's where it has no repository. -/
def recordsOf (c : Config) (h : Host) (s : List SealedRecord) : List SealedRecord :=
  if c.hasRepository then s else h.ledger.records

variable {W : World} {c : Config}

/-- An event's record is in the chain. -/
def Stored (c : Config) (e : Event) (h : Host) (s : List SealedRecord) : Prop :=
  ∃ r ∈ recordsOf c h s, r.event = e

/-- A host whose tables hold only what it was handed, the events `es` in the sessions `sids`, and whose chain
still holds the events `old`. -/
structure Known (W : World) (c : Config) (sids : List Str) (es old : List Event) (h : Host) (s : List SealedRecord) :
    Prop where
  stored : ∀ r ∈ s, r.event ∈ es ∧ validAuditEvent W (.obj r.event) = true
  kept : ∀ r ∈ h.ledger.records, r.event ∈ es ∧ validAuditEvent W (.obj r.event) = true
  attempts : ∀ id r, h.sealedAttempts id = some r → r.event ∈ es ∧ eventId r.event = id
  decided : ∀ sid ss k m, h.sessions sid = some ss → (k, m) ∈ ss.decided →
    ∃ e ∈ es, sessionId e = some sid ∧ signerSeq e = some m
  outcomes : ∀ sid ss id, h.sessions sid = some ss → (ss.outcomes id).isSome = true →
    ∃ e ∈ es, isAttempt e = false ∧ eventId e = id
  opened : ∀ sid ∈ sids, (h.sessions sid).isSome = true
  lasting : ∀ e ∈ old, Stored c e h s
  quiet : ∀ a ∈ h.anomalies, a.kind ≠ .replayDetected

/-- An event nothing handed over before stands against. -/
structure New (es : List Event) (e : Event) (sid : Str) : Prop where
  session : sessionId e = some sid
  attempt : isAttempt e = true → ∀ e' ∈ es, eventId e' ≠ eventId e
  outcome : isAttempt e = false → ∀ e' ∈ es, isAttempt e' = false → eventId e' ≠ eventId e
  number : ∀ e' ∈ es, sessionId e' = some sid → ∀ m, signerSeq e = some m → signerSeq e' ≠ some m

variable {sids sids' : List Str} {es es' old old' : List Event} {h h' : Host} {s : List SealedRecord} {e : Event} {sid : Str}

/-! ## Updates -/

theorem Stored.commit (h' : Stored c e h s) (r : SealedRecord) : Stored c e (h.commit r) s := by
  obtain ⟨a, ha, hev⟩ := h'
  refine ⟨a, ?_, hev⟩
  by_cases hrepo : c.hasRepository = true
  · rw [recordsOf, if_pos hrepo] at ha ⊢
    exact ha
  · rw [recordsOf, if_neg hrepo] at ha ⊢
    exact List.mem_append_left _ ha

theorem Stored.append (h' : Stored c e h s) (r : SealedRecord) : Stored c e h (s ++ [r]) := by
  obtain ⟨a, ha, hev⟩ := h'
  refine ⟨a, ?_, hev⟩
  by_cases hrepo : c.hasRepository = true
  · rw [recordsOf, if_pos hrepo] at ha ⊢
    exact List.mem_append_left _ ha
  · rw [recordsOf, if_neg hrepo] at ha ⊢
    exact ha

namespace Known

theorem mono (hk : Known W c sids es old h s) (hsub : es ⊆ es') : Known W c sids es' old h s where
  stored r hr := ⟨hsub (hk.stored r hr).1, (hk.stored r hr).2⟩
  kept r hr := ⟨hsub (hk.kept r hr).1, (hk.kept r hr).2⟩
  attempts id r hr := ⟨hsub (hk.attempts id r hr).1, (hk.attempts id r hr).2⟩
  decided k ss key m hss hm := by
    obtain ⟨e, he, hrest⟩ := hk.decided k ss key m hss hm
    exact ⟨e, hsub he, hrest⟩
  outcomes k ss id hss hid := by
    obtain ⟨e, he, hrest⟩ := hk.outcomes k ss id hss hid
    exact ⟨e, hsub he, hrest⟩
  opened := hk.opened
  lasting := hk.lasting
  quiet := hk.quiet

/-- What is in the chain now stays there. -/
theorem since (hk : Known W c sids es old h s) (hold : ∀ e ∈ old', Stored c e h s) : Known W c sids es old' h s :=
  { hk with lasting := hold }

theorem within (hk : Known W c sids es old h s) (hopen : ∀ sid ∈ sids', (h.sessions sid).isSome = true) :
    Known W c sids' es old h s :=
  { hk with opened := hopen }

theorem flag (hk : Known W c sids es old h s) (id : Str) {kind : Reason} (hkind : Host.anomalyKindOf kind ≠ .replayDetected)
    (detail : Str) : Known W c sids es old (h.flag id kind detail) s := by
  refine { hk with quiet := fun a ha => ?_ }
  rcases List.mem_append.1 ha with ha | ha
  · exact hk.quiet a ha
  · obtain rfl := List.mem_singleton.1 ha
    exact hkind

theorem reject (hk : Known W c sids es old h s) (id : Str) : Known W c sids es old (h.reject id) s := { hk with }

theorem updateSession (hk : Known W c sids es old h s) {f : Session → Session}
    (hdecided : ∀ ss : Session, ∀ k m, (k, m) ∈ (f ss).decided → (k, m) ∈ ss.decided ∨
      ∃ e ∈ es, sessionId e = some sid ∧ signerSeq e = some m)
    (houtcomes : ∀ ss : Session, ∀ id, ((f ss).outcomes id).isSome = true → (ss.outcomes id).isSome = true ∨
      ∃ e ∈ es, isAttempt e = false ∧ eventId e = id) : Known W c sids es old (h.updateSession sid f) s := by
  have hfrom : ∀ k ss', (h.updateSession sid f).sessions k = some ss' →
      (k = sid ∧ ∃ ss, h.sessions k = some ss ∧ ss' = f ss) ∨ h.sessions k = some ss' := by
    intro k ss' hss'
    simp only [Host.updateSession] at hss'
    split at hss'
    · next heq =>
      obtain ⟨ss, hss, rfl⟩ := Option.map_eq_some_iff.1 hss'
      exact .inl ⟨heq, ss, hss, rfl⟩
    · exact .inr hss'
  refine { hk with decided := fun k ss' key m hss' hm => ?_, outcomes := fun k ss' id hss' hid => ?_, opened := fun k hin => ?_ }
  · rcases hfrom k ss' hss' with ⟨rfl, ss, hss, rfl⟩ | hss
    · rcases hdecided ss key m hm with hm | hm
      · exact hk.decided k ss key m hss hm
      · exact hm
    · exact hk.decided k ss' key m hss hm
  · rcases hfrom k ss' hss' with ⟨rfl, ss, hss, rfl⟩ | hss
    · rcases houtcomes ss id hid with hid | hid
      · exact hk.outcomes k ss id hss hid
      · exact hid
    · exact hk.outcomes k ss' id hss hid
  · have hopen := hk.opened k hin
    simp only [Host.updateSession]
    split
    · rw [Option.isSome_map]
      exact hopen
    · exact hopen

theorem decide (hk : Known W c sids es old h s) (he : e ∈ es) (hsid : sessionId e = some sid) :
    Known W c sids es old (h.decide c e sid) s := by
  refine hk.updateSession (fun ss k m hm => ?_) fun ss id hid => ?_
  · unfold Session.decide at hm
    split at hm
    · next key n _ _ hn =>
      rcases List.mem_insert_iff.1 hm with heq | hm
      · obtain ⟨rfl, rfl⟩ := Prod.mk.inj heq
        exact .inr ⟨e, he, hsid, hn⟩
      · exact .inl hm
    · exact .inl hm
  · rw [← (ss.decide_le c e).outcomes]
    exact .inl hid

theorem accept (hk : Known W c sids es old h s) (id : Str) : Known W c sids es old (h.accept sid id) s :=
  hk.updateSession (fun _ _ _ hm => .inl hm) fun _ _ hid => .inl hid

theorem conclude (hk : Known W c sids es old h s) (he : e ∈ es) (hout : isAttempt e = false) (d : Str) :
    Known W c sids es old (h.conclude sid (eventId e) d) s := by
  refine hk.updateSession (fun _ _ _ hm => .inl hm) fun ss id hid => ?_
  simp only [Session.conclude, Function.update_apply] at hid
  split at hid
  · next heq => exact .inr ⟨e, he, hout, heq.symm⟩
  · exact .inl hid

theorem receive (hk : Known W c sids es old h s) (k : Str) (n : Int) : Known W c sids es old (h.receive k n sid) s :=
  hk.updateSession (fun _ _ _ hm => .inl hm) fun _ _ hid => .inl hid

theorem tail (hk : Known W c sids es old h s) (b : Bool) : Known W c sids es old { h with tailUncertain := b } s := { hk with }

theorem jump (hrepo : c.hasRepository = true) (hk : Known W c sids es old h s) (r : Option SealedRecord) :
    Known W c sids es old { h with ledger := .resumeFrom r } s := by
  refine { hk with kept := fun a ha => ?_, lasting := fun e he => ?_ }
  · cases r <;> cases ha
  · have hst := hk.lasting e he
    simp only [Stored, recordsOf, hrepo, ↓reduceIte] at hst ⊢
    exact hst

theorem commit (hk : Known W c sids es old h s) {r : SealedRecord} (hr : r.event ∈ es)
    (hvalid : validAuditEvent W (.obj r.event) = true) : Known W c sids es old (h.commit r) s := by
  refine { hk with kept := fun a ha => ?_, lasting := fun e he => (hk.lasting e he).commit r }
  rcases List.mem_append.1 ha with ha | ha
  · exact hk.kept a ha
  · obtain rfl := List.mem_singleton.1 ha
    exact ⟨hr, hvalid⟩

theorem rememberWith (hk : Known W c sids es old h s) {r : SealedRecord} (hr : r.event ∈ es) (d : Str) :
    Known W c sids es old (h.rememberWith r d) s := by
  refine { hk with attempts := fun id a ha => ?_ }
  simp only [Host.rememberWith] at ha
  split at ha
  · rw [Function.update_apply] at ha
    split at ha
    · next heq =>
      obtain rfl := Option.some.inj ha
      exact ⟨hr, heq.symm⟩
    · exact hk.attempts id a ha
  · exact hk.attempts id a ha

theorem append (hk : Known W c sids es old h s) {r : SealedRecord} (hr : r.event ∈ es)
    (hvalid : validAuditEvent W (.obj r.event) = true) : Known W c sids es old h (s ++ [r]) := by
  refine { hk with stored := fun a ha => ?_, lasting := fun e he => (hk.lasting e he).append r }
  rcases List.mem_append.1 ha with ha | ha
  · exact hk.stored a ha
  · obtain rfl := List.mem_singleton.1 ha
    exact ⟨hr, hvalid⟩

/-- A session's table is dropped, or new. -/
theorem setSession (hk : Known W c [] es old h s) (sid : Str) {x : Option Session} (hx : ∀ ss ∈ x, ss = .new)
    (issued : List Str) : Known W c [] es old { h with issued := issued, sessions := Function.update h.sessions sid x } s := by
  have hfrom : ∀ k ss, Function.update h.sessions sid x k = some ss → ss = .new ∨ h.sessions k = some ss := by
    intro k ss hss
    rw [Function.update_apply] at hss
    split at hss
    · exact .inl (hx ss hss)
    · exact .inr hss
  refine { hk with
    decided := fun k ss key m hss hm => ?_
    outcomes := fun k ss id hss hid => ?_
    opened := fun _ hin => absurd hin List.not_mem_nil }
  · rcases hfrom k ss hss with rfl | hss
    · exact absurd hm List.not_mem_nil
    · exact hk.decided k ss key m hss hm
  · rcases hfrom k ss hss with rfl | hss
    · cases hid
    · exact hk.outcomes k ss id hss hid

theorem flagAll (hk : Known W c sids es old h s) (detail : Str → Str) (ids : List Str) :
    Known W c sids es old (flagAll detail ids h) s := by
  induction ids generalizing h with
  | nil => exact hk
  | cons id ids ih => exact ih (hk.flag id (by decide) _)

end Known

theorem flagGap_known (hk : Known W c sids es old h s) (n : Int) (received : Option Int) :
    Known W c sids es old (flagGap e n received h) s := by
  simp only [flagGap]
  split
  · exact hk.flag _ (by decide) _
  · exact hk

theorem noteReceived_known (hk : Known W c sids es old h s) (k : Str) (n : Int) :
    Known W c sids es old (noteReceived e k n sid h) s := by
  simp only [noteReceived]
  split
  · exact (flagGap_known hk n _).receive k n
  · exact flagGap_known hk n _

/-! ## Sessions -/

theorem openSession_known {x : Except Raise Unit} (hk : Known W c [] es old h s) (hx : openSession sid h = .ret (x, h')) :
    Known W c [] es old h' s := by
  simp only [openSession, Act.get_bind_apply] at hx
  split at hx
  · obtain ⟨_, rfl⟩ := Prod.mk.inj (Prog.ret.inj hx)
    exact hk
  · obtain ⟨_, rfl⟩ := Prod.mk.inj (Prog.ret.inj hx)
    exact hk.setSession sid (fun ss hss => (Option.some.inj hss).symm) _

theorem closeSession_known {x : Except Raise Unit} (hk : Known W c [] es old h s) (hx : closeSession sid h = .ret (x, h')) :
    Known W c [] es old h' s := by
  simp only [closeSession, Act.get_bind_apply] at hx
  cases hss : h.sessions sid with
  | none =>
    rw [hss] at hx
    obtain ⟨_, rfl⟩ := Prod.mk.inj (Prog.ret.inj hx)
    exact hk
  | some ss =>
    rw [hss] at hx
    obtain ⟨_, rfl⟩ := Prod.mk.inj (Prog.ret.inj hx)
    exact (hk.setSession sid (by rintro _ ⟨⟩) h.issued).flagAll _ _

/-! ## The operations -/

/-- An action that keeps `I`, its verifier honest. -/
abbrev Honestly (I : Host → List SealedRecord → Prop) {α : Type} (m : HostM α) : Prop :=
  Act.Keeps (.seq honestEnv) I m

section Walk

variable {I : Host → List SealedRecord → Prop}

theorem honest_same {s s' : List SealedRecord} {q : Query} {x : Reply q} (hq : ∀ r, q ≠ .append r)
    (he : honestEnv s q x s') : s' = s := by
  obtain ⟨hst, _⟩ := he
  cases q with
  | append r => exact absurd rfl (hq r)
  | loadTail | readAll => exact hst.1
  | currentTime | verify _ | sign _ | clockNow | persistenceAvailable => exact hst

theorem honestly_await {q : Query} (hq : ∀ r, q ≠ .append r) : Honestly I (Act.await q) := by
  intro h s hi
  rw [Act.wp_await_seq]
  intro r s' he
  exact honest_same hq he ▸ hi

theorem honestly_canonically {α : Type} (x : Except Str α) : Honestly I (canonically x) := by
  cases x <;> exact .lift _

theorem honestly_remember {r : SealedRecord} (hr : r.event ∈ es) : Honestly (Known W c sids es old) (remember W r) :=
  .bind (honestly_canonically _) fun _ => .modify fun _ _ hk => hk.rememberWith hr _

theorem honestly_adopt {r : SealedRecord} (hr : r.event ∈ es) : Honestly (Known W c sids es old) (adopt W c r) := by
  refine .bind .get fun h₀ => ?_
  cases hsid : sessionId r.event with
  | none => exact .pure ()
  | some sid =>
    refine .ite (.bind (.modify fun _ _ hk => hk.decide hr hsid) fun _ => ?_) (.pure ())
    cases hatt : isAttempt r.event with
    | true => exact .modify fun _ _ hk => hk.accept _
    | false => exact .bind (honestly_canonically _) fun d => .modify fun _ _ hk => hk.conclude hr hatt d

theorem honestly_settleWith (hrepo : c.hasRepository = true) {tail : Option SealedRecord}
    (ht : ∀ r ∈ tail, r.event ∈ es ∧ validAuditEvent W (.obj r.event) = true) :
    Honestly (Known W c sids es old) (settleWith W c tail) := by
  refine .bind .get fun h₀ => ?_
  cases tail with
  | none => exact .pure ()
  | some r =>
    obtain ⟨hr, hvalid⟩ := ht r rfl
    refine .ite ?_ (.ite (.modify fun _ _ hk => hk.jump hrepo _) (.pure ()))
    exact .bind (.modify fun _ _ hk => hk.commit hr hvalid) fun _ => .bind (honestly_remember hr) fun _ => honestly_adopt hr

theorem honestly_settleTail : Honestly (Known W c sids es old) (settleTail W c) := by
  refine .bind .get fun h₀ => ?_
  split
  · next hunc =>
    intro h s hk
    rw [Act.wp_bind, Act.wp_await_seq]
    rintro x s' ⟨⟨rfl, hx⟩, _⟩
    rcases hx with rfl | ⟨err, rfl⟩
    · have hlast : ∀ r ∈ s'.getLast?, r.event ∈ es ∧ validAuditEvent W (.obj r.event) = true :=
        fun r hr => hk.stored r (List.mem_of_getLast? hr)
      refine Act.Keeps.bind (honestly_settleWith hunc.2 hlast) (fun _ => ?_) h s' hk
      exact .bind (.modify fun _ _ hk => hk.tail false) fun _ => .pure _
    · cases err <;> exact hk
  · exact .pure _

/-! ### Sealing -/

theorem commitSealed_known {r : SealedRecord} (he : r.event ∈ es) (hvalid : validAuditEvent W (.obj r.event) = true)
    (hk : Known W c sids es old h s) (hs : c.hasRepository = true → r ∈ s) :
    (commitSealed W r).wp (.seq honestEnv) (fun x h' s' => Known W c sids es old h' s' ∧
      ∀ r', x = .ok (some r') → Stored c r.event h' s') h s := by
  simp only [commitSealed, Act.wp_bind, Act.wp_modify, Act.next_ok]
  have hk' := hk.commit he hvalid
  have hin : r ∈ recordsOf c (h.commit r) s := by
    unfold recordsOf
    split
    · next hrepo => exact hs hrepo
    · exact List.mem_append_right _ (List.mem_singleton_self r)
  cases hd : digestOf W r.event with
  | error m =>
    simp only [remember, hd, canonically, Act.wp_bind, Act.wp_lift]
    exact ⟨hk', by rintro _ ⟨⟩⟩
  | ok d =>
    simp only [remember, hd, canonically, Act.wp_bind, Act.wp_lift, Act.next_ok, Act.wp_modify, Act.wp_pure]
    exact ⟨hk'.rememberWith he d, fun _ _ => ⟨r, hin, rfl⟩⟩

theorem persist_known {r : SealedRecord} (he : r.event ∈ es) (hvalid : validAuditEvent W (.obj r.event) = true)
    (hk : Known W c sids es old h s) : (persist W c r).wp (.seq honestEnv) (fun x h' s' => Known W c sids es old h' s' ∧
      ∀ r', x = .ok (some r') → Stored c r.event h' s') h s := by
  unfold persist
  split
  · rw [Act.wp_bind, Act.wp_await_seq]
    rintro x s' ⟨happ, _⟩
    have hk' : Known W c sids es old h s' := by
      rcases happ with happ | ⟨rfl, _⟩
      · rw [(storeAppend_eq_ok.1 happ).2]
        exact hk.append he hvalid
      · exact hk
    cases x with
    | ok _ =>
      refine commitSealed_known he hvalid hk' fun _ => ?_
      rcases happ with happ | ⟨_, err, hx⟩
      · rw [(storeAppend_eq_ok.1 happ).2]
        exact List.mem_append_right _ (List.mem_singleton_self r)
      · cases hx
    | error err => cases err <;> exact ⟨hk'.tail true, by rintro _ ⟨⟩⟩
  · next hrepo => exact commitSealed_known he hvalid hk fun hyes => absurd hyes hrepo

theorem sealRecord_known (ts : Str) (he : e ∈ es) (hvalid : validAuditEvent W (.obj e) = true) (hk : Known W c sids es old h s) :
    (sealRecord W c e ts).wp (.seq honestEnv) (fun x h' s' => Known W c sids es old h' s' ∧
      ∀ r', x = .ok (some r') → Stored c e h' s') h s := by
  simp only [sealRecord, Act.wp_bind, Act.wp_get, Act.next_ok]
  cases hseal : h.ledger.seal W e ts with
  | error m => exact ⟨hk, by rintro _ ⟨⟩⟩
  | ok r =>
    obtain ⟨rfl, _⟩ := Ledger.seal_eq_ok hseal
    simp only [canonically, Act.wp_lift, Act.next_ok, Act.wp_bind]
    unfold countersign
    cases hkey : c.countersigner with
    | none => exact persist_known he hvalid hk
    | some key =>
      dsimp only
      rw [Act.wp_bind]
      cases countersignaturePayload W (.int r.seq) (.str r.hostTs) (.str c.logId) (.str r.previousHash)
        (.str r.recordHash) with
      | error m => exact ⟨hk, by rintro _ ⟨⟩⟩
      | ok payload =>
        simp only [canonically, Act.wp_lift, Act.next_ok, Act.wp_bind, Act.wp_await_seq]
        rintro x s' hsign
        obtain rfl := honest_same (by simp) hsign
        cases x with
        | ok g =>
          exact @persist_known W c sids es old h s'
            { r with hostSignature := some g, hostKeyId := some key, logId := some c.logId } he hvalid hk
        | error err =>
          cases err with
          | cancelled => exact ⟨hk.tail true, by rintro _ ⟨⟩⟩
          | _ => exact ⟨hk, by rintro _ ⟨⟩⟩

theorem sealAttempt_known (he : e ∈ es) (hvalid : validAuditEvent W (.obj e) = true) (hsid : sessionId e = some sid)
    (hk : Known W c sids es old h s) : (sealAttempt W c e sid).wp (.seq honestEnv) (fun x h' s' => Known W c sids es old h' s' ∧
      ∀ a, x = .ok (.accept a) → Stored c e h' s') h s := by
  simp only [sealAttempt, persistenceAvailable, Act.wp_bind, Act.wp_await_seq]
  rintro up s₁ hup
  obtain rfl := honest_same (by simp) hup
  simp only [Act.next_ok]
  split
  · rw [Act.wp_bind, Act.wp_await_seq]
    rintro ts s₂ hts
    obtain rfl := honest_same (by simp) hts
    simp only [Act.next_ok, Act.wp_bind]
    refine Act.wp_mono ?_ (sealRecord_known ts he hvalid hk)
    rintro (x | _ | r) h' s' ⟨hk', hst⟩
    · exact ⟨hk', by rintro _ ⟨⟩⟩
    · exact ⟨hk', by rintro _ ⟨⟩⟩
    · exact ⟨(hk'.decide he hsid).accept (eventId e), fun _ _ => hst r rfl⟩
  · exact ⟨hk, by rintro _ ⟨⟩⟩

theorem honestly_sealOutcome (he : e ∈ es) (hvalid : validAuditEvent W (.obj e) = true) (hsid : sessionId e = some sid)
    (hout : isAttempt e = false) (d : Str) : Honestly (Known W c sids es old) (sealOutcome W c e sid d) := by
  refine .bind (honestly_await (by simp)) fun up => .ite ?_ (.pure _)
  refine .bind (honestly_await (by simp)) fun ts h s hk => ?_
  rw [Act.wp_bind]
  refine Act.wp_mono ?_ (sealRecord_known ts he hvalid hk)
  rintro (x | _ | r) h' s' ⟨hk', _⟩
  · exact hk'
  · exact hk'
  · exact (hk'.decide he hsid).conclude he hout d

/-! ### Admission -/

/-- An event of an open session is admitted, or it is refused by the schema. -/
theorem admitEvent_known {expected : Option Str} {attempt : Bool} (hk : Known W c sids es old h s) (hnew : New es e sid)
    (hin : sid ∈ sids) (hexp : ∀ k ∈ expected, k = sid) :
    Known W c sids es old (admitEvent W e expected attempt h).2 s ∧ ∀ k, (admitEvent W e expected attempt h).1 = .ok k →
      k = sid ∧ validAuditEvent W (.obj e) = true ∧ isAttempt e = attempt := by
  have hopen := hk.opened sid hin
  have hall : expected.all (· == sid) = true := by
    cases expected with
    | none => rfl
    | some k => simp [hexp k rfl]
  unfold admitEvent
  split
  · exact ⟨hk.flag _ (by decide) _, by rintro _ ⟨⟩⟩
  · next hvalid =>
    split
    · exact ⟨hk.flag _ (by decide) _, by rintro _ ⟨⟩⟩
    · next hkind =>
      split
      · exact ⟨hk.flag _ (by decide) _, by rintro _ ⟨⟩⟩
      · simp only [sessionOf, hnew.session, hopen, hall, and_self, ↓reduceIte]
        refine ⟨hk, ?_⟩
        rintro _ ⟨⟩
        exact ⟨rfl, firstError_eq_none.1 hvalid, by simpa using hkind⟩

theorem honestly_verifySignature : Honestly (Known W c sids es old) (verifySignature c e sid) := by
  intro h s hk
  unfold verifySignature
  split
  · exact hk
  · split
    · next k n _ _ _ =>
      rw [Act.wp_bind, Act.wp_await_seq]
      rintro x s' he
      obtain rfl := honest_same (by simp) he
      match x with
      | .error x => exact hk
      | .ok (some reason) =>
        refine hk.flag _ ?_ _
        rcases he.2 reason rfl with hr | hr
        · rw [hr]
          decide
        · rw [hr]
          decide
      | .ok none => exact noteReceived_known hk k n
    · exact hk.flag _ (by decide) _

theorem checkReplay_new (hk : Known W c sids es old h s) (hnew : New es e sid) : checkReplay c e sid h = (none, h) := by
  unfold checkReplay
  split
  · next k n _ _ hn =>
    have hnot : (h.sessions sid).any (fun ss => (k, n) ∈ ss.decided) = false := by
      cases hss : h.sessions sid with
      | none => rfl
      | some ss =>
        simp only [Option.any_some, decide_eq_false_iff_not]
        intro hm
        obtain ⟨e', he', hsid', hn'⟩ := hk.decided sid ss k n hss hm
        exact hnew.number e' he' hsid' n hn hn'
    rw [hnot]
    rfl
  · rfl

/-! ### The handlers -/

theorem decideAttempt_known (hk : Known W c sids es old h s) (hnew : New es e sid)
    (hvalid : validAuditEvent W (.obj e) = true) (hatt : isAttempt e = true) :
    (decideAttempt W c e sid).wp (.seq honestEnv) (fun x h' s' => Known W c sids (es ++ [e]) old h' s' ∧
      ∀ a, x = .ok (.accept a) → Stored c e h' s') h s := by
  have hsealed : h.sealedAttempts (eventId e) = none := by
    rw [Option.eq_none_iff_forall_ne_some]
    intro r hr
    obtain ⟨hin, hid⟩ := hk.attempts _ r hr
    exact hnew.attempt hatt _ hin hid
  have hout : ∀ ss, h.sessions sid = some ss → ss.outcomes (eventId e) = none := by
    intro ss hss
    rw [Option.eq_none_iff_forall_ne_some]
    intro d hd
    obtain ⟨e', he', _, hid⟩ := hk.outcomes sid ss (eventId e) hss (by rw [hd]; rfl)
    exact hnew.attempt hatt e' he' hid
  rw [Act.wp, decideAttempt_new W c hsealed hout (checkReplay_new hk hnew)]
  exact sealAttempt_known (List.mem_append_right _ (List.mem_singleton_self e)) hvalid hnew.session
    (hk.mono (List.subset_append_left es [e]))

theorem decideOutcome_known (hk : Known W c sids es old h s) (hnew : New es e sid)
    (hvalid : validAuditEvent W (.obj e) = true) (hout : isAttempt e = false) :
    (decideOutcome W c e sid).wp (.seq honestEnv) (fun _ h' s' => Known W c sids (es ++ [e]) old h' s') h s := by
  have he : e ∈ es ++ [e] := List.mem_append_right _ (List.mem_singleton_self e)
  have hk' := hk.mono (List.subset_append_left es [e])
  have hnone : ((h.sessions sid).bind fun ss => ss.outcomes (eventId e)) = none := by
    rw [Option.eq_none_iff_forall_ne_some]
    intro d hd
    obtain ⟨ss, hss, hd⟩ := Option.bind_eq_some_iff.1 hd
    obtain ⟨e', he', hout', hid⟩ := hk.outcomes sid ss (eventId e) hss (by rw [hd]; rfl)
    exact hnew.outcome hout e' he' hout' hid
  simp only [decideOutcome, Act.wp_bind]
  cases digestOf W e with
  | error m => exact hk'
  | ok d =>
    simp only [canonically, Act.wp_lift, Act.next_ok, Act.wp_bind, Act.wp_get, hnone, Option.isSome_none,
      Bool.false_eq_true, ↓reduceIte]
    split
    · exact hk'
    · simp only [correlateOutcome, Act.wp_bind, Act.wp_state, Act.next_ok, checkReplay_new hk hnew, Act.wp_get]
      split
      · simp only [Act.wp_bind, Act.wp_modify, Act.next_ok, Act.wp_pure]
        exact (hk'.decide he hnew.session).flag _ (by decide) _
      · exact honestly_sealOutcome he hvalid hnew.session hout d h s hk'

/-- **A new attempt**: no replay is detected, the tables hold it beside what they held, and an accept comes
with its record stored. -/
theorem handleAttempt_known {expected : Option Str} (deadline : Option Rat) (hk : Known W c sids es old h s)
    (hnew : New es e sid) (hin : sid ∈ sids) (hexp : ∀ k ∈ expected, k = sid) :
    (handleAttempt W c e expected deadline).wp (.seq honestEnv) (fun x h' s' => Known W c sids (es ++ [e]) old h' s' ∧
      ∀ a, x = .ok (.accept a) → Stored c e h' s') h s := by
  have hsub := List.subset_append_left es [e]
  have hrest : ∀ late : Bool, ∀ h s, Known W c sids es old h s → Act.wp (.seq honestEnv) (do
      if late = true then pure .unavailable else do
        if ← settleTail W c then handleAttemptLocked W c e expected else pure .unavailable)
      (fun x h' s' => Known W c sids (es ++ [e]) old h' s' ∧ ∀ a, x = .ok (.accept a) → Stored c e h' s') h s := by
    intro late h s hk
    split
    · exact ⟨hk.mono hsub, by rintro _ ⟨⟩⟩
    · rw [Act.wp_bind]
      refine Act.wp_mono ?_ (honestly_settleTail h s hk)
      rintro (x | _ | _) h s hk
      · exact ⟨hk.mono hsub, by rintro _ ⟨⟩⟩
      · exact ⟨hk.mono hsub, by rintro _ ⟨⟩⟩
      · simp only [Act.next_ok, ↓reduceIte, handleAttemptLocked, Act.wp_bind, Act.wp_state]
        obtain ⟨hk', hadm⟩ := @admitEvent_known W c sids es old h s e sid expected true hk hnew hin hexp
        cases ha : (admitEvent W e expected true h).1 with
        | error reason => exact ⟨hk'.mono hsub, by rintro _ ⟨⟩⟩
        | ok k =>
          obtain ⟨rfl, hvalid, hatt⟩ := hadm k ha
          simp only [Act.wp_bind]
          refine Act.wp_mono ?_ (honestly_verifySignature _ s hk')
          rintro (x | _ | reason) h'' s' hk''
          · exact ⟨hk''.mono hsub, by rintro _ ⟨⟩⟩
          · exact decideAttempt_known hk'' hnew hvalid hatt
          · exact ⟨(hk''.reject _).mono hsub, by rintro _ ⟨⟩⟩
  unfold handleAttempt
  cases deadline with
  | none => exact hrest false h s hk
  | some d =>
    simp only [currentTime, Act.wp_bind, Act.wp_await_seq]
    rintro now s' he
    obtain rfl := honest_same (by simp) he
    exact hrest (Decidable.decide (d ≤ now)) h s' hk

/-- **A new outcome.** -/
theorem recordOutcome_known {expected : Option Str} (hk : Known W c sids es old h s) (hnew : New es e sid) (hin : sid ∈ sids)
    (hexp : ∀ k ∈ expected, k = sid) : (recordOutcome W c e expected).wp (.seq honestEnv)
      (fun _ h' s' => Known W c sids (es ++ [e]) old h' s') h s := by
  have hsub := List.subset_append_left es [e]
  rw [recordOutcome, Act.wp_bind]
  refine Act.wp_mono ?_ (honestly_settleTail h s hk)
  rintro (x | _ | _) h s hk
  · exact hk.mono hsub
  · exact hk.mono hsub
  · simp only [Act.next_ok, ↓reduceIte, handleOutcomeLocked, Act.wp_bind, Act.wp_state]
    obtain ⟨hk', hadm⟩ := @admitEvent_known W c sids es old h s e sid expected false hk hnew hin hexp
    cases ha : (admitEvent W e expected false h).1 with
    | error reason => exact hk'.mono hsub
    | ok k =>
      obtain ⟨rfl, hvalid, hout⟩ := hadm k ha
      simp only [Act.wp_bind]
      refine Act.wp_mono ?_ (honestly_verifySignature _ s hk')
      rintro (x | _ | reason) h'' s' hk''
      · exact hk''.mono hsub
      · exact decideOutcome_known hk'' hnew hvalid hout
      · exact hk''.mono hsub

end Walk

end AuditableMcp
