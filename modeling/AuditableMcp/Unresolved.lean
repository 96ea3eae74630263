import AuditableMcp.Lifecycle
/-!
# Unresolved attempts: what a close flags, and what a restart flags

An attempt of a chain is unresolved when no terminal record of its operation follows it (`UnresolvedIn`).
A restart reads this off the records (`openAttempts`), a close off the session's tables, which an append in
doubt is not yet in. So a close flags exactly the unresolved attempts when the host has caught up with its
store as far as the session is concerned (`CaughtUp`), and not otherwise.
-/
namespace AuditableMcp

open JsonValue HashChain Effect

/-! ## Unresolved in a chain -/

/-- An attempt of the operation is in the chain, with no terminal record of the operation after it. -/
def UnresolvedIn (rs : List SealedRecord) (o : Option Str × Str) : Prop :=
  ∃ (i : Nat) (a : SealedRecord), rs[i]? = some a ∧ isAttempt a.event = true ∧ operation a = o ∧
    ∀ (j : Nat) (b : SealedRecord), i < j → rs[j]? = some b → isAttempt b.event = false → operation b ≠ o

theorem unresolvedIn_nil (o : Option Str × Str) : ¬ UnresolvedIn [] o := by
  rintro ⟨i, a, h, _⟩
  simp at h

/-- One more record: it opens its operation, ends it, or leaves it. -/
theorem unresolvedIn_concat {rs : List SealedRecord} {r : SealedRecord} {o : Option Str × Str} :
    UnresolvedIn (rs ++ [r]) o ↔
      (isAttempt r.event = true ∧ operation r = o) ∨
        (UnresolvedIn rs o ∧ ¬(isAttempt r.event = false ∧ operation r = o)) := by
  have hold : ∀ {i : Nat}, i < rs.length → (rs ++ [r])[i]? = rs[i]? := fun hi => List.getElem?_append_left hi
  have hlast : (rs ++ [r])[rs.length]? = some r := List.getElem?_concat_length
  have hlen : ∀ {i : Nat} {a : SealedRecord}, (rs ++ [r])[i]? = some a → i ≤ rs.length := by
    intro i a h
    have := (List.getElem?_eq_some_iff.1 h).1
    rw [List.length_append, List.length_singleton] at this
    omega
  constructor
  · rintro ⟨i, a, ha, hatt, hop, hafter⟩
    rcases Nat.lt_or_ge i rs.length with hi | hi
    · refine .inr ⟨⟨i, a, by rwa [hold hi] at ha, hatt, hop, fun j b hj hb => hafter j b hj ?_⟩, ?_⟩
      · rw [hold (List.getElem?_eq_some_iff.1 hb).1]
        exact hb
      · rintro ⟨hterm, hopr⟩
        exact hafter rs.length r hi hlast hterm hopr
    · obtain rfl : i = rs.length := Nat.le_antisymm (hlen ha) hi
      obtain rfl := Option.some.inj (hlast.symm.trans ha)
      exact .inl ⟨hatt, hop⟩
  · rintro (⟨hatt, hop⟩ | ⟨⟨i, a, ha, hatt, hop, hafter⟩, hnot⟩)
    · refine ⟨rs.length, r, hlast, hatt, hop, fun j b hj hb => ?_⟩
      have := hlen hb
      omega
    · have hi := (List.getElem?_eq_some_iff.1 ha).1
      refine ⟨i, a, by rw [hold hi]; exact ha, hatt, hop, fun j b hj hb hterm hopb => ?_⟩
      rcases Nat.lt_or_ge j rs.length with hjl | hjl
      · exact hafter j b hj (by rwa [hold hjl] at hb) hterm hopb
      · obtain rfl : j = rs.length := Nat.le_antisymm (hlen hb) hjl
        obtain rfl := Option.some.inj (hlast.symm.trans hb)
        exact hnot ⟨hterm, hopb⟩

/-! ## What a restart's scan is left with -/

theorem openAttemptsStep_nodup {opened : List Str} {acc : List (Str × Str)} (hn : acc.Nodup) (r : SealedRecord) :
    (openAttemptsStep opened acc r).Nodup := by
  unfold openAttemptsStep
  split
  · exact hn
  · split
    · split
      · split
        · exact hn
        · next hnew =>
          rw [← List.concat_eq_append]
          exact hn.concat hnew
      · exact hn.erase _
    · exact hn

theorem openAttempts_nodup (opened : List Str) (rs : List SealedRecord) : (openAttempts opened rs).Nodup := by
  unfold openAttempts
  induction rs using List.reverseRecOn with
  | nil => exact List.nodup_nil
  | append_singleton rs r ih =>
    rw [List.foldl_append]
    exact openAttemptsStep_nodup ih r

/-- A restart's scan is left with the attempts unresolved among the records of the current version. -/
theorem mem_openAttempts {opened : List Str} {sid id : Str} (hsid : sid ∉ opened) (rs : List SealedRecord) :
    (sid, id) ∈ openAttempts opened rs ↔ UnresolvedIn (rs.filter fun r => isCurrent r.event) (some sid, id) := by
  induction rs using List.reverseRecOn with
  | nil => simp [openAttempts, unresolvedIn_nil]
  | append_singleton rs r ih =>
    have hn := openAttempts_nodup opened rs
    have hstep : openAttempts opened (rs ++ [r]) = openAttemptsStep opened (openAttempts opened rs) r := by
      simp [openAttempts]
    rw [hstep, List.filter_append]
    have hop : ∀ {k : Str}, sessionId r.event = some k →
        (operation r = (some sid, id) ↔ (sid, id) = (k, eventId r.event)) := by
      intro k hk
      rw [operation, hk, Prod.mk.injEq, Prod.mk.injEq, Option.some.injEq]
      exact ⟨fun h => ⟨h.1.symm, h.2.symm⟩, fun h => ⟨h.1.symm, h.2.symm⟩⟩
    by_cases hcur : isCurrent r.event = true
    · simp only [hcur, List.filter_cons_of_pos, List.filter_nil, unresolvedIn_concat, ← ih]
      unfold openAttemptsStep
      cases hk : sessionId r.event with
      | none => simp [operation, hk]
      | some k =>
        rw [hop hk]
        by_cases hopen : k ∈ opened
        · have hne : (sid, id) ≠ (k, eventId r.event) := by
            rintro ⟨⟩
            exact hsid hopen
          simp [hopen, hne]
        · cases hatt : isAttempt r.event with
          | true =>
            simp only [hcur, hopen, not_false_eq_true, and_self, ↓reduceIte, Bool.true_eq_false, false_and, and_true, true_and]
            split
            · next hmem =>
              constructor
              · exact .inr
              · rintro (heq | h)
                · exact heq ▸ hmem
                · exact h
            · rw [List.mem_append, List.mem_singleton]
              exact or_comm
          | false =>
            simp only [hcur, hopen, not_false_eq_true, and_self, ↓reduceIte, Bool.false_eq_true, hn.mem_erase_iff,
              false_and, false_or, true_and]
            exact and_comm
    · have hstay : openAttemptsStep opened (openAttempts opened rs) r = openAttempts opened rs := by
        unfold openAttemptsStep
        split
        · rfl
        · simp [hcur]
      simp [hstay, hcur, ih]

/-! ## Closing a session -/

/-- The ids flagged `unresolved-attempt` between two states of a host. -/
def newlyFlagged (h h' : Host) : List Str :=
  ((h'.anomalies.drop h.anomalies.length).filter fun a => a.kind = .unresolvedAttempt).map (·.id)

theorem flagAll_anomalies (detail : Str → Str) (ids : List Str) : ∀ h : Host,
    (flagAll detail ids h).anomalies = h.anomalies ++ ids.map fun id => ⟨id, .unresolvedAttempt, detail id⟩ := by
  induction ids with
  | nil => exact fun h => (List.append_nil _).symm
  | cons id ids ih =>
    intro h
    have hstep : flagAll detail (id :: ids) h = flagAll detail ids (h.flag id .unresolvedAttempt (detail id)) := rfl
    rw [hstep, ih]
    simp [Host.flag, Host.anomalyKindOf]

/-- Flagging flags what it is given, in order. -/
theorem newlyFlagged_flagAll (detail : Str → Str) (ids : List Str) {h h₀ : Host} (ha : h₀.anomalies = h.anomalies) :
    newlyFlagged h (flagAll detail ids h₀) = ids := by
  have hmap : ∀ ids : List Str, ((ids.map fun id => (⟨id, .unresolvedAttempt, detail id⟩ : IntegrityAnomaly)).filter
      fun a => a.kind = .unresolvedAttempt).map (·.id) = ids := by
    intro ids
    induction ids with
    | nil => rfl
    | cons id ids ih => simpa using ih
  rw [newlyFlagged, flagAll_anomalies, ha, List.drop_left]
  exact hmap ids

theorem mem_unresolved {s : Session} {id : Str} : id ∈ s.unresolved ↔ id ∈ s.accepted ∧ id ∉ s.resolved := by
  simp [Session.unresolved, (List.perm_insertionSort _ _).mem_iff]

/-- The close of an open session: nothing is awaited, and its unresolved attempts are flagged. -/
theorem close_runs {W : World} {c : Config} {h h' : Host} {s s' : List SealedRecord} {sid : Str} {ss : Session}
    {x : Except Raise Unit} (hss : h.sessions sid = some ss)
    (hr : Runs storeEnv ((HostOp.closeSession sid).run W c h) s (x, h') s') :
    s' = s ∧ newlyFlagged h h' = ss.unresolved := by
  have hw : ((HostOp.closeSession sid).run W c).wp (.seq storeEnv)
      (fun _ h' s' => s' = s ∧ newlyFlagged h h' = ss.unresolved) h s := by
    simp only [HostOp.run, closeSession, Act.wp_bind, Act.wp_get, Act.next_ok, hss, Act.wp_modify]
    exact ⟨trivial, newlyFlagged_flagAll _ _ rfl⟩
  exact Act.wp_runs hw hr

/-- No stored record beyond the host's own ledger is an attempt of the session, or the outcome of an
operation the session accepted. -/
def CaughtUp (h : Host) (store : List SealedRecord) (sid : Str) (ss : Session) : Prop :=
  ∀ p ∈ store.drop h.ledger.count, sessionId p.event = some sid →
    isAttempt p.event = false ∧ eventId p.event ∉ ss.accepted

variable {W : World} {c : Config}

/-- The session's tables hold what is unresolved in what the host committed. -/
theorem Mirrors.unresolved {h : Host} {rs : List SealedRecord} {sid id : Str} {ss : Session} (hm : Mirrors W h rs)
    (hss : h.sessions sid = some ss) : id ∈ ss.unresolved ↔ UnresolvedIn rs (some sid, id) := by
  have hms := hm.sessions sid ss hss
  rw [mem_unresolved, hms.resolved, hms.accepted]
  have houtcome : (ss.outcomes id).isSome = true ↔
      ∃ b ∈ rs, isAttempt b.event = false ∧ operation b = (some sid, id) := by
    constructor
    · intro hsome
      obtain ⟨d, hd⟩ := Option.isSome_iff_exists.1 hsome
      obtain ⟨b, hb, hterm, hop, _⟩ := (hms.outcomes id d).1 hd
      exact ⟨b, hb, hterm, hop⟩
    · rintro ⟨b, hb, hterm, hop⟩
      obtain ⟨d, hd⟩ := sound_digest (hm.sound b hb)
      rw [(hms.outcomes id d).2 ⟨b, hb, hterm, hop, hd⟩]
      rfl
  rw [houtcome]
  constructor
  · rintro ⟨⟨a, ha, hatt, hop⟩, hnone⟩
    obtain ⟨i, hi, rfl⟩ := List.getElem_of_mem ha
    refine ⟨i, rs[i], List.getElem?_eq_getElem hi, hatt, hop, fun j b _ hb hterm hopb => ?_⟩
    exact hnone ⟨⟨rs[i], ha, hatt, hop⟩, b, List.mem_of_getElem? hb, hterm, hopb⟩
  · rintro ⟨i, a, ha, hatt, hop, hafter⟩
    refine ⟨⟨a, List.mem_of_getElem? ha, hatt, hop⟩, ?_⟩
    rintro ⟨_, b, hb, hterm, hopb⟩
    obtain ⟨j, hj, rfl⟩ := List.getElem_of_mem hb
    have hb' : rs[j]? = some rs[j] := List.getElem?_eq_getElem hj
    -- an operation's terminal record is not before its attempt
    rcases Nat.lt_trichotomy i j with hij | rfl | hij
    · exact hafter j rs[j] hij hb' hterm hopb
    · obtain rfl := Option.some.inj (hb'.symm.trans ha)
      rw [hatt] at hterm
      cases hterm
    · obtain ⟨hlt, heq⟩ := List.getElem?_eq_some_iff.1 ha
      rw [← heq] at hatt hop
      have hpair := List.pairwise_iff_getElem.1 hm.lifecycle.concluded j i hj hlt hij hterm hatt
      exact hpair (hopb.trans hop.symm)

/-- A close flags the unresolved attempts of the store exactly when the host has caught up with it there. -/
theorem Consistent.close_iff {h : Host} {s rs : List SealedRecord} {sid : Str} {ss : Session}
    (hc : Consistent W onlyStore c h s rs) (hrepo : c.hasRepository = true) (hss : h.sessions sid = some ss) :
    (∀ id, id ∈ ss.unresolved ↔ UnresolvedIn s (some sid, id)) ↔ CaughtUp h s sid ss := by
  have hmem : ∀ id, id ∈ ss.unresolved ↔ UnresolvedIn rs (some sid, id) := fun id => hc.mirrors.unresolved hss
  have hcount := hc.mirrors.ledger.1
  have hms := hc.mirrors.sessions sid ss hss
  rcases hc.stored hrepo with hst | ⟨p, hp⟩
  · obtain rfl : s = rs := hst
    refine ⟨fun _ p hin => ?_, fun _ => hmem⟩
    rw [hcount, List.drop_length] at hin
    simp at hin
  · have hstore : s = rs ++ [p] := hp.store
    have hdrop : s.drop h.ledger.count = [p] := by rw [hcount, hstore, List.drop_left]
    have hcaught : CaughtUp h s sid ss ↔ (sessionId p.event = some sid →
        isAttempt p.event = false ∧ eventId p.event ∉ ss.accepted) := by
      simp [CaughtUp, hdrop]
    rw [hcaught, hstore]
    simp only [unresolvedIn_concat, hmem]
    constructor
    · intro hall hsid
      have hop : operation p = (some sid, eventId p.event) := by rw [operation, hsid]
      constructor
      · -- a landed attempt is unresolved, and no attempt of its id is among the committed
        refine Bool.eq_false_iff.2 fun hatt => ?_
        obtain ⟨i, a, ha, hatta, hopa, _⟩ := (hall (eventId p.event)).2 (.inl ⟨hatt, hop⟩)
        exact hp.due.attempt hatt a (List.mem_of_getElem? ha) hatta (congrArg Prod.snd hopa)
      · -- a landed outcome ends its operation, which the committed leave unresolved
        intro hacc
        cases hterm : isAttempt p.event with
        | true =>
          obtain ⟨i, a, ha, hatta, hopa, _⟩ := (hall (eventId p.event)).2 (.inl ⟨hterm, hop⟩)
          exact hp.due.attempt hterm a (List.mem_of_getElem? ha) hatta (congrArg Prod.snd hopa)
        | false =>
          have hun : UnresolvedIn rs (some sid, eventId p.event) := by
            rw [← hmem, mem_unresolved, hms.resolved]
            refine ⟨hacc, fun hres => ?_⟩
            obtain ⟨d, hd⟩ := Option.isSome_iff_exists.1 hres.2
            obtain ⟨b, hb, htermb, hopb, _⟩ := (hms.outcomes _ d).1 hd
            exact hp.due.open' b hb htermb (hopb.trans hop.symm)
          rcases (hall (eventId p.event)).1 hun with ⟨hatt, _⟩ | ⟨_, hnot⟩
          · rw [hterm] at hatt
            cases hatt
          · exact hnot ⟨hterm, hop⟩
    · intro hcond id
      constructor
      · intro hun
        refine .inr ⟨hun, ?_⟩
        rintro ⟨hterm, hop⟩
        obtain ⟨hsid, hid⟩ : sessionId p.event = some sid ∧ eventId p.event = id := by
          simpa [operation] using hop
        -- an unresolved attempt is accepted
        have hacc : id ∈ ss.accepted := (mem_unresolved.1 ((hmem id).2 hun)).1
        exact (hcond hsid).2 (hid ▸ hacc)
      · rintro (⟨hatt, hop⟩ | ⟨hun, _⟩)
        · have hsid : sessionId p.event = some sid := congrArg Prod.fst hop
          rw [(hcond hsid).1] at hatt
          cases hatt
        · exact hun

/-- In a chain this host sealed, a restart's scan flags the unresolved attempts. -/
theorem Restorable.openAttempts {rs : List SealedRecord} (h : Restorable W rs) (sid id : Str) :
    (sid, id) ∈ openAttempts [] rs ↔ UnresolvedIn rs (some sid, id) := by
  have hcur : rs.filter (fun r => isCurrent r.event) = rs := by
    refine List.filter_eq_self.2 fun r hr => ?_
    rw [isCurrent, hasText_iff]
    exact (h.sound r hr).sessionEvent.2
  rw [mem_openAttempts (by simp), hcur]

/-- **What a close flags.** Whatever run led here, closing an open session flags exactly the attempts of the
session that the store holds unresolved, which are those a restart over the store flags for it, if and
only if no append in doubt has left the store an attempt of the session, or the outcome of an operation it
accepted, that the host has not taken in. -/
theorem close_flags_iff (hj : JcsSpec W.dumps InDomain) {c₀ : Config} (hrepo : c₀.hasRepository = true)
    {S : Service} (hr : Relation.ReflTransGen (Service.Step W) (Service.start c₀) S) {sid : Str} {ss : Session}
    (hss : S.host.sessions sid = some ss) {x : Except Raise Unit} {h' : Host} {s' : List SealedRecord}
    (hclose : Runs storeEnv ((HostOp.closeSession sid).run W S.config S.host) S.store (x, h') s') :
    (∀ id, (sid, id) ∈ openAttempts [] s' ↔ UnresolvedIn s' (some sid, id)) ∧
      ((∀ id, id ∈ newlyFlagged S.host h' ↔ UnresolvedIn s' (some sid, id)) ↔ CaughtUp S.host S.store sid ss) := by
  obtain ⟨hrepo', rs, hc⟩ := service_consistent hj hrepo hr
  obtain ⟨rfl, hflag⟩ := close_runs hss hclose
  rw [hflag]
  exact ⟨fun id => (hc.restorable hrepo').openAttempts sid id, hc.close_iff hrepo' hss⟩

/-- The sample attempt landed under an append that failed, its session still open. -/
def landedService : Service := ⟨sampleConfig, sampleHost.uncertain, [sampleRecord]⟩

theorem landedService_reached :
    Relation.ReflTransGen (Service.Step reference) (Service.start sampleConfig) landedService := by
  have happ : storeEnv [] (.append sampleRecord) (.error .repositoryError) [sampleRecord] := .inl rfl
  have hseal := sealRecord_ambiguous reference sampleConfig rfl rfl sampleRecord_sealed happ
  have hattempt : Runs storeEnv (sealAttempt reference sampleConfig sampleAttempt SAMPLE_SESSION sampleHost) [] _ _ :=
    sealAttempt_runs reference sampleConfig rfl rfl hseal
  rw [← handleAttempt_unopposed reference sampleConfig sampleAttempt_unopposed] at hattempt
  have hopen : Relation.ReflTransGen (Service.Step reference) (Service.start sampleConfig) _ :=
    .single (.op (.openSession SAMPLE_SESSION) _ (sampleHost_opens []))
  exact hopen.tail (.op (.attempt sampleAttempt none none) _ (Act.runs_bind hattempt (.ret _ _)))

/-- Its close. -/
def landedClosed : Host :=
  flagAll (fun id => lit "call ended with attempt " ++ id ++ lit " unresolved") Session.new.unresolved
    { sampleHost.uncertain with sessions := Function.update sampleHost.uncertain.sessions SAMPLE_SESSION none }

theorem landedService_closes : Runs storeEnv
    ((HostOp.closeSession SAMPLE_SESSION).run reference landedService.config landedService.host) landedService.store
      (.ok (), landedClosed) [sampleRecord] :=
  .ret _ _

theorem landedService_open : landedService.host.sessions SAMPLE_SESSION = some .new := by
  simp [landedService, sampleHost, Host.uncertain]

theorem close_flags_iff_landed :
    (∀ id, (SAMPLE_SESSION, id) ∈ openAttempts [] [sampleRecord] ↔ UnresolvedIn [sampleRecord] (some SAMPLE_SESSION, id)) ∧
      ((∀ id, id ∈ newlyFlagged landedService.host landedClosed ↔ UnresolvedIn [sampleRecord] (some SAMPLE_SESSION, id)) ↔
        CaughtUp landedService.host landedService.store SAMPLE_SESSION .new) :=
  close_flags_iff reference_jcs rfl landedService_reached landedService_open landedService_closes

/-- There the close flags nothing, though the store holds the attempt unresolved. -/
theorem close_misses_landed :
    Relation.ReflTransGen (Service.Step reference) (Service.start sampleConfig) landedService ∧
      landedService.host.sessions SAMPLE_SESSION = some .new ∧
      Runs storeEnv ((HostOp.closeSession SAMPLE_SESSION).run reference landedService.config landedService.host)
        landedService.store (.ok (), landedClosed) [sampleRecord] ∧
      newlyFlagged landedService.host landedClosed = [] ∧
      UnresolvedIn [sampleRecord] (some SAMPLE_SESSION, eventId sampleAttempt) := by
  refine ⟨landedService_reached, landedService_open, landedService_closes, rfl, 0, sampleRecord, rfl, by decide, by decide, ?_⟩
  intro j b hj hb
  have := (List.getElem?_eq_some_iff.1 hb).1
  simp at this
  omega

end AuditableMcp
