import AuditableMcp.Acceptance
import AuditableMcp.Unresolved
import Mathlib.Data.List.Dedup
/-!
# What a restart flags

Over a chain `verify_ledger` accepts, a restart without open sessions flags the operations its scan is
left with (`openAttempts`), and the scan reads the records of the current version only
(`host.py:333`). So it flags the unresolved attempts, one anomaly each, exactly when none of them is of an
earlier version and no two of them are of one operation (`restart_flags_iff`).
-/
namespace AuditableMcp

open JsonValue Effect

variable {W : World} {o : VerifyOptions}

/-! ## The unresolved attempts of a chain -/

/-- `b` ends the operation of `a`. -/
def Ends (b a : SealedRecord) : Prop := isAttempt b.event = false ∧ operation b = operation a

instance (b a : SealedRecord) : Decidable (Ends b a) := inferInstanceAs (Decidable (_ ∧ _))

/-- The sealed attempts with no terminal record of their operation after them. -/
def unresolvedAttempts : List SealedRecord → List SealedRecord
  | [] => []
  | r :: rs =>
    if isAttempt r.event = true ∧ ∀ b ∈ rs, ¬ Ends b r then r :: unresolvedAttempts rs else unresolvedAttempts rs

theorem unresolvedAttempts_sub (rs : List SealedRecord) : ∀ r ∈ unresolvedAttempts rs, r ∈ rs := by
  induction rs with
  | nil => simp [unresolvedAttempts]
  | cons a rs ih =>
    intro r hr
    unfold unresolvedAttempts at hr
    split at hr
    · rcases List.mem_cons.1 hr with rfl | hr
      · exact List.mem_cons_self ..
      · exact List.mem_cons_of_mem _ (ih r hr)
    · exact List.mem_cons_of_mem _ (ih r hr)

/-- One more record ends the attempts of its operation, or is an attempt itself. -/
theorem unresolvedAttempts_concat (rs : List SealedRecord) (b : SealedRecord) : unresolvedAttempts (rs ++ [b]) =
    (unresolvedAttempts rs).filter (fun r => ¬ Ends b r) ++ if isAttempt b.event then [b] else [] := by
  induction rs with
  | nil => simp [unresolvedAttempts]
  | cons r rs ih =>
    have hsplit : (∀ b' ∈ rs ++ [b], ¬ Ends b' r) ↔ (∀ b' ∈ rs, ¬ Ends b' r) ∧ ¬ Ends b r := by
      simp [or_imp, forall_and]
    simp only [List.cons_append, unresolvedAttempts, ih, hsplit]
    by_cases hr : isAttempt r.event = true ∧ ∀ b ∈ rs, ¬ Ends b r
    · by_cases hb : Ends b r
      · rw [if_neg (fun h => h.2.2 hb), if_pos hr, List.filter_cons_of_neg (by simpa using hb)]
      · rw [if_pos ⟨hr.1, hr.2, hb⟩, if_pos hr, List.filter_cons_of_pos (by simpa using hb), List.cons_append]
    · rw [if_neg (fun h => hr ⟨h.1, h.2.1⟩), if_neg hr]

/-- After a record of the current version every record is of the current version. -/
def CurrentLast (rs : List SealedRecord) : Prop :=
  rs.Pairwise fun a b => isCurrent a.event = true → isCurrent b.event = true

/-- The operations unresolved among the current records are those of the current unresolved attempts. -/
theorem unresolvedIn_current {rs : List SealedRecord} (h : CurrentLast rs) (op : Option Str × Str) :
    UnresolvedIn (rs.filter fun r => isCurrent r.event) op ↔
      ∃ r ∈ unresolvedAttempts rs, isCurrent r.event = true ∧ operation r = op := by
  induction rs using List.reverseRecOn with
  | nil => simp [unresolvedIn_nil, unresolvedAttempts]
  | append_singleton rs b ih =>
    obtain ⟨hrs, _, hlast⟩ := List.pairwise_append.1 h
    have ih' := ih hrs
    rw [List.filter_append, unresolvedAttempts_concat]
    by_cases hcur : isCurrent b.event = true
    · rw [List.filter_cons_of_pos (by simpa using hcur), List.filter_nil, unresolvedIn_concat, ih']
      constructor
      · rintro (⟨hatt, hop⟩ | ⟨⟨r, hr, hrcur, hop⟩, hnot⟩)
        · exact ⟨b, by simp [hatt], hcur, hop⟩
        · refine ⟨r, List.mem_append_left _ (List.mem_filter.2 ⟨hr, ?_⟩), hrcur, hop⟩
          simpa using fun hends : Ends b r => hnot ⟨hends.1, hends.2.trans hop⟩
      · rintro ⟨r, hr, hrcur, hop⟩
        rcases List.mem_append.1 hr with hr | hr
        · obtain ⟨hr, hnot⟩ := List.mem_filter.1 hr
          refine .inr ⟨⟨r, hr, hrcur, hop⟩, fun hends => ?_⟩
          simp only [decide_not, Bool.not_eq_true', decide_eq_false_iff_not] at hnot
          exact hnot ⟨hends.1, hends.2.trans hop.symm⟩
        · by_cases hatt : isAttempt b.event = true
          · obtain rfl : r = b := by simpa [hatt] using hr
            exact .inl ⟨hatt, hop⟩
          · simp [hatt] at hr
    · -- no record before it is current either
      have hnone : ∀ r ∈ rs, ¬ isCurrent r.event = true := fun r hr hr' => hcur (hlast r hr b (by simp) hr')
      have hempty : rs.filter (fun r => isCurrent r.event) = [] := by
        rw [List.filter_eq_nil_iff]
        exact fun r hr => by simpa using hnone r hr
      rw [hempty, List.filter_cons_of_neg (by simpa using hcur), List.filter_nil, List.append_nil]
      refine ⟨fun hu => absurd hu (unresolvedIn_nil op), ?_⟩
      rintro ⟨r, hr, hrcur, _⟩
      have hmem : r ∈ rs ++ [b] := by
        rcases List.mem_append.1 hr with hr | hr
        · exact List.mem_append_left _ (unresolvedAttempts_sub rs r (List.mem_filter.1 hr).1)
        · split at hr
          · exact List.mem_append_right _ hr
          · cases hr
      rcases List.mem_append.1 hmem with hr | hr
      · exact absurd hrcur (hnone r hr)
      · obtain rfl := List.mem_singleton.1 hr
        exact absurd hrcur hcur

/-! ## What verification says of the versions -/

theorem versionRank_known : ∀ version ∈ KNOWN_SPEC_VERSIONS, (versionRank version).isSome = true ∧
    ∀ n ∈ versionRank version, 4 ≤ n → version = SPEC_VERSION := by decide

/-- In a verified ledger the current version comes last, and every event is in the domain. -/
theorem verified_versions (ho : o.Bare) {rs : List SealedRecord} {report : VerifyReport}
    (hv : verifyLedger W o (rs.map (·.raw)) = .ok report) (hok : report.ok = true) :
    CurrentLast rs ∧ ∀ r ∈ rs, InDomain (.obj r.event) := by
  obtain ⟨_, _, hschema, hregress⟩ := verifyLedger_ok_iff.1 ⟨hv, hok⟩
  rw [schemaIssues_eq_nil ho] at hschema
  have hordered := ((versionRegressions_eq_nil ho).1 hregress).2
  simp only [List.mem_map, forall_exists_index, and_imp, forall_apply_eq_imp_iff₂, List.pairwise_map] at hschema hordered
  refine ⟨?_, fun r hr => (hschema r hr).2⟩
  refine hordered.imp_of_mem ?_
  intro a b _ hb hab hcur
  obtain ⟨e, he, _, version, hknown, hver⟩ := (hschema b hb).1.spec
  obtain rfl : b.event = e := by simpa [SealedRecord.raw] using he
  obtain ⟨hsome, hmax⟩ := versionRank_known version hknown
  obtain ⟨n, hn⟩ := Option.isSome_iff_exists.1 hsome
  have hrank : ∀ {r : SealedRecord} {s : Str}, get r.event SPEC_VERSION_KEY = some (.str s) →
      rankOf r.raw.event = versionRank s := by
    intro r s hs
    simp [rankOf, versionOf, SealedRecord.raw, getNull, hs]
  have h4 : 4 ≤ n := hab 4 n (by rw [hrank (hasText_iff.1 hcur)]; decide) (by rw [hrank hver, hn])
  rw [hmax n hn h4] at hver
  exact hasText_iff.2 hver

/-! ## The run of a restart -/

theorem rememberAll_ret {rs : List SealedRecord} (hd : ∀ r ∈ rs, InDomain (.obj r.event)) : ∀ h : Host,
    ∃ h', rememberAll W rs h = .ret (.ok (), h') ∧ h'.anomalies = h.anomalies := by
  induction rs with
  | nil => exact fun h => ⟨h, rfl, rfl⟩
  | cons r rs ih =>
    intro h
    have hr : digestOf W r.event = .ok _ := digestOf_eq_ok (hd r (List.mem_cons_self ..))
    have hremember : remember W r h = .ret (.ok (), h.rememberWith r (hashOf W (.obj r.event))) := by
      simp only [remember, hr, canonically, Act.lift_ok_bind_apply]
      rfl
    have hrest := ih fun r hr => hd r (List.mem_cons_of_mem _ hr)
    cases hs : sessionId r.event with
    | none =>
      obtain ⟨h', hret, ha⟩ := hrest (h.rememberWith r (hashOf W (.obj r.event)))
      refine ⟨h', ?_, ha⟩
      simp only [rememberAll, Act.bind_apply_of_ret hremember, hs]
      exact hret
    | some sid =>
      obtain ⟨h', hret, ha⟩ := hrest { h.rememberWith r (hashOf W (.obj r.event)) with
        issued := (h.rememberWith r (hashOf W (.obj r.event))).issued.insert sid }
      refine ⟨h', ?_, ha⟩
      simp only [rememberAll, Act.bind_apply_of_ret hremember, hs, Act.modify_bind_apply]
      exact hret

/-- A restart whose read succeeds completes, and flags what its scan is left with. -/
theorem resume_runs {rs : List SealedRecord} (hd : ∀ r ∈ rs, InDomain (.obj r.event)) :
    ∃ h, Runs storeEnv (resume W [] .new) rs (.ok (), h) rs ∧
      ∀ h' s', Runs storeEnv (resume W [] .new) rs (.ok (), h') s' →
        newlyFlagged .new h' = (openAttempts [] rs).map Prod.snd := by
  obtain ⟨h, hret, ha⟩ := @rememberAll_ret W rs hd { Host.new with ledger := Ledger.resumeFrom rs.getLast? }
  have hflag : newlyFlagged .new (flagUnresolved [] rs h) = (openAttempts [] rs).map Prod.snd :=
    newlyFlagged_flagAll _ _ ha
  refine ⟨flagUnresolved [] rs h, ?_, ?_⟩
  · simp only [resume, Act.await_bind_apply]
    refine .ask ⟨rfl, .inl rfl⟩ ?_
    simp only [Act.modify_bind_apply, Act.bind_apply_of_ret hret, restoreAll, Act.pure_bind_apply]
    exact .ret _ _
  · have hw : (resume W []).wp (.seq storeEnv) (fun x h' _ => x = .ok () →
        newlyFlagged .new h' = (openAttempts [] rs).map Prod.snd) .new rs := by
      simp only [resume, Act.wp_bind, Act.wp_await_seq]
      rintro x s' ⟨_, rfl | ⟨e, rfl⟩⟩
      · simp only [Act.next_ok, Act.wp_bind, Act.wp_modify, Act.wp_seq_of_ret hret, restoreAll, Act.wp_pure]
        exact fun _ => hflag
      · rintro ⟨⟩
    exact fun h' s' hr => Act.wp_runs hw hr rfl

/-! ## What it flags -/

/-- The flagged operations are those of the current unresolved attempts, each once. -/
theorem openAttempts_perm {rs : List SealedRecord} (hlast : CurrentLast rs)
    (hsid : ∀ r ∈ rs, (sessionId r.event).isSome = true) :
    ((openAttempts [] rs).map fun p => (some p.1, p.2)).Perm
      (((unresolvedAttempts rs).filter fun r => isCurrent r.event).map operation).dedup := by
  have hinj : Function.Injective fun p : Str × Str => (some p.1, p.2) := by
    rintro ⟨a, b⟩ ⟨a', b'⟩ h
    simpa using h
  refine (List.perm_ext_iff_of_nodup ((openAttempts_nodup [] rs).map hinj) (List.nodup_dedup _)).2 ?_
  rintro ⟨sid, id⟩
  have hmem : (sid, id) ∈ ((unresolvedAttempts rs).filter fun r => isCurrent r.event).map operation ↔
      UnresolvedIn (rs.filter fun r => isCurrent r.event) (sid, id) := by
    rw [unresolvedIn_current hlast]
    simp only [List.mem_map, List.mem_filter, and_assoc]
  rw [List.mem_dedup, hmem, List.mem_map]
  constructor
  · rintro ⟨⟨k, i⟩, hk, hki⟩
    obtain ⟨rfl, rfl⟩ : some k = sid ∧ i = id := by simpa using hki
    exact (mem_openAttempts (by simp) rs).1 hk
  · intro hu
    obtain ⟨r, hr, _, hop⟩ := (unresolvedIn_current hlast _).1 hu
    obtain ⟨k, hk⟩ := Option.isSome_iff_exists.1 (hsid r (unresolvedAttempts_sub rs r hr))
    obtain rfl : some k = sid := by simpa [operation, hk] using congrArg Prod.fst hop
    exact ⟨(k, id), (mem_openAttempts (by simp) rs).2 hu, rfl⟩

/-- The unresolved attempts a scan by operation of the current version does not miss. -/
structure Scannable (rs : List SealedRecord) : Prop where
  current : ∀ r ∈ unresolvedAttempts rs, isCurrent r.event = true
  distinct : ((unresolvedAttempts rs).map operation).Nodup

theorem openAttempts_perm_iff {rs : List SealedRecord} (hlast : CurrentLast rs)
    (hsid : ∀ r ∈ rs, (sessionId r.event).isSome = true) :
    ((openAttempts [] rs).map Prod.snd).Perm ((unresolvedAttempts rs).map (eventId ·.event)) ↔ Scannable rs := by
  have hperm := openAttempts_perm hlast hsid
  constructor
  · intro h
    -- the numbers are equal, so nothing was left out: neither an earlier version nor a second attempt
    have hlen : (((unresolvedAttempts rs).filter fun r => isCurrent r.event).map operation).dedup.length =
        (unresolvedAttempts rs).length := by
      rw [← hperm.length_eq, List.length_map, ← List.length_map Prod.snd, h.length_eq, List.length_map]
    have hdedup := (List.dedup_sublist (((unresolvedAttempts rs).filter fun r => isCurrent r.event).map operation)).length_le
    have hfilter := List.length_filter_le (fun r : SealedRecord => isCurrent r.event) (unresolvedAttempts rs)
    rw [List.length_map] at hdedup
    have hcount : ((unresolvedAttempts rs).filter fun r => isCurrent r.event).length =
        (unresolvedAttempts rs).length := by omega
    have hall : ∀ r ∈ unresolvedAttempts rs, isCurrent r.event = true := List.length_filter_eq_length_iff.1 hcount
    rw [List.filter_eq_self.2 hall] at hlen
    refine ⟨hall, ?_⟩
    have hsame := (List.dedup_sublist ((unresolvedAttempts rs).map operation)).eq_of_length (by simpa using hlen)
    exact hsame ▸ List.nodup_dedup _
  · intro h
    rw [List.filter_eq_self.2 h.current, List.dedup_eq_self.2 h.distinct] at hperm
    have hsnd := hperm.map Prod.snd
    rw [List.map_map, List.map_map] at hsnd
    exact hsnd

/-- **What a restart flags.** Over a ledger that verifies, whose events carry a session, a restart completes
when its read does, and its `unresolved-attempt` anomalies are the unresolved attempts, one each, if and
only if none of these is of an earlier version and no two are of one operation. -/
theorem restart_flags_iff (ho : o.Bare) {rs : List SealedRecord} {report : VerifyReport}
    (hv : verifyLedger W o (rs.map (·.raw)) = .ok report) (hok : report.ok = true)
    (hsid : ∀ r ∈ rs, (sessionId r.event).isSome = true) :
    ∃ h, Runs storeEnv (resume W [] .new) rs (.ok (), h) rs ∧
      ∀ h' s', Runs storeEnv (resume W [] .new) rs (.ok (), h') s' →
        ((newlyFlagged .new h').Perm ((unresolvedAttempts rs).map (eventId ·.event)) ↔ Scannable rs) := by
  obtain ⟨hlast, hdom⟩ := verified_versions ho hv hok
  obtain ⟨h, hrun, hflag⟩ := @resume_runs W rs hdom
  refine ⟨h, hrun, fun h' s' hr => ?_⟩
  rw [hflag h' s' hr]
  exact openAttempts_perm_iff hlast hsid

/-! ## An attempt of the version before -/

/-- The record of the earlier attempt, sealed first. -/
def earlierRecord : SealedRecord where
  event := earlierAttempt
  seq := 0
  hostTs := SAMPLE_TS
  previousHash := GENESIS_HASH
  recordHash := lit "10b6dd94d65af685a9daecb854d01a970ae74a9629981dd7c0fe569d79236e35"

theorem earlierRecord_verifies : verifyLedger reference {} [earlierRecord.raw] =
    .ok ⟨true, 1, earlierRecord.recordHash, [], []⟩ := by decide +kernel

theorem bare_default : ({} : VerifyOptions).Bare := ⟨rfl, rfl⟩

/-- Of the sample chain, a restart flags the last attempt, which alone has no outcome. -/
theorem restart_flags_iff_three : ∃ h, Runs storeEnv (resume reference [] .new) sampleChain (.ok (), h) sampleChain ∧
    (newlyFlagged .new h).Perm [eventId otherAttempt] := by
  have hverified : verifyLedger reference {} (sampleChain.map (·.raw)) = .ok ⟨true, 3, lastRecord.recordHash, [], []⟩ := by
    decide +kernel
  have hsid : ∀ r ∈ sampleChain, (sessionId r.event).isSome = true := by decide
  have hopen : unresolvedAttempts sampleChain = [lastRecord] := by decide
  have hscannable : Scannable sampleChain := by
    constructor
    · rw [hopen]
      decide
    · rw [hopen]
      exact List.nodup_singleton _
  obtain ⟨h, hrun, hflags⟩ := restart_flags_iff bare_default hverified rfl hsid
  have hperm := (hflags h sampleChain hrun).2 hscannable
  rw [hopen] at hperm
  exact ⟨h, hrun, hperm⟩

/-- A restart over the attempt of the version before flags nothing, though the ledger verifies and the
attempt is unresolved. -/
theorem restart_misses_earlier :
    verifyLedger reference {} [earlierRecord.raw] = .ok ⟨true, 1, earlierRecord.recordHash, [], []⟩ ∧
      (sessionId earlierRecord.event).isSome = true ∧
      unresolvedAttempts [earlierRecord] = [earlierRecord] ∧
      ∃ h, Runs storeEnv (resume reference [] .new) [earlierRecord] (.ok (), h) [earlierRecord] ∧
        newlyFlagged .new h = [] := by
  have hdom : ∀ r ∈ [earlierRecord], InDomain (.obj r.event) := by
    intro r hr
    obtain rfl := List.mem_singleton.1 hr
    decide
  obtain ⟨h, hrun, hflag⟩ := @resume_runs reference [earlierRecord] hdom
  refine ⟨earlierRecord_verifies, by decide, by decide, h, hrun, ?_⟩
  rw [hflag h _ hrun]
  decide

end AuditableMcp
