import AuditableMcp.Acceptance
import AuditableMcp.Lifecycle
import AuditableMcp.Keys
/-!
# A host and a verifier agree

A Level-2 host without a repository, its verifier over a registry that only grows and revokes
(`keyed`). What it admits by its own tables is what the verifier asks of the records alone: `Vetted` is
kept by every move, a vetted host's records are well sealed (`Vetted.wellSealed`), and over well-sealed
records of current events the verifier finds nothing but missing signer numbers (`verifyLedger_gaps`).
-/
namespace AuditableMcp

open JsonValue HashChain Effect

/-! ## The registries around a host -/

/-- The registries a deployment keeps: tool keys, and the host keys countersignatures are checked under. -/
structure Registries where
  tool : KeyRegistry .tool
  host : KeyRegistry .host

/-- Both only grew and revoked. -/
structure Registries.Later (s s' : Registries) : Prop where
  tool : s.tool.Later s'.tool
  host : s.host.Later s'.host

theorem Registries.Later.refl (s : Registries) : s.Later s := ⟨.refl, .refl⟩

/-- A signer's answer for a payload, as the registries stand. -/
abbrev Signer : Type := Registries → Str → Except Raise Str → Prop

/-- What it signs verifies under its registered key. -/
def Signer.Correct (K : Crypto) (key : Str) (signer : Signer) : Prop :=
  ∀ s p g, signer s p (.ok g) → s.host.confirms K (.str key) (.str g) p = .ok true

variable (K : Crypto) (W : World) (signer : Signer)

/-- A host whose verifier is a `KeyRegistryVerifier`. The registries may change at every await; there is
no repository to ask. -/
def keyed : Surroundings Registries where
  env s q x s' := s.Later s' ∧ match q, x with
    | .verify e, x => x = s.tool.verify K W e
    | .sign p, x => signer s p x
    | .append _, _ => False
    | .loadTail, _ => False
    | .readAll, _ => False
    | _, _ => True
  store _ := []
  vouched s e := s.tool.check K W e = .ok true
  signed s p g := ∃ s₀, Registries.Later s₀ s ∧ signer s₀ p (.ok g)

variable {K W signer}

theorem Registries.Later.trans {s s' s'' : Registries} (h : s.Later s') (h' : s'.Later s'') : s.Later s'' :=
  ⟨h.tool.trans h'.tool, h.host.trans h'.host⟩

theorem keyed_fair (c : Config) : (keyed K W signer).Fair c where
  conditional := by
    intro s q x s' he
    cases q with
    | append r => exact he.2.elim
    | loadTail => exact he.2.elim
    | readAll => exact he.2.elim
    | currentTime | verify _ | sign _ | clockNow | persistenceAvailable => rfl
  vouched_mono he hv := KeyRegistry.check_later he.1.tool hv
  signed_mono he := by
    rintro ⟨s₀, hl, hs⟩
    exact ⟨s₀, hl.trans he.1, hs⟩
  verified _ he := KeyRegistry.check_of_verify he.1.tool he.2.symm
  countersigned he := ⟨_, he.1, he.2⟩

/-! ## What every move keeps -/

/-- A host that has sealed only what it vouches for, each number once. -/
structure Vetted {σ : Type} (W : World) (E : Surroundings σ) (c : Config) (h : Host) (s : σ) : Prop where
  consistent : Consistent W E c h s h.ledger.records
  vouched : ∀ r ∈ h.ledger.records, Vouched E c s r.event
  triple : ∀ r ∈ h.ledger.records, Triple W E c s r
  numbered : h.ledger.records.Pairwise fun a b => ∀ n, numberedAs a.event = some n → numberedAs b.event ≠ some n
  decided : ∀ sid ss, h.sessions sid = some ss → ∀ r ∈ h.ledger.records, sessionId r.event = some sid →
    ∀ k n, keyId r.event = some k → signerSeq r.event = some n → (k, n) ∈ ss.decided

/-- A number the verifier reads is the one the host decided. -/
theorem numberedAs_eq_some {e : Event} {n : Numbering} (h : numberedAs e = some n) :
    keyId e = some n.keyId ∧ sessionId e = some n.sessionId ∧ signerSeq e = some (n.signerSeq : Int) := by
  unfold numberedAs at h
  split at h
  · next k s m hk hs hm =>
    cases h
    have htext : ∀ {key t : Str}, getNull e key = .str t → get e key = some (.str t) := by
      intro key t ht
      unfold getNull at ht
      cases hg : get e key with
      | none => simp [hg] at ht
      | some v => simpa [hg] using ht
    refine ⟨by simp [AuditableMcp.keyId, htext hk], by simp [AuditableMcp.sessionId, htext hs], ?_⟩
    unfold getNull at hm
    cases hv : get e SIGNER_SEQ with
    | none => simp [hv, count] at hm
    | some v =>
      simp only [hv, Option.getD_some] at hm
      unfold count at hm
      split at hm
      · next i =>
        split at hm
        · next hi =>
          cases hm
          simp [AuditableMcp.signerSeq, hv, hi.1]
        · cases hm
      · next q =>
        split at hm
        · next hq =>
          cases hm
          have hle : q.num.natAbs ≤ MAX_SAFE_INTEGER := by omega
          simp [AuditableMcp.signerSeq, hv, hq.1, hle, hq.2.1]
        · cases hm
      · cases hm
  · cases h

section Step

variable {σ : Type} {E : Surroundings σ} {c : Config}

/-- What leaves the ledger alone keeps a host vetted where no session forgets a decided number. -/
theorem Vetted.congr {h h' : Host} {s : σ} (hv : Vetted W E c h s) (hledger : h'.ledger = h.ledger)
    (hc : Consistent W E c h' s h'.ledger.records)
    (hsess : ∀ sid ss', h'.sessions sid = some ss' →
      (∃ ss, h.sessions sid = some ss ∧ ss.decided ⊆ ss'.decided) ∨
        ∀ r ∈ h.ledger.records, sessionId r.event ≠ some sid) : Vetted W E c h' s where
  consistent := hc
  vouched := by rw [hledger]; exact hv.vouched
  triple := by rw [hledger]; exact hv.triple
  numbered := by rw [hledger]; exact hv.numbered
  decided := by
    rw [hledger]
    intro sid ss' hss' r hr hsid k n hk hn
    rcases hsess sid ss' hss' with ⟨ss, hss, hsub⟩ | hnew
    · exact hsub (hv.decided sid ss hss r hr hsid k n hk hn)
    · exact absurd hsid (hnew r hr)

theorem Vetted.neutral {h h' : Host} {s : σ} (hv : Vetted W E c h s) (hn : Neutral h h') : Vetted W E c h' s := by
  refine hv.congr hn.ledger ?_ fun sid ss' hss' => ?_
  · rw [hn.ledger]
    exact hv.consistent.neutral hn
  · obtain ⟨ss, hss, hle⟩ := hn.open hss'
    exact .inl ⟨ss, hss, hle.decided⟩

/-- A sealed number is decided in its session. -/
theorem Session.account_decided (hl : c.level = .l2) {e : Event} {d : Str} {s : Session} :
    s.decided ⊆ (s.account c e d).decided ∧
      ∀ k n, keyId e = some k → signerSeq e = some n → (k, n) ∈ (s.account c e d).decided := by
  have hsame : (s.account c e d).decided = (s.decide c e).decided := by
    unfold Session.account Session.conclude
    split <;> rfl
  rw [hsame]
  refine ⟨(s.decide_le c e).decided, fun k n hk hn => ?_⟩
  simp [Session.decide, hl, hk, hn]

theorem Vetted.kept (hj : JcsSpec W.dumps InDomain) (hE : E.Fair c) (hl : c.level = .l2) {h : Host} {s : σ} {e : Event} {sid d : Str}
    {r : SealedRecord} (hv : Vetted W E c h s) (hno : c.hasRepository = false) (hready : Ready W E c h s e sid)
    (hmade : Made W E c h s e r) (hd : digestOf W e = .ok d) :
    Vetted W E c (account c e sid d (recorded r d h)) s := by
  obtain ⟨rs, hc⟩ := hv.consistent.step hj hE (.kept hno hready hmade hd)
  obtain ⟨ss, hss⟩ := Option.isSome_iff_exists.1 hready.isOpen
  have hledger : (account c e sid d (recorded r d h)).ledger.records = h.ledger.records ++ [r] := by
    rw [account_eq]
    rfl
  obtain rfl := (hc.kept hno).symm.trans hledger
  refine ⟨by rwa [hledger], ?_, ?_, ?_, ?_⟩
  all_goals rw [hledger]
  · intro a ha
    rcases List.mem_append.1 ha with ha | ha
    · exact hv.vouched a ha
    · rw [List.mem_singleton.1 ha, hmade.event]
      exact hready.vouched
  · intro a ha
    rcases List.mem_append.1 ha with ha | ha
    · exact hv.triple a ha
    · exact List.mem_singleton.1 ha ▸ hmade.triple
  · refine pairwise_concat hv.numbered fun a ha n hna hnr => ?_
    obtain ⟨hka, hsa, hma⟩ := numberedAs_eq_some hna
    rw [hmade.event] at hnr
    obtain ⟨hkr, hsr, hmr⟩ := numberedAs_eq_some hnr
    have hsid : sessionId a.event = some sid := by rw [hsa, ← hsr, hready.session]
    exact hready.fresh hl _ _ hkr hmr ss hss (hv.decided sid ss hss a ha hsid _ _ hka hma)
  · intro sid' ss' hss' a ha hsid' k n hk hn
    rw [account_eq] at hss'
    simp only [Host.updateSession, recorded, Host.rememberWith, Host.commit] at hss'
    split at hss'
    · next heq =>
      subst heq
      rw [hss] at hss'
      cases hss'
      obtain ⟨hsub, hin⟩ := @Session.account_decided c hl e d ss
      rcases List.mem_append.1 ha with ha | ha
      · exact hsub (hv.decided _ ss hss a ha hsid' k n hk hn)
      · rw [List.mem_singleton.1 ha, hmade.event] at hk hn
        exact hin k n hk hn
    · next hne =>
      rcases List.mem_append.1 ha with ha | ha
      · exact hv.decided sid' ss' hss' a ha hsid' k n hk hn
      · rw [List.mem_singleton.1 ha, hmade.event, hready.session] at hsid'
        exact absurd (Option.some.inj hsid').symm hne

/-- **One move.** At a Level-2 host without a repository. -/
theorem Vetted.step (hj : JcsSpec W.dumps InDomain) (hE : E.Fair c) (hl : c.level = .l2)
    (hno : c.hasRepository = false) {h h' : Host} {s s' : σ} (hv : Vetted W E c h s)
    (hm : Move W E c (h, s) (h', s')) : Vetted W E c h' s' := by
  obtain ⟨rs', hc⟩ := hv.consistent.step hj hE hm
  have hrs := hc.kept hno
  subst hrs
  cases hm with
  | turn q x hq he =>
    refine ⟨hc, fun r hr => (hv.vouched r hr).turn hE he, fun r hr => ?_, hv.numbered, hv.decided⟩
    have ht := hv.triple r hr
    unfold Triple at ht ⊢
    split at ht
    · exact ht
    · obtain ⟨p, g, hp, hg, hk, hlog, hsigned⟩ := ht
      exact ⟨p, g, hp, hg, hk, hlog, hE.signed_mono he hsigned⟩
  | note hn => exact hv.neutral hn
  | doubt => exact hv.congr rfl hc fun sid ss hss => .inl ⟨ss, hss, List.Subset.refl _⟩
  | clear _ => exact hv.congr rfl hc fun sid ss hss => .inl ⟨ss, hss, List.Subset.refl _⟩
  | kept _ hready hmade hd => exact hv.kept hj hE hl hno hready hmade hd
  | reaccept hsealed hsid _ => exact hv.neutral (hv.consistent.mirrors.reaccept hsealed hsid)
  | @opened _ _ sid hnew =>
    refine hv.congr rfl hc fun k ss hss => ?_
    simp only [Function.update_apply] at hss
    split at hss
    · next heq =>
      refine .inr fun r hr hsid => hnew ?_
      exact hv.consistent.mirrors.issued r hr sid (heq ▸ hsid)
    · exact .inl ⟨ss, hss, List.Subset.refl _⟩
  | @closed _ _ sid ss _ =>
    have hn := flagAll_neutral (fun id => lit "call ended with attempt " ++ id ++ lit " unresolved") ss.unresolved
      { h with sessions := Function.update h.sessions sid none }
    refine hv.congr hn.ledger hc fun k t ht => ?_
    obtain ⟨u, hu, hle⟩ := hn.open ht
    simp only [Function.update_apply] at hu
    split at hu
    · cases hu
    · exact .inl ⟨u, hu, hle.decided⟩
  | ambiguous _ hrepo => simp [hno] at hrepo
  | stored hrepo => simp [hno] at hrepo
  | adopt hlanded => exact absurd hlanded.repository (by simp [hno])
  | adoptRaised hlanded => exact absurd hlanded.repository (by simp [hno])
  | jump hrepo => simp [hno] at hrepo

theorem Vetted.moves (hj : JcsSpec W.dumps InDomain) (hE : E.Fair c) (hl : c.level = .l2)
    (hno : c.hasRepository = false) {x y : Host × σ} (hv : Vetted W E c x.1 x.2)
    (hm : Relation.ReflTransGen (Move W E c) x y) : Vetted W E c y.1 y.2 := by
  induction hm with
  | refl => exact hv
  | tail _ hstep ih => exact ih.step hj hE hl hno hstep

end Step

/-! ## Well-sealed records of hashable events -/

theorem mapM_ok {α β : Type} {f : α → Checked β} {l : List α} (h : ∀ a ∈ l, ∃ b, f a = .ok b) :
    ∃ bs, l.mapM f = .ok bs := by
  induction l with
  | nil => exact ⟨[], rfl⟩
  | cons a l ih =>
    obtain ⟨b, hb⟩ := h a (List.mem_cons_self ..)
    obtain ⟨bs, hbs⟩ := ih fun a' ha' => h a' (List.mem_cons_of_mem _ ha')
    exact ⟨b :: bs, by rw [List.mapM_cons, hb, hbs]; rfl⟩

theorem filterM_ok {α : Type} {f : α → Checked Bool} {l : List α} (h : ∀ a ∈ l, ∃ b, f a = .ok b) :
    ∃ as, l.filterM f = .ok as := by
  have haux : ∀ acc, ∃ as, l.filterAuxM f acc = .ok as := by
    induction l with
    | nil => exact fun acc => ⟨acc, rfl⟩
    | cons a l ih =>
      intro acc
      obtain ⟨b, hb⟩ := h a (List.mem_cons_self ..)
      obtain ⟨as, has⟩ := ih (fun a' ha' => h a' (List.mem_cons_of_mem _ ha')) (cond b (a :: acc) acc)
      exact ⟨as, by rw [List.filterAuxM, hb]; exact has⟩
  obtain ⟨as, has⟩ := haux []
  exact ⟨as.reverse, by rw [List.filterM, has]; rfl⟩

/-- An event whose session, id and reason have a hash. -/
structure Countable (v : Json) (e : Event) : Prop where
  object : v = .obj e
  key : (CallKey.inScope (getNull e SESSION_ID) (getNull e ID)).hashable = true
  reason : (getNull e REASON).hashable = true

/-- Every event of every group has a reason with a hash. -/
def Groups.Countable (gs : Groups) : Prop :=
  ∀ g ∈ gs, ∀ m ∈ g.2, (getNull m.event REASON).hashable = true

theorem Groups.Countable.add {gs : Groups} (h : gs.Countable) (key : Str × Str) {m : GroupMember}
    (hm : (getNull m.event REASON).hashable = true) : (gs.add key m).Countable := by
  induction gs with
  | nil =>
    intro g hg m' hm'
    obtain rfl := List.mem_singleton.1 hg
    obtain rfl := List.mem_singleton.1 hm'
    exact hm
  | cons g gs ih =>
    obtain ⟨k, ms⟩ := g
    have hrest : Groups.Countable gs := fun g hg => h g (List.mem_cons_of_mem _ hg)
    unfold Groups.add
    split
    · intro g hg m' hm'
      rcases List.mem_cons.1 hg with rfl | hg
      · rcases List.mem_append.1 hm' with hm' | hm'
        · exact h (k, ms) (List.mem_cons_self ..) m' hm'
        · exact List.mem_singleton.1 hm' ▸ hm
      · exact hrest g hg m' hm'
    · intro g hg
      rcases List.mem_cons.1 hg with rfl | hg
      · exact h (k, ms) (List.mem_cons_self ..)
      · exact ih hrest g hg

theorem accountEvent_ok {a : Accounting} (ha : a.groups.Countable) {v : Json} {e : Event} (h : Countable v e) :
    ∃ a', accountEvent a v = .ok a' ∧ a'.groups.Countable := by
  obtain ⟨rfl, hkey, hreason⟩ := h
  simp only [accountEvent, hkey, ↓reduceIte]
  refine ⟨_, rfl, ?_⟩
  cases numberedAs e with
  | none => exact ha
  | some n => exact ha.add _ hreason

theorem unaccountedOf_ok {key : Str × Str} {ms : List GroupMember}
    (h : ∀ m ∈ ms, (getNull m.event REASON).hashable = true) : ∃ runs, unaccountedOf key ms = .ok runs := by
  have hrefusal : ∀ m ∈ ms, ∃ b, isRefusal m = .ok b := by
    intro m hm
    unfold isRefusal
    split
    · exact ⟨_, by rw [needHash, if_pos (h m hm)]; rfl⟩
    · exact ⟨false, rfl⟩
  obtain ⟨refusals, hr⟩ := filterM_ok hrefusal
  exact ⟨_, by rw [unaccountedOf, hr]; rfl⟩

/-- Missing numbers are found, and nothing raises, over countable events. -/
theorem unaccountedSignerSeq_ok {vs : List Json} (h : ∀ v ∈ vs, ∃ e, Countable v e) :
    ∃ gaps, unaccountedSignerSeq vs = .ok gaps := by
  have hfold : ∀ (a : Accounting), a.groups.Countable →
      ∃ a', vs.foldlM accountEvent a = .ok a' ∧ a'.groups.Countable := by
    induction vs with
    | nil => exact fun a ha => ⟨a, rfl, ha⟩
    | cons v vs ih =>
      intro a ha
      obtain ⟨e, he⟩ := h v (List.mem_cons_self ..)
      obtain ⟨a₁, h₁, ha₁⟩ := accountEvent_ok ha he
      obtain ⟨a', h', ha'⟩ := ih (fun v hv => h v (List.mem_cons_of_mem _ hv)) a₁ ha₁
      exact ⟨a', by rw [List.foldlM_cons, h₁]; exact h', ha'⟩
  obtain ⟨a, ha, hgroups⟩ := hfold ⟨[], []⟩ fun g hg => by cases hg
  obtain ⟨runs, hruns⟩ := mapM_ok fun g hg => @unaccountedOf_ok g.1 g.2 (hgroups g hg)
  exact ⟨runs.flatten, by rw [unaccountedSignerSeq, ha]; simp only [bind, Except.bind, hruns]; rfl⟩

variable {o : VerifyOptions}

/-- **A well-sealed chain.** The verifier raises nothing, and finds nothing but missing signer numbers. -/
theorem verifyLedger_gaps (ho : o.Bare) {rs : List RawRecord} (hw : WellSealed W o rs) (hver : Versioned W rs)
    (hkeyed : ∀ r ∈ rs, r.Keyed) (hcount : ∀ r ∈ rs, Countable r.event r.body)
    (hanchor : ∀ d, o.anchoredDigest = some d → lastHash rs = .str d) :
    ∃ report, verifyLedger W o rs = .ok report ∧ (∀ i ∈ report.issues, i.kind = .signerSeqGap) ∧
      (o.signatureChecker.isSome = true → o.countersignatureChecker.isSome = true → report.unchecked = []) := by
  obtain ⟨hloop, hissues⟩ := (chainLoop_clean_iff ho hkeyed).2 ⟨hw, rfl⟩
  have hcountable : ∀ v ∈ rs.map (·.event), ∃ e, Countable v e := by
    intro v hv
    obtain ⟨r, hr, rfl⟩ := List.mem_map.1 hv
    exact ⟨r.body, hcount r hr⟩
  obtain ⟨gaps, hgaps⟩ := unaccountedSignerSeq_ok hcountable
  have hdigest : digestIssues o (stateAfter o .initial rs).prevRecomputed = [] := by
    unfold digestIssues
    split
    · rfl
    · next d hd =>
      have hlast := (lastHash_eq hw).symm.trans (hanchor d hd)
      exact expect_of (Json.str.inj hlast).symm
  obtain ⟨report, hchain, hreport, hunchecked⟩ : ∃ report, verifyChain W o rs = .ok report ∧
      report.issues = gaps.map (gapIssue W) ∧
      (o.signatureChecker.isSome = true → o.countersignatureChecker.isSome = true → report.unchecked = []) := by
    refine ⟨_, verifyChain_eq_ok.2 ⟨by rw [ho.principal]; rfl, _, _, _, hloop, mapM_event ho rs, hgaps, rfl⟩, ?_, ?_⟩
    · simp [hissues, hdigest]
    · intro hsig hcs
      obtain ⟨hc, hl⟩ := @stateAfter_unchecked o rs
      simp [hc, hl, Option.isNone_eq_false_iff.2 hsig, Option.isNone_eq_false_iff.2 hcs]
  have hkinds : ∀ i ∈ gaps.map (gapIssue W), i.kind = .signerSeqGap := by
    intro i hi
    obtain ⟨gap, _, rfl⟩ := List.mem_map.1 hi
    rfl
  have hnone : report.issues.filter (·.kind = .schemaInvalid) = [] := by
    rw [List.filter_eq_nil_iff, hreport]
    intro i hi
    simp [hkinds i hi]
  have hschema := (schemaIssues_eq_nil ho).2 fun r hr => ⟨hver.valid r hr, hver.domain r hr⟩
  have hregressions : versionRegressions o none rs = .ok [] :=
    (versionRegressions_eq_nil ho).2 ⟨by simp, hver.ordered⟩
  refine ⟨report, ?_, by rwa [hreport], hunchecked⟩
  simp only [verifyLedger, hchain, bind, Except.bind, hnone, List.map_nil, hschema, hregressions]
  rfl

/-! ## What a host seals, read back -/

theorem get_of_closed {e : Event} {names : List Str} (h : closed e names = true) {k : Str} (hk : k ∉ names) :
    get e k = none := by
  cases hg : get e k with
  | none => rfl
  | some v =>
    unfold closed at h
    have hin := List.all_eq_true.1 h _ (mem_of_get hg)
    simp only [List.contains_iff_mem] at hin
    exact absurd hin hk

@[simp] theorem SealedRecord.raw_body (r : SealedRecord) : r.raw.body = r.event := rfl

theorem getNull_str {e : Event} {k s : Str} (h : get e k = some (.str s)) : getNull e k = .str s := by
  simp [getNull, h]

section Sound

variable {r : SealedRecord}

theorem Sound.readable (h : Sound W r) : r.raw.Readable := by
  obtain ⟨hs, _⟩ := h.sessionEvent
  refine ⟨rfl, fun v hv => ?_, fun v hv => ?_, fun v hv => ?_⟩
  · obtain ⟨s, hid⟩ := hs.id
    exact ⟨s, Option.some.inj (hv.symm.trans hid)⟩
  · obtain ⟨s, hsess⟩ := hs.session
    exact ⟨s, Option.some.inj (hv.symm.trans hsess)⟩
  · obtain ⟨e, he, _, hclosed, _⟩ := isModel_iff.1 h.1
    cases he
    have hnone : get r.event CALL_ID = none := get_of_closed hclosed (by decide)
    rw [SealedRecord.raw_body, hnone] at hv
    cases hv

theorem Sound.keyed (h : Sound W r) : r.raw.Keyed := keyed_of_valid h.readable (.current h.1)

theorem Sound.countable (h : Sound W r) : Countable r.raw.event r.raw.body := by
  obtain ⟨hs, _⟩ := h.sessionEvent
  obtain ⟨s, hid⟩ := hs.id
  obtain ⟨t, hsess⟩ := hs.session
  refine ⟨rfl, ?_, ?_⟩
  · simp [getNull_str hid, getNull_str hsess, CallKey.hashable, Json.hashable]
  · have hreason := hs.reason
    unfold AuditableMcp.optional at hreason
    unfold getNull
    simp only [SealedRecord.raw_body]
    cases hg : get r.event REASON with
    | none => rfl
    | some v =>
      rw [hg] at hreason
      obtain ⟨text, _, rfl⟩ := isOneOf_iff.1 hreason
      rfl

theorem Sound.rank (h : Sound W r) : rankOf r.raw.event = versionRank SPEC_VERSION := by
  have hv : versionOf (.obj r.event) = some SPEC_VERSION := by
    simp [versionOf, getNull_str h.sessionEvent.2]
  simp [rankOf, SealedRecord.raw, hv]

/-- A current record is of its operation's scope. -/
theorem Sound.operation (h : Sound W r) : ∃ sid id, AuditableMcp.operation r = (some sid, id) ∧
    scopeOf r.event = .str sid ∧ getNull r.event ID = .str id := by
  obtain ⟨hs, _⟩ := h.sessionEvent
  obtain ⟨id, hid⟩ := hs.id
  obtain ⟨sid, hsess⟩ := hs.session
  refine ⟨sid, id, ?_, ?_, getNull_str hid⟩
  · simp [AuditableMcp.operation, sessionId, eventId, hid, hsess]
  · simp [scopeOf, hsess]

/-- A current record that is neither an attempt nor aborted finished its operation. -/
theorem Sound.finished (h : Sound W r) (hatt : hasText r.event OUTCOME Outcome.attempted.text = false)
    (hab : hasText r.event OUTCOME Outcome.aborted.text = false) : Finished r := by
  obtain ⟨hs, _⟩ := h.sessionEvent
  obtain ⟨outcome, ho⟩ := hs.outcome
  cases outcome with
  | attempted => exact absurd (hasText_iff.2 ho) (by simp [hatt])
  | success => exact .inl ho
  | failed => exact .inr ho
  | aborted => exact absurd (hasText_iff.2 ho) (by simp [hab])

end Sound

theorem lastHash_raw (rs : List SealedRecord) : lastHash (rs.map (·.raw)) = .str (tailHashOf W rs) := by
  induction rs using List.reverseRecOn with
  | nil => rfl
  | append_singleton rs r _ => simp [lastHash, tailHashOf, links, SealedRecord.raw]

theorem Versioned.of_sound {rs : List SealedRecord} (h : ∀ r ∈ rs, Sound W r) : Versioned W (rs.map (·.raw)) where
  domain := by
    intro x hx
    obtain ⟨r, hr, rfl⟩ := List.mem_map.1 hx
    exact (h r hr).2
  valid := by
    intro x hx
    obtain ⟨r, hr, rfl⟩ := List.mem_map.1 hx
    exact .current (h r hr).1
  ordered := by
    rw [List.pairwise_map]
    refine List.pairwise_of_forall_mem_list fun a ha b hb m n hm hn => ?_
    rw [(h a ha).rank] at hm
    rw [(h b hb).rank] at hn
    exact (Option.some.inj (hm.symm.trans hn)).le

/-- **What a host seals is well sealed**, given that the options' checks of signatures, countersignatures and
identity pass. -/
theorem Mirrors.wellSealed {h : Host} {rs : List SealedRecord} (hm : Mirrors W h rs)
    (hnum : rs.Pairwise fun a b => ∀ n, numberedAs a.event = some n → numberedAs b.event ≠ some n)
    (hsig : ∀ r ∈ rs, Signed o r.event) (hcs : ∀ r ∈ rs, Countersigned W o r.raw)
    (hid : ∀ r ∈ rs, Identified o r.raw) : WellSealed W o (rs.map (·.raw)) := by
  have hraw : ∀ {i : Nat} {x : RawRecord}, (rs.map (·.raw))[i]? = some x → ∃ r, rs[i]? = some r ∧ r.raw = x := by
    intro i x hx
    rw [List.getElem?_map] at hx
    exact Option.map_eq_some_iff.1 hx
  refine ⟨?_, ?_, ?_, ?_, List.pairwise_map.2 hnum, ?_, ?_, ?_⟩
  · intro i x hx
    obtain ⟨r, hr, rfl⟩ := hraw hx
    exact pyEq_nat.2 (by simp [SealedRecord.raw, (hm.chain.getElem? hr).1])
  · intro i x hx
    obtain ⟨r, hr, rfl⟩ := hraw hx
    obtain ⟨_, hprev, _⟩ := chain_getElem? (links W) hm.chain hr
    rw [← List.map_take, lastHash_raw (W := W)]
    exact congrArg Json.str hprev
  · intro x hx
    obtain ⟨r, hr, rfl⟩ := List.mem_map.1 hx
    obtain ⟨i, hi⟩ := List.mem_iff_getElem?.1 hr
    exact ⟨r.recordHash, (hm.chain.getElem? hi).2.1, rfl⟩
  · intro i x hx hatt hab
    obtain ⟨r, hr, rfl⟩ := hraw hx
    have hsound := hm.sound r (List.mem_of_getElem? hr)
    obtain ⟨j, hj, a, ha, hatta, hop⟩ := hm.lifecycle.preceded i r hr (hsound.finished hatt hab)
    have hmem : a.raw ∈ (rs.map (·.raw)).take i := by
      rw [← List.map_take]
      exact List.mem_map_of_mem (List.mem_of_getElem? (by rw [List.getElem?_take_of_lt hj]; exact ha))
    obtain ⟨sid, id, hopr, hscope, hidr⟩ := hsound.operation
    obtain ⟨sid', id', hopa, hscope', hida⟩ := (hm.sound a (List.mem_of_getElem? ha)).operation
    rw [hopr, hopa] at hop
    cases hop
    exact ⟨a.raw, hmem, hatta, hscope'.trans hscope.symm, hida.trans hidr.symm⟩
  all_goals
    intro x hx
    obtain ⟨r, hr, rfl⟩ := List.mem_map.1 hx
  · exact hsig r hr
  · exact hcs r hr
  · exact hid r hr

/-! ## Whole runs -/

/-- A host and the registries around it: one operation, or changes of the registries between two. -/
inductive KeyedStep (K : Crypto) (W : World) (signer : Signer) (c : Config) :
    Host × Registries → Host × Registries → Prop
  | op {h h' : Host} {s s' : Registries} (o : HostOp) (x : Except Raise Unit) :
      Runs (keyed K W signer).env (o.run W c h) s (x, h') s' → KeyedStep K W signer c (h, s) (h', s')
  | keys {h : Host} {s s' : Registries} : s.Later s' → KeyedStep K W signer c (h, s) (h, s')

/-- A verifier of a host's records: its digest, and its own signature check, over the registry as it is now. -/
def signatureOptions (K : Crypto) (W : World) (h : Host) (s : Registries) : VerifyOptions where
  anchoredDigest := some h.ledger.digest
  signatureChecker := some (s.tool.check K W)

/-- And one that checks countersignatures, requires them, and expects the host's identity. -/
def countersignedOptions (K : Crypto) (W : World) (c : Config) (hostKeyIds : List Str) (h : Host) (s : Registries) :
    VerifyOptions :=
  { signatureOptions K W h s with
    countersignatureChecker := some (s.host.confirms K)
    expectedIdentity := some ⟨c.logId, hostKeyIds⟩
    countersignatureRequired := true }

section Runs

variable {c : Config} {h : Host} {s : Registries}

theorem vetted_new (hno : c.hasRepository = false) : Vetted W (keyed K W signer) c .new s where
  consistent := ⟨mirrors_new, fun _ => rfl, fun hyes => by simp [hno] at hyes⟩
  vouched r hr := by cases hr
  triple r hr := by cases hr
  numbered := .nil
  decided sid ss hss := by cases hss

theorem keyed_vetted (hj : JcsSpec W.dumps InDomain) (hl : c.level = .l2) (hno : c.hasRepository = false)
    {s₀ : Registries} {x : Host × Registries}
    (hr : Relation.ReflTransGen (KeyedStep K W signer c) (Host.new, s₀) x) :
    Vetted W (keyed K W signer) c x.1 x.2 := by
  have hE := @keyed_fair K W signer c
  induction hr with
  | refl => exact vetted_new hno
  | @tail y z _ hstep ih =>
    cases hstep with
    | op o x hrun => exact ih.moves hj hE hl hno (run_moves hE hrun)
    | @keys h s s' hlater =>
      have hmove : Move W (keyed K W signer) c (h, s) (h, s') := .turn .clockNow [] (by simp) ⟨hlater, trivial⟩
      exact ih.step hj hE hl hno hmove

/-- A vetted host's signed records pass the registry's check. -/
theorem Vetted.signed (hl : c.level = .l2) (hv : Vetted W (keyed K W signer) c h s)
    (ho : ∀ check, o.signatureChecker = some check → check = s.tool.check K W) :
    ∀ r ∈ h.ledger.records, Signed o r.event := by
  intro r hr check hcheck _
  rw [ho check hcheck]
  exact (hv.vouched r hr hl).2.2

/-- Its countersignature triples are whole or absent. -/
theorem Vetted.present (hv : Vetted W (keyed K W signer) c h s) {r : SealedRecord} (hr : r ∈ h.ledger.records) :
    (c.countersigner = none → r.raw.present = 0) ∧ ∀ key, c.countersigner = some key →
      r.raw.present = 3 ∧ r.raw.logId = .str c.logId ∧ r.raw.hostKeyId = .str key ∧
      ∃ p g, countersignaturePayload W r.raw.seq r.raw.hostTs r.raw.logId r.raw.previousHash r.raw.recordHash = .ok p ∧
        r.raw.hostSignature = .str g ∧ ∃ s₀, Registries.Later s₀ s ∧ signer s₀ p (.ok g) := by
  have ht := hv.triple r hr
  unfold Triple at ht
  cases hc : c.countersigner with
  | none =>
    rw [hc] at ht
    refine ⟨fun _ => ?_, by simp⟩
    simp [RawRecord.present, SealedRecord.raw, optText, ht]
  | some key =>
    rw [hc] at ht
    obtain ⟨p, g, hp, hg, hk, hlog, hsigned⟩ := ht
    refine ⟨by simp, fun key' hkey => ?_⟩
    cases hkey
    refine ⟨?_, ?_, ?_, p, g, ?_, ?_, hsigned⟩
    · simp [RawRecord.present, SealedRecord.raw, optText, hg, hk, hlog]
    · simp [SealedRecord.raw, optText, hlog]
    · simp [SealedRecord.raw, optText, hk]
    · simpa [SealedRecord.raw, optText, hlog] using hp
    · simp [SealedRecord.raw, optText, hg]

/-- Under options it meets, a vetted host's records show nothing but missing signer numbers. -/
theorem Vetted.verifies (hv : Vetted W (keyed K W signer) c h s) (ho : o.Bare)
    (hdigest : o.anchoredDigest = some h.ledger.digest) (hsig : ∀ r ∈ h.ledger.records, Signed o r.event)
    (hcs : ∀ r ∈ h.ledger.records, Countersigned W o r.raw) (hid : ∀ r ∈ h.ledger.records, Identified o r.raw) :
    ∃ report, verifyLedger W o (h.ledger.records.map (·.raw)) = .ok report ∧
      (∀ i ∈ report.issues, i.kind = .signerSeqGap) ∧
      (o.signatureChecker.isSome = true → o.countersignatureChecker.isSome = true → report.unchecked = []) := by
  have hm := hv.consistent.mirrors
  have hsound : ∀ x ∈ h.ledger.records.map (·.raw), ∃ r, Sound W r ∧ r.raw = x := by
    intro x hx
    obtain ⟨r, hr, rfl⟩ := List.mem_map.1 hx
    exact ⟨r, hm.sound r hr, rfl⟩
  refine verifyLedger_gaps ho (hm.wellSealed hv.numbered hsig hcs hid) (.of_sound hm.sound) ?_ ?_ ?_
  · intro x hx
    obtain ⟨r, hr, rfl⟩ := hsound x hx
    exact hr.keyed
  · intro x hx
    obtain ⟨r, hr, rfl⟩ := hsound x hx
    exact hr.countable
  · intro d hd
    rw [hdigest] at hd
    cases hd
    rw [lastHash_raw (W := W)]
    exact congrArg Json.str hm.ledger.2.symm

/-- **Host and verifier agree.** Whatever a Level-2 host in memory is asked, in any order and any sessions,
and however its key registries grow and revoke meanwhile, the verifier finds nothing in its records but
missing signer numbers; and where it countersigns, correctly, under a key the verifier expects, a verifier
that checks and requires this finds no more, and leaves nothing unchecked. -/
theorem host_verifier_agree (hj : JcsSpec W.dumps InDomain) (hl : c.level = .l2) (hno : c.hasRepository = false)
    {s₀ : Registries} (hr : Relation.ReflTransGen (KeyedStep K W signer c) (Host.new, s₀) (h, s)) :
    (∃ report, verifyLedger W (signatureOptions K W h s) (h.ledger.records.map (·.raw)) = .ok report ∧
      ∀ i ∈ report.issues, i.kind = .signerSeqGap) ∧
    ∀ key hostKeyIds, c.countersigner = some key → signer.Correct K key → key ∈ hostKeyIds →
      ∃ report, verifyLedger W (countersignedOptions K W c hostKeyIds h s) (h.ledger.records.map (·.raw)) = .ok report ∧
        (∀ i ∈ report.issues, i.kind = .signerSeqGap) ∧ report.unchecked = [] := by
  have hv : Vetted W (keyed K W signer) c h s := keyed_vetted hj hl hno hr
  constructor
  · have hcs : ∀ r ∈ h.ledger.records, Countersigned W (signatureOptions K W h s) r.raw := by
      refine fun r hr => ⟨?_, fun _ confirm hc => by cases hc⟩
      cases hc : c.countersigner with
      | none => exact .inr ⟨(hv.present hr).1 hc, rfl⟩
      | some key => exact .inl ((hv.present hr).2 key hc).1
    obtain ⟨report, hreport, hissues, _⟩ := hv.verifies ⟨rfl, rfl⟩ rfl
      (hv.signed hl fun check hc => (Option.some.inj hc).symm) hcs (fun r _ expected he => by cases he)
    exact ⟨report, hreport, hissues⟩
  · intro key hostKeyIds hkey hcorrect hmem
    have hcs : ∀ r ∈ h.ledger.records, Countersigned W (countersignedOptions K W c hostKeyIds h s) r.raw := by
      intro r hr
      obtain ⟨h3, _, hk, p, g, hp, hg, s₁, hlater, hsigned⟩ := (hv.present hr).2 key hkey
      refine ⟨.inl h3, fun _ confirm hc => ⟨p, hp, ?_⟩⟩
      cases hc
      rw [hk, hg]
      exact KeyRegistry.confirms_later hlater.host (hcorrect s₁ p g hsigned)
    have hid : ∀ r ∈ h.ledger.records, Identified (countersignedOptions K W c hostKeyIds h s) r.raw := by
      intro r hr expected he
      obtain ⟨h3, hlog, hk, _⟩ := (hv.present hr).2 key hkey
      cases he
      exact ⟨h3, hlog, key, hmem, hk⟩
    obtain ⟨report, hreport, hissues, hunchecked⟩ := hv.verifies ⟨rfl, rfl⟩ rfl
      (hv.signed hl fun check hc => (Option.some.inj hc).symm) hcs hid
    exact ⟨report, hreport, hissues, hunchecked rfl rfl⟩

end Runs

/-! ## A signed and countersigned record -/

def TOOL_KEY : PublicKey := .ed25519 ((b64StandardDecode (.str (lit
  "MCowBQYDK2VwAyEA6FZYVLg/OG2GIsSr6BSESkPMJZYqjJUNF2XeJ9Pgc9Y="))).getD [])

def HOST_KEY : PublicKey := .ed25519 ((b64StandardDecode (.str (lit
  "MCowBQYDK2VwAyEAfAUEWnIdqtlStjkMylcBvg/+tEEnAFLt4b6bcK5Kcx4="))).getD [])

/-- The record of the signed attempt, before its countersignature. -/
def signedRecord : SealedRecord where
  event := signedAttempt
  seq := 0
  hostTs := SAMPLE_TS
  previousHash := GENESIS_HASH
  recordHash := lit "f30c197d74a20f1300ef82ecdc81a798b4428a31d452083f428d5af7297f0ed9"

def HOST_SIGNATURE : Str :=
  lit "05XP7I1HsBa8Jnn-fz9Cv-VF01UVEws10EPXknJC1k48P-fggMxbBF61NI4i_8E3PHw8nRwfPs_YBlBjPyN6Ag"

/-- What a countersignature of the record is over. -/
def signedPayload : Json :=
  .obj [(lit "host_ts", .str SAMPLE_TS), (lit "log_id", .str (lit "partition")),
    (lit "previous_hash", .str GENESIS_HASH), (lit "record_hash", .str signedRecord.recordHash), (lit "seq", .int 0)]

/-- Ed25519 on the two signatures made here, and nothing else. -/
def sampleCrypto : Crypto where
  ed25519 key signature payload :=
    (key = TOOL_KEY && b64urlEncode signature = (lit
        "bMw2AlRi6EXHzGezftHIrjhbbS892xlP3dLx5KXgXFvTayXsNeZKlABac2DC3BbDc6-8MzBvd9PTrWWuiH4jBw") &&
      payload = jcs (.obj (signedAttempt.filter fun m => m.1 ≠ SIGNATURE))) ||
    (key = HOST_KEY && b64urlEncode signature = HOST_SIGNATURE && payload = jcs signedPayload)
  ecdsa _ _ _ _ := false

/-- One tool key and one host key, the tool's revoked or not. -/
def sampleRegistries (revoked : Bool) : Registries where
  tool := ⟨fun k => if k = lit "tool-1" then some ⟨.ed25519, TOOL_KEY, revoked⟩ else none⟩
  host := ⟨fun k => if k = lit "host-1" then some ⟨.ed25519, HOST_KEY, false⟩ else none⟩

/-- A countersigner that holds the host key of these registries. -/
def sampleSigner : Signer := fun s p x =>
  s.host = (sampleRegistries false).host ∧ p = jcs signedPayload ∧ x = .ok HOST_SIGNATURE

def signedConfig : Config where
  level := .l2
  countersign := .host
  hasVerifier := true
  countersigner := some (lit "host-1")
  logId := lit "partition"
  hasRepository := false
  verifier_of_l2 := verifier_of_verifier
  countersigner_iff := host_one_countersigns

theorem sampleSigner_correct : sampleSigner.Correct sampleCrypto (lit "host-1") := by
  rintro s p g ⟨hs, rfl, hg⟩
  cases hg
  rw [hs]
  decide +kernel

theorem signedAttempt_verifies : (sampleRegistries false).tool.verify sampleCrypto reference signedAttempt = .ok none := by
  decide +kernel

theorem signedRecord_sealed : sampleHost.ledger.seal reference signedAttempt SAMPLE_TS = .ok signedRecord := by
  decide +kernel

theorem signedAttempt_admitted : admitEvent reference signedAttempt none true sampleHost = (.ok SAMPLE_SESSION, sampleHost) := by
  have hvalid : validAuditEvent reference (.obj signedAttempt) = true := by decide
  have hdom : InDomain (.obj signedAttempt) := by decide
  exact admitEvent_ok reference hvalid hdom (by decide) (by decide) (by decide)

/-- The record, countersigned. -/
def countersignedRecord : SealedRecord :=
  { signedRecord with
    hostSignature := some HOST_SIGNATURE, hostKeyId := some (lit "host-1"), logId := some (lit "partition") }

/-- The sample host, the number of the signed attempt received. -/
def notedHost : Host := sampleHost.receive (lit "tool-1") 0 SAMPLE_SESSION

theorem signedAttempt_noted : Runs (keyed sampleCrypto reference sampleSigner).env
    (verifySignature signedConfig signedAttempt SAMPLE_SESSION sampleHost) (sampleRegistries false)
      (.ok none, notedHost) (sampleRegistries false) := by
  have hnoted : noteReceived signedAttempt (lit "tool-1") 0 SAMPLE_SESSION sampleHost = notedHost := by
    simp [noteReceived, flagGap, sampleHost, Session.new, notedHost]
  rw [← hnoted]
  exact verifySignature_runs signedConfig rfl (by decide) (by decide) (by decide) ⟨.refl _, signedAttempt_verifies.symm⟩

theorem notedHost_session : notedHost.sessions SAMPLE_SESSION =
    some { Session.new with received := Function.update Session.new.received (lit "tool-1") (some 0) } := rfl

theorem notedHost_decides : decideAttempt reference signedConfig signedAttempt SAMPLE_SESSION notedHost =
    sealAttempt reference signedConfig signedAttempt SAMPLE_SESSION notedHost := by
  refine decideAttempt_new reference signedConfig rfl (fun s hs => ?_) ?_
  · rw [notedHost_session] at hs
    cases hs
    rfl
  · unfold checkReplay
    rw [notedHost_session]
    rfl

/-- The signed attempt is sealed and countersigned. -/
theorem signedAttempt_runs : ∃ h, Runs (keyed sampleCrypto reference sampleSigner).env
    ((HostOp.attempt signedAttempt none none).run reference signedConfig sampleHost) (sampleRegistries false)
      (.ok (), h) (sampleRegistries false) ∧ h.ledger.records = [countersignedRecord] := by
  have hlater := Registries.Later.refl (sampleRegistries false)
  have hpayload : countersignaturePayload reference (.int signedRecord.seq) (.str signedRecord.hostTs)
      (.str signedConfig.logId) (.str signedRecord.previousHash) (.str signedRecord.recordHash) = .ok (jcs signedPayload) := by
    decide +kernel
  have hdom : InDomain (.obj signedAttempt) := by decide
  have hsign : (keyed sampleCrypto reference sampleSigner).env (sampleRegistries false) (.sign (jcs signedPayload))
      (.ok HOST_SIGNATURE) (sampleRegistries false) := ⟨hlater, rfl, rfl, rfl⟩
  have hsealed : notedHost.ledger.seal reference signedAttempt SAMPLE_TS = .ok signedRecord := signedRecord_sealed
  have hseal := sealRecord_countersigned reference signedConfig rfl rfl hsealed hpayload (digestOf_eq_ok hdom) hsign
  have hattempt : Runs (keyed sampleCrypto reference sampleSigner).env
      (sealAttempt reference signedConfig signedAttempt SAMPLE_SESSION notedHost) (sampleRegistries false) _
        (sampleRegistries false) :=
    sealAttempt_runs reference signedConfig ⟨hlater, trivial⟩ ⟨hlater, trivial⟩ hseal
  rw [← notedHost_decides] at hattempt
  have haccept : ∃ a, acceptOf reference countersignedRecord = .ok a := by
    unfold acceptOf
    exact ⟨_, dif_pos (by decide)⟩
  obtain ⟨a, ha⟩ := haccept
  have hrun := handleAttempt_runs reference signedConfig rfl signedAttempt_admitted signedAttempt_noted hattempt
  rw [Option.elim_some] at hrun
  refine ⟨_, Act.runs_bind (ha ▸ hrun) (.ret _ _), rfl⟩

theorem sampleRegistries_later : (sampleRegistries false).Later (sampleRegistries true) := by
  refine ⟨.single (.revoke (lit "tool-1") ?_), .refl⟩
  simp only [KeyRegistry.revoke, sampleRegistries, ↓reduceIte]
  congr 2
  funext k
  by_cases hk : k = lit "tool-1" <;> simp [hk]

/-- A host that sealed and countersigned a signed attempt, the tool's key revoked after. -/
theorem host_verifier_agree_one : ∃ h : Host, h.ledger.records = [countersignedRecord] ∧
    (∃ report, verifyLedger reference (signatureOptions sampleCrypto reference h (sampleRegistries true))
        [countersignedRecord.raw] = .ok report ∧ ∀ i ∈ report.issues, i.kind = .signerSeqGap) ∧
      ∃ report, verifyLedger reference (countersignedOptions sampleCrypto reference signedConfig [lit "host-1"] h
          (sampleRegistries true)) [countersignedRecord.raw] = .ok report ∧
        (∀ i ∈ report.issues, i.kind = .signerSeqGap) ∧ report.unchecked = [] := by
  obtain ⟨h, hrun, hrecords⟩ := signedAttempt_runs
  have hopen : Relation.ReflTransGen (KeyedStep sampleCrypto reference sampleSigner signedConfig)
      (Host.new, sampleRegistries false) (sampleHost, sampleRegistries false) :=
    .single (.op (.openSession SAMPLE_SESSION) _ (.ret _ _))
  have hsealed := (hopen.tail (.op (.attempt signedAttempt none none) _ hrun)).tail (.keys sampleRegistries_later)
  obtain ⟨hsigned, hcountersigned⟩ := host_verifier_agree reference_jcs rfl rfl hsealed
  rw [hrecords] at hsigned hcountersigned
  exact ⟨h, hrecords, hsigned, hcountersigned (lit "host-1") [lit "host-1"] rfl sampleSigner_correct (List.mem_singleton.2 rfl)⟩

end AuditableMcp
