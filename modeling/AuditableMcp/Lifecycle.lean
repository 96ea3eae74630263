import AuditableMcp.HostMoves
import AuditableMcp.Lib.Json
/-!
# The life of an operation in a host's chain

A single host over one store: its five tables mirror the records it committed (`Mirrors`), an append in
doubt is at most one more record that still fits (`Consistent`), and so no move seals a duplicate or an
orphan (`Lifecycle`). A restart rebuilds the tables from the store and mirrors it again.
-/
namespace AuditableMcp

open JsonValue HashChain Effect

/-! ## The lifecycle of a chain -/

/-- The operation a record is of: its session and id. -/
def operation (r : SealedRecord) : Option Str × Str := (sessionId r.event, eventId r.event)

/-- A `success` or `failed` outcome. -/
def Finished (r : SealedRecord) : Prop :=
  get r.event OUTCOME = some (.str Outcome.success.text) ∨ get r.event OUTCOME = some (.str Outcome.failed.text)

/-- What holds of every operation along a chain. -/
structure Lifecycle (W : World) (rs : List SealedRecord) : Prop where
  /-- At most one attempt per id in the whole partition. -/
  attempts : rs.Pairwise fun a b =>
    isAttempt a.event = true → isAttempt b.event = true → eventId a.event ≠ eventId b.event
  /-- At most one terminal record per session and id. -/
  terminals : rs.Pairwise fun a b =>
    isAttempt a.event = false → isAttempt b.event = false → operation a ≠ operation b
  /-- No attempt after its operation's terminal record. -/
  concluded : rs.Pairwise fun a b =>
    isAttempt a.event = false → isAttempt b.event = true → operation a ≠ operation b
  /-- A success or failure has its attempt before it. -/
  preceded : ∀ (i : Nat) (r : SealedRecord), rs[i]? = some r → Finished r →
    ∃ j < i, ∃ a, rs[j]? = some a ∧ isAttempt a.event = true ∧ operation a = operation r
  /-- No two records are of one canonical event. -/
  distinct : rs.Pairwise fun a b => canonicalize W (.obj a.event) ≠ canonicalize W (.obj b.event)

/-- A record whose event a current host admits. -/
def Sound (W : World) (r : SealedRecord) : Prop :=
  validAuditEvent W (.obj r.event) = true ∧ InDomain (.obj r.event)

/-- What makes a record one the chain `rs` may continue with. -/
structure Due (W : World) (rs : List SealedRecord) (r : SealedRecord) : Prop where
  sound : Sound W r
  attempt : isAttempt r.event = true → ∀ a ∈ rs, isAttempt a.event = true → eventId a.event ≠ eventId r.event
  open' : ∀ a ∈ rs, isAttempt a.event = false → operation a ≠ operation r
  preceded : Finished r → ∃ a ∈ rs, isAttempt a.event = true ∧ operation a = operation r
  distinct : ∀ a ∈ rs, canonicalize W (.obj a.event) ≠ canonicalize W (.obj r.event)

variable {W : World}

theorem lifecycle_nil : Lifecycle W [] :=
  ⟨.nil, .nil, .nil, fun i r h => by simp at h, .nil⟩

theorem pairwise_concat {α : Type} {R : α → α → Prop} {l : List α} {a : α} (hl : l.Pairwise R)
    (ha : ∀ b ∈ l, R b a) : (l ++ [a]).Pairwise R :=
  List.pairwise_append.2 ⟨hl, List.pairwise_singleton R a, fun b hb _ h => List.mem_singleton.1 h ▸ ha b hb⟩

/-- The step: a record that is due keeps the lifecycle. -/
theorem Lifecycle.concat {rs : List SealedRecord} {r : SealedRecord} (h : Lifecycle W rs) (hd : Due W rs r) :
    Lifecycle W (rs ++ [r]) where
  attempts := pairwise_concat h.attempts fun a ha hatt hr => hd.attempt hr a ha hatt
  terminals := pairwise_concat h.terminals fun a ha hatt _ => hd.open' a ha hatt
  concluded := pairwise_concat h.concluded fun a ha hatt _ => hd.open' a ha hatt
  preceded i b hb hfin := by
    rcases Nat.lt_or_ge i rs.length with hi | hi
    · rw [List.getElem?_append_left hi] at hb
      obtain ⟨j, hj, a, ha, hatt⟩ := h.preceded i b hb hfin
      exact ⟨j, hj, a, by rw [List.getElem?_append_left (by omega)]; exact ha, hatt⟩
    · have hin := (List.getElem?_eq_some_iff.1 hb).1
      rw [List.length_append, List.length_singleton] at hin
      obtain rfl : i = rs.length := by omega
      rw [List.getElem?_concat_length] at hb
      obtain rfl : r = b := Option.some.inj hb
      obtain ⟨a, ha, hatt⟩ := hd.preceded hfin
      obtain ⟨j, hj, rfl⟩ := List.getElem_of_mem ha
      have hget : (rs ++ [r])[j]? = some rs[j] := by
        rw [List.getElem?_append_left hj, List.getElem?_eq_getElem hj]
      exact ⟨j, hj, rs[j], hget, hatt⟩
  distinct := pairwise_concat h.distinct hd.distinct

/-! ## The tables mirror the chain -/

/-- A session's tables, read off the records of a chain. -/
structure Session.Mirrors (W : World) (sid : Str) (rs : List SealedRecord) (s : Session) : Prop where
  accepted : ∀ id, id ∈ s.accepted ↔ ∃ r ∈ rs, isAttempt r.event = true ∧ operation r = (some sid, id)
  outcomes : ∀ id d, s.outcomes id = some d ↔
    ∃ r ∈ rs, isAttempt r.event = false ∧ operation r = (some sid, id) ∧ digestOf W r.event = .ok d
  resolved : ∀ id, id ∈ s.resolved ↔ id ∈ s.accepted ∧ (s.outcomes id).isSome = true

/-- The partition's tables, read off the records of a chain. -/
structure Remembers (W : World) (h : Host) (rs : List SealedRecord) : Prop where
  attempts : ∀ id r, h.sealedAttempts id = some r ↔ r ∈ rs ∧ isAttempt r.event = true ∧ eventId r.event = id
  digests : ∀ d, d ∈ h.sealedDigests ↔ ∃ r ∈ rs, digestOf W r.event = .ok d

/-- A host that has committed `rs`, and nothing else. -/
structure Mirrors (W : World) (h : Host) (rs : List SealedRecord) : Prop extends Remembers W h rs where
  chain : ValidChain W rs
  ledger : h.ledger.At W rs
  lifecycle : Lifecycle W rs
  sound : ∀ r ∈ rs, Sound W r
  issued : ∀ r ∈ rs, ∀ sid, sessionId r.event = some sid → sid ∈ h.issued
  openIssued : ∀ sid, (h.sessions sid).isSome = true → sid ∈ h.issued
  sessions : ∀ sid ss, h.sessions sid = some ss → ss.Mirrors W sid rs

theorem Session.Mirrors.le {sid : Str} {rs : List SealedRecord} {s s' : Session} (h : s.Mirrors W sid rs)
    (hle : s.Le s') : s'.Mirrors W sid rs := by
  refine ⟨?_, ?_, ?_⟩
  · rw [hle.accepted]; exact h.accepted
  · rw [hle.outcomes]; exact h.outcomes
  · rw [hle.accepted, hle.outcomes, hle.resolved]; exact h.resolved

theorem Mirrors.neutral {h h' : Host} {rs : List SealedRecord} (hm : Mirrors W h rs) (hn : Neutral h h') :
    Mirrors W h' rs where
  attempts := by rw [hn.sealedAttempts]; exact hm.attempts
  digests := by rw [hn.sealedDigests]; exact hm.digests
  chain := hm.chain
  ledger := by rw [hn.ledger]; exact hm.ledger
  lifecycle := hm.lifecycle
  sound := hm.sound
  issued := by rw [hn.issued]; exact hm.issued
  openIssued sid hs := by
    rw [hn.issued]
    exact hm.openIssued sid (by rwa [hn.isSome] at hs)
  sessions sid ss hss := by
    obtain ⟨s, hs, hle⟩ := hn.open hss
    exact (hm.sessions sid s hs).le hle

theorem Remembers.congr {h h' : Host} {rs : List SealedRecord} (hm : Remembers W h rs)
    (ha : h'.sealedAttempts = h.sealedAttempts) (hd : h'.sealedDigests = h.sealedDigests) :
    Remembers W h' rs :=
  ⟨by rw [ha]; exact hm.attempts, by rw [hd]; exact hm.digests⟩

/-- A session is new when nothing of it is in the chain. -/
theorem Session.Mirrors.new {sid : Str} {rs : List SealedRecord}
    (h : ∀ r ∈ rs, sessionId r.event ≠ some sid) : Session.new.Mirrors W sid rs := by
  have hop : ∀ r ∈ rs, ∀ id, operation r ≠ (some sid, id) := fun r hr id hop => h r hr (congrArg Prod.fst hop)
  refine ⟨fun id => ?_, fun id d => ?_, fun id => by simp [Session.new]⟩
  · simp only [Session.new, List.not_mem_nil, false_iff]
    rintro ⟨r, hr, _, ho⟩
    exact hop r hr id ho
  · simp only [Session.new, reduceCtorEq, false_iff]
    rintro ⟨r, hr, _, ho, _⟩
    exact hop r hr id ho

/-! ### One more record -/

theorem exists_mem_concat {α : Type} {P : α → Prop} {l : List α} {a : α} :
    (∃ b ∈ l ++ [a], P b) ↔ (∃ b ∈ l, P b) ∨ P a := by
  simp [or_and_right, exists_or]

/-- A record of another session leaves a session's tables right. -/
theorem Session.Mirrors.other {sid : Str} {rs : List SealedRecord} {r : SealedRecord} {s : Session}
    (h : s.Mirrors W sid rs) (hr : sessionId r.event ≠ some sid) : s.Mirrors W sid (rs ++ [r]) := by
  have hop : ∀ id, operation r ≠ (some sid, id) := fun id ho => hr (congrArg Prod.fst ho)
  refine ⟨fun id => ?_, fun id d => ?_, h.resolved⟩
  · rw [exists_mem_concat, h.accepted]
    simp [hop]
  · rw [exists_mem_concat, h.outcomes]
    simp [hop]

/-- An attempt of its own session enters `accepted`. -/
theorem Session.Mirrors.attempt {sid : Str} {rs : List SealedRecord} {r : SealedRecord} {s : Session}
    (h : s.Mirrors W sid rs) (hsid : sessionId r.event = some sid) (hatt : isAttempt r.event = true)
    (hd : ∀ a ∈ rs, isAttempt a.event = false → operation a ≠ operation r) : { s with accepted := s.accepted.insert (eventId r.event) }.Mirrors W sid (rs ++ [r]) := by
  have hop : operation r = (some sid, eventId r.event) := by rw [operation, hsid]
  -- its operation has no terminal record
  have hnone : s.outcomes (eventId r.event) = none := by
    rw [Option.eq_none_iff_forall_ne_some]
    intro d hsome
    obtain ⟨a, ha, hterm, hopa, _⟩ := (h.outcomes _ d).1 hsome
    exact hd a ha hterm (hopa.trans hop.symm)
  refine ⟨fun id => ?_, fun id d => ?_, fun id => ?_⟩
  · rw [exists_mem_concat, List.mem_insert_iff, h.accepted, hop]
    simp only [hatt, true_and, Prod.mk.injEq]
    constructor
    · rintro (rfl | hold)
      · exact .inr rfl
      · exact .inl hold
    · rintro (hold | rfl)
      · exact .inr hold
      · exact .inl rfl
  · rw [exists_mem_concat, h.outcomes]
    simp [hatt]
  · simp only [List.mem_insert_iff, h.resolved]
    constructor
    · rintro ⟨hacc, hout⟩
      exact ⟨.inr hacc, hout⟩
    · rintro ⟨rfl | hacc, hout⟩
      · simp [hnone] at hout
      · exact ⟨hacc, hout⟩

/-- A terminal record of its own session enters `outcomes`, and `resolved` where its attempt is in
`accepted`. -/
theorem Session.Mirrors.terminal {sid d : Str} {rs : List SealedRecord} {r : SealedRecord} {s : Session}
    (h : s.Mirrors W sid rs) (hsid : sessionId r.event = some sid) (hterm : isAttempt r.event = false)
    (hd : ∀ a ∈ rs, isAttempt a.event = false → operation a ≠ operation r)
    (hdig : digestOf W r.event = .ok d) : (s.conclude (eventId r.event) d).Mirrors W sid (rs ++ [r]) := by
  have hop : operation r = (some sid, eventId r.event) := by rw [operation, hsid]
  refine ⟨fun id => ?_, fun id d' => ?_, fun id => ?_⟩
  · rw [exists_mem_concat, Session.conclude, h.accepted]
    simp [hterm]
  · rw [exists_mem_concat]
    simp only [Session.conclude, Function.update_apply, hterm, hdig, hop, true_and, Prod.mk.injEq, Except.ok.injEq]
    split
    · next heq =>
      subst heq
      constructor
      · intro hsome
        exact .inr ⟨rfl, Option.some.inj hsome⟩
      · rintro (⟨a, ha, hta, hopa, _⟩ | ⟨_, rfl⟩)
        · exact absurd (hopa.trans hop.symm) (hd a ha hta)
        · rfl
    · next hne =>
      rw [h.outcomes]
      constructor
      · exact .inl
      · rintro (hold | ⟨rfl, _⟩)
        · exact hold
        · exact absurd rfl hne
  · simp only [Session.conclude, Function.update_apply]
    by_cases hid : id = eventId r.event
    · subst hid
      by_cases hacc : eventId r.event ∈ s.accepted
      · simp [hacc]
      · simp [hacc, h.resolved]
    · by_cases hacc : eventId r.event ∈ s.accepted
      · simp [hacc, hid, h.resolved]
      · simp [hacc, hid, h.resolved]

theorem Session.Mirrors.account {sid d : Str} {rs : List SealedRecord} {r : SealedRecord} {s : Session}
    (c : Config) (h : s.Mirrors W sid rs) (hsid : sessionId r.event = some sid) (hd : Due W rs r)
    (hdig : digestOf W r.event = .ok d) : (s.account c r.event d).Mirrors W sid (rs ++ [r]) := by
  have h' := h.le (s.decide_le c r.event)
  unfold Session.account
  split
  · next hatt => exact h'.attempt hsid hatt hd.open'
  · next hatt => exact h'.terminal hsid (by simpa using hatt) hd.open' hdig

theorem Remembers.recorded {h : Host} {rs : List SealedRecord} {r : SealedRecord} {d : Str}
    (hm : Remembers W h rs)
    (hd : isAttempt r.event = true → ∀ a ∈ rs, isAttempt a.event = true → eventId a.event ≠ eventId r.event)
    (hdig : digestOf W r.event = .ok d) : Remembers W (h.rememberWith r d) (rs ++ [r]) := by
  refine ⟨fun id a => ?_, fun d' => ?_⟩
  · simp only [Host.rememberWith, List.mem_append, List.mem_singleton]
    split
    · next hatt =>
      rw [Function.update_apply]
      split
      · next hid =>
        subst hid
        constructor
        · rintro ⟨⟩
          exact ⟨.inr rfl, hatt, rfl⟩
        · rintro ⟨ha | rfl, hatta, hida⟩
          · exact absurd hida (hd hatt a ha hatta)
          · rfl
      · next hid =>
        rw [hm.attempts]
        constructor
        · rintro ⟨ha, hrest⟩
          exact ⟨.inl ha, hrest⟩
        · rintro ⟨ha | rfl, hatta, hida⟩
          · exact ⟨ha, hatta, hida⟩
          · exact absurd hida.symm hid
    · next hatt =>
      rw [hm.attempts]
      constructor
      · rintro ⟨ha, hrest⟩
        exact ⟨.inl ha, hrest⟩
      · rintro ⟨ha | rfl, hatta, hida⟩
        · exact ⟨ha, hatta, hida⟩
        · exact absurd hatta hatt
  · simp only [Host.rememberWith, List.mem_insert_iff, hm.digests, exists_mem_concat, hdig, Except.ok.injEq]
    constructor
    · rintro (rfl | hold)
      · exact .inr rfl
      · exact .inl hold
    · rintro (hold | rfl)
      · exact .inr hold
      · exact .inl rfl

/-- The committed record extends what the host mirrors, its sessions given. -/
theorem Mirrors.extend {h h' : Host} {rs : List SealedRecord} {r : SealedRecord} (hm : Mirrors W h rs)
    (hfits : Fits W h r) (hd : Due W rs r) (hledger : h'.ledger = h.ledger.commit r)
    (hrem : Remembers W h' (rs ++ [r])) (hissued : h'.issued = h.issued)
    (hsid : ∀ sid, sessionId r.event = some sid → sid ∈ h.issued)
    (hopen : ∀ sid, (h'.sessions sid).isSome = (h.sessions sid).isSome)
    (hsess : ∀ sid ss, h'.sessions sid = some ss → ss.Mirrors W sid (rs ++ [r])) :
    Mirrors W h' (rs ++ [r]) :=
  { hrem with
    chain := validChain_concat hm.chain hm.ledger hfits.1 hfits.2.1 hfits.2.2
    ledger := by rw [hledger]; exact hm.ledger.commit r
    lifecycle := hm.lifecycle.concat hd
    sound := fun a ha => by
      rcases List.mem_append.1 ha with ha | ha
      · exact hm.sound a ha
      · exact List.mem_singleton.1 ha ▸ hd.sound
    issued := fun a ha sid hs => by
      rw [hissued]
      rcases List.mem_append.1 ha with ha | ha
      · exact hm.issued a ha sid hs
      · exact hsid sid (List.mem_singleton.1 ha ▸ hs)
    openIssued := fun sid hs => by
      rw [hissued]
      exact hm.openIssued sid (by rwa [hopen] at hs)
    sessions := hsess }

/-- A record sealed in an open session, accounted to it. -/
theorem Mirrors.sealed {h : Host} {rs : List SealedRecord} {r : SealedRecord} {sid d : Str} (c : Config)
    (hm : Mirrors W h rs) (hfits : Fits W h r) (hd : Due W rs r) (hdig : digestOf W r.event = .ok d)
    (hsid : sessionId r.event = some sid) (hopen : (h.sessions sid).isSome = true) :
    Mirrors W (account c r.event sid d (recorded r d h)) (rs ++ [r]) := by
  rw [account_eq]
  refine hm.extend hfits hd rfl ((hm.toRemembers.recorded hd.attempt hdig).congr rfl rfl) rfl ?_ ?_ ?_
  · intro sid' hsid'
    obtain rfl : sid = sid' := Option.some.inj (hsid.symm.trans hsid')
    exact hm.openIssued sid hopen
  · intro k
    simp only [Host.updateSession, recorded, Host.rememberWith, Host.commit]
    split <;> simp
  · intro k ss hss
    simp only [Host.updateSession, recorded, Host.rememberWith, Host.commit] at hss
    split at hss
    · next hk =>
      subst hk
      obtain ⟨s, hs, rfl⟩ := Option.map_eq_some_iff.1 hss
      exact (hm.sessions k s hs).account c hsid hd hdig
    · next hk =>
      exact (hm.sessions k ss hss).other fun heq => hk (Option.some.inj (heq.symm.trans hsid))

/-- A record whose session is not open here. -/
theorem Mirrors.recorded {h : Host} {rs : List SealedRecord} {r : SealedRecord} {sid d : Str}
    (hm : Mirrors W h rs) (hfits : Fits W h r) (hd : Due W rs r) (hdig : digestOf W r.event = .ok d)
    (hsid : sessionId r.event = some sid) (hissued : sid ∈ h.issued) (hclosed : h.sessions sid = none) :
    Mirrors W (recorded r d h) (rs ++ [r]) := by
  refine hm.extend hfits hd rfl ((hm.toRemembers.recorded hd.attempt hdig).congr rfl rfl) rfl ?_ (fun _ => rfl) ?_
  · intro sid' hsid'
    obtain rfl : sid = sid' := Option.some.inj (hsid.symm.trans hsid')
    exact hissued
  · intro k ss hss
    refine (hm.sessions k ss hss).other fun heq => ?_
    obtain rfl : sid = k := Option.some.inj (hsid.symm.trans heq)
    exact absurd (hss.symm.trans hclosed) (by simp)

/-! ## What a host is ready to seal is due -/

theorem sound_digest {r : SealedRecord} (h : Sound W r) : ∃ d, digestOf W r.event = .ok d :=
  ⟨_, digestOf_eq_ok h.2⟩

theorem Sound.sessionEvent {r : SealedRecord} (h : Sound W r) :
    SessionEvent r.event ∧ get r.event SPEC_VERSION_KEY = some (.str SPEC_VERSION) := by
  obtain ⟨e, he, hs⟩ := validAuditEvent_spec h.1
  cases he
  exact hs

theorem finished_not_attempt {r : SealedRecord} (h : Finished r) :
    isAttempt r.event = false ∧ hasText r.event OUTCOME Outcome.aborted.text = false := by
  have hne : ∀ a b : Outcome, a ≠ b → get r.event OUTCOME = some (.str a.text) →
      hasText r.event OUTCOME b.text = false := by
    intro a b hab ha
    refine Bool.eq_false_iff.2 fun hb => hab (Outcome.text_inj ?_)
    rw [hasText_iff, ha] at hb
    simpa using hb
  rcases h with h | h
  · exact ⟨hne _ _ (by decide) h, hne _ _ (by decide) h⟩
  · exact ⟨hne _ _ (by decide) h, hne _ _ (by decide) h⟩

/-- Two canonically equal events are of one id, and both attempts or neither. -/
theorem canonical_same (hj : JcsSpec W.dumps InDomain) {a b : SealedRecord} (ha : Sound W a) (hb : Sound W b)
    (h : canonicalize W (.obj a.event) = canonicalize W (.obj b.event)) :
    eventId a.event = eventId b.event ∧ (isAttempt b.event = true → isAttempt a.event = true) := by
  rw [canonicalize_ok ha.2, canonicalize_ok hb.2, Except.ok.injEq] at h
  have heq : JsonEq (.obj b.event) (.obj a.event) := (hj.eq_iff _ _ hb.2 ha.2).1 h.symm
  obtain ⟨s, hs⟩ := hb.sessionEvent.1.id
  refine ⟨?_, fun hatt => ?_⟩
  · simp [eventId, hs, heq.get_str hs]
  · rw [isAttempt, hasText_iff] at hatt ⊢
    exact heq.get_str hatt

variable {σ : Type} {E : Surroundings σ} {c : Config}

theorem Mirrors.due (hj : JcsSpec W.dumps InDomain) {h : Host} {s : σ} {rs : List SealedRecord} {e : Event}
    {sid : Str} {r : SealedRecord} (hm : Mirrors W h rs) (hready : Ready W E c h s e sid) (hev : r.event = e) :
    Due W rs r := by
  subst hev
  have hsound : Sound W r := ⟨hready.valid, hready.domain⟩
  obtain ⟨ss, hss⟩ := Option.isSome_iff_exists.1 hready.isOpen
  have hmirror := hm.sessions sid ss hss
  have hop : operation r = (some sid, eventId r.event) := by rw [operation, hready.session]
  have hattempt : isAttempt r.event = true → ∀ a ∈ rs, isAttempt a.event = true →
      eventId a.event ≠ eventId r.event := by
    intro hatt a ha hatta hid
    have hsome := (hm.attempts (eventId r.event) a).2 ⟨ha, hatta, hid⟩
    rw [hready.attempt hatt] at hsome
    cases hsome
  refine ⟨hsound, hattempt, ?_, ?_, ?_⟩
  · intro a ha hterm hopa
    obtain ⟨d, hd⟩ := sound_digest (hm.sound a ha)
    have hsome := (hmirror.outcomes (eventId r.event) d).2 ⟨a, ha, hterm, hopa.trans hop, hd⟩
    rw [hready.unconcluded ss hss] at hsome
    cases hsome
  · intro hfin
    obtain ⟨hterm, hnab⟩ := finished_not_attempt hfin
    obtain ⟨d, hd⟩ := sound_digest hsound
    rcases (hready.outcome hterm d hd).2 with hab | hacc
    · rw [hab] at hnab
      cases hnab
    · obtain ⟨a, ha, hatt, hopa⟩ := (hmirror.accepted _).1 (hacc ss hss)
      exact ⟨a, ha, hatt, hopa.trans hop.symm⟩
  · intro a ha hcanon
    obtain ⟨hid, hkind⟩ := canonical_same hj (hm.sound a ha) hsound hcanon
    cases hterm : isAttempt r.event with
    | true => exact hattempt hterm a ha (hkind hterm) hid
    | false =>
      obtain ⟨d, hd⟩ := sound_digest hsound
      have hda : digestOf W a.event = .ok d := by rw [← hd, digestOf, digestOf, hcanon]
      exact (hready.outcome hterm d hd).1 ((hm.digests d).2 ⟨a, ha, hda⟩)

/-! ## Moves keep a host consistent with its store -/

/-- A record that landed in the store under an append that failed. -/
structure Pending (W : World) (E : Surroundings σ) (h : Host) (s : σ) (rs : List SealedRecord)
    (p : SealedRecord) : Prop where
  store : E.store s = rs ++ [p]
  uncertain : h.tailUncertain = true
  due : Due W rs p
  fits : Fits W h p
  session : ∃ sid, sessionId p.event = some sid ∧ sid ∈ h.issued

/-- The host has committed `rs`: its records in memory, or the store's up to an append in doubt. -/
structure Consistent (W : World) (E : Surroundings σ) (c : Config) (h : Host) (s : σ)
    (rs : List SealedRecord) : Prop where
  mirrors : Mirrors W h rs
  kept : c.hasRepository = false → h.ledger.records = rs
  stored : c.hasRepository = true → E.store s = rs ∨ ∃ p, Pending W E h s rs p

theorem Mirrors.tail {h : Host} {rs : List SealedRecord} (hm : Mirrors W h rs) (b : Bool) :
    Mirrors W { h with tailUncertain := b } rs :=
  ⟨hm.toRemembers.congr rfl rfl, hm.chain, hm.ledger, hm.lifecycle, hm.sound, hm.issued, hm.openIssued,
    hm.sessions⟩

theorem store_turn (hE : E.Fair c) {s s' : σ} {q : Query} {x : Reply q} (hq : ∀ r, q ≠ .append r)
    (he : E.env s q x s') : E.store s' = E.store s := by
  have hc := hE.conditional he
  cases q with
  | append r => exact absurd rfl (hq r)
  | loadTail | readAll => exact hc.1
  | currentTime | verify _ | sign _ | clockNow | persistenceAvailable => exact hc

theorem Pending.lifecycle {h : Host} {s : σ} {rs : List SealedRecord} {p : SealedRecord}
    (hp : Pending W E h s rs p) (hm : Mirrors W h rs) : Lifecycle W (E.store s) := by
  rw [hp.store]
  exact hm.lifecycle.concat hp.due

/-- Where no append is in doubt, the store is what the host committed. -/
theorem Consistent.settled {h : Host} {s : σ} {rs : List SealedRecord} (hc : Consistent W E c h s rs)
    (hrepo : c.hasRepository = true) (hset : Settled c h) : E.store s = rs := by
  rcases hc.stored hrepo with hs | ⟨p, hp⟩
  · exact hs
  · exact absurd (hp.uncertain.symm.trans (hset hrepo)) (by simp)

/-- The last record of what the host committed lies behind its next position. -/
theorem Mirrors.last_lt {h : Host} {rs : List SealedRecord} {r : SealedRecord} (hm : Mirrors W h rs)
    (hlast : rs.getLast? = some r) : r.seq < h.ledger.count := by
  obtain ⟨l, rfl⟩ := List.getLast?_eq_some_iff.1 hlast
  have hseq := (chain_concat (links W)).1 hm.chain
  have hcount := hm.ledger.1
  simp only [links] at hseq
  simp only [List.length_append, List.length_singleton] at hcount
  omega

/-- A record that landed is the one in doubt. -/
theorem Consistent.landed {h : Host} {s : σ} {rs : List SealedRecord} {r : SealedRecord}
    (hc : Consistent W E c h s rs) (hl : Landed E c h s r) : Pending W E h s rs r := by
  rcases hc.stored hl.repository with hs | ⟨p, hp⟩
  · have hlt := hc.mirrors.last_lt (hs ▸ hl.last)
    have := hl.next.1
    omega
  · have hlast := hl.last
    rw [hp.store, List.getLast?_concat] at hlast
    exact Option.some.inj hlast ▸ hp

theorem Consistent.neutral {h h' : Host} {s : σ} {rs : List SealedRecord} (hc : Consistent W E c h s rs)
    (hn : Neutral h h') : Consistent W E c h' s rs := by
  refine ⟨hc.mirrors.neutral hn, fun hrepo => by rw [hn.ledger]; exact hc.kept hrepo, fun hrepo => ?_⟩
  rcases hc.stored hrepo with hst | ⟨p, hp⟩
  · exact .inl hst
  · refine .inr ⟨p, hp.store, hn.tailUncertain.trans hp.uncertain, hp.due, ?_, ?_⟩
    · unfold Fits
      rw [hn.ledger]
      exact hp.fits
    · rw [hn.issued]
      exact hp.session

/-- Sessions opened and closed leave what is committed, and what is in doubt, as they were. -/
theorem Consistent.sessions {h : Host} {s : σ} {rs : List SealedRecord} (hc : Consistent W E c h s rs)
    {sessions : Str → Option Session} {issued : List Str} (hsub : h.issued ⊆ issued)
    (hissued : ∀ sid, (sessions sid).isSome = true → sid ∈ issued)
    (hmirror : ∀ sid ss, sessions sid = some ss → ss.Mirrors W sid rs) :
    Consistent W E c { h with sessions := sessions, issued := issued } s rs := by
  obtain ⟨hm, hkept, hstored⟩ := hc
  refine ⟨⟨hm.toRemembers.congr rfl rfl, hm.chain, hm.ledger, hm.lifecycle, hm.sound, ?_, hissued, hmirror⟩,
    hkept, fun hrepo => ?_⟩
  · exact fun r hr sid hsid => hsub (hm.issued r hr sid hsid)
  · rcases hstored hrepo with hst | ⟨p, hp⟩
    · exact .inl hst
    · obtain ⟨sid, hsid, hmem⟩ := hp.session
      exact .inr ⟨p, hp.store, hp.uncertain, hp.due, hp.fits, sid, hsid, hsub hmem⟩

/-- A repeat of an attempt its session sealed accepts what the session already accepted. -/
theorem Mirrors.reaccept {h : Host} {rs : List SealedRecord} {sid id : Str} {r : SealedRecord}
    (hm : Mirrors W h rs) (hsealed : h.sealedAttempts id = some r) (hsid : sessionId r.event = some sid) :
    Neutral h (h.accept sid id) := by
  obtain ⟨hr, hatt, rfl⟩ := (hm.attempts id r).1 hsealed
  refine updateSession_neutral ?_
  intro s hs
  have hmem : eventId r.event ∈ s.accepted :=
    ((hm.sessions sid s hs).accepted _).2 ⟨r, hr, hatt, by rw [operation, hsid]⟩
  exact ⟨List.insert_of_mem hmem, rfl, rfl, List.Subset.refl _⟩

theorem Consistent.step (hj : JcsSpec W.dumps InDomain) (hE : E.Fair c) {h h' : Host} {s s' : σ}
    {rs : List SealedRecord} (hc : Consistent W E c h s rs) (hm : Move W E c (h, s) (h', s')) :
    ∃ rs', Consistent W E c h' s' rs' := by
  cases hm with
  | turn q x hq he =>
    have hs := store_turn hE hq he
    refine ⟨rs, hc.mirrors, hc.kept, fun hrepo => ?_⟩
    rw [hs]
    rcases hc.stored hrepo with hst | ⟨p, hp⟩
    · exact .inl hst
    · exact .inr ⟨p, { hp with store := hs.trans hp.store }⟩
  | note hn => exact ⟨rs, hc.neutral hn⟩
  | doubt =>
    refine ⟨rs, hc.mirrors.tail true, hc.kept, fun hrepo => ?_⟩
    rcases hc.stored hrepo with hst | ⟨p, hp⟩
    · exact .inl hst
    · exact .inr ⟨p, hp.store, rfl, hp.due, hp.fits, hp.session⟩
  | @ambiguous _ _ _ e sid r x hrepo hready hmade he =>
    have hst := hc.settled hrepo hready.settled
    refine ⟨rs, hc.mirrors.tail true, fun hno => by simp [hrepo] at hno, fun _ => ?_⟩
    rcases hE.conditional he with ha | ⟨hsame, _⟩
    · refine .inr ⟨r, ?_, rfl, hc.mirrors.due hj hready hmade.event, hmade.fits, sid, ?_, ?_⟩
      · rw [(storeAppend_eq_ok.1 ha).2, hst]
      · rw [hmade.event, hready.session]
      · exact hc.mirrors.openIssued sid hready.isOpen
    · exact .inl (hsame.trans hst)
  | @stored _ _ _ e sid d r hrepo hready hmade he hd =>
    have hst := hc.settled hrepo hready.settled
    have hdue := hc.mirrors.due hj hready hmade.event
    obtain rfl := hmade.event
    refine ⟨rs ++ [r], hc.mirrors.sealed c hmade.fits hdue hd hready.session hready.isOpen,
      fun hno => by simp [hrepo] at hno, fun _ => .inl ?_⟩
    rcases hE.conditional he with ha | ⟨_, err, hx⟩
    · rw [(storeAppend_eq_ok.1 ha).2, hst]
    · cases hx
  | @kept _ _ e sid d r hrepo hready hmade hd =>
    have hdue := hc.mirrors.due hj hready hmade.event
    obtain rfl := hmade.event
    refine ⟨rs ++ [r], hc.mirrors.sealed c hmade.fits hdue hd hready.session hready.isOpen,
      fun hno => ?_, fun hyes => by simp [hrepo] at hyes⟩
    rw [account_eq, ← hc.kept hno]
    rfl
  | @adopt _ _ r d hl hd =>
    have hp := hc.landed hl
    obtain ⟨sid, hsid, hissued⟩ := hp.session
    refine ⟨rs ++ [r], Mirrors.tail ?_ false, fun hno => by simp [hl.repository] at hno, fun _ => .inl hp.store⟩
    simp only [adopted, hsid]
    split
    · next hopen => exact hc.mirrors.sealed c hp.fits hp.due hd hsid hopen
    · next hclosed =>
      exact hc.mirrors.recorded hp.fits hp.due hd hsid hissued (by simpa [recorded, Host.rememberWith, Host.commit] using hclosed)
  | adoptRaised hl hd =>
    obtain ⟨d, hd'⟩ := sound_digest (hc.landed hl).due.sound
    rw [hd] at hd'
    cases hd'
  | @jump _ _ r hrepo hunc hlast hlt =>
    rcases hc.stored hrepo with hst | ⟨p, hp⟩
    · have := hc.mirrors.last_lt (hst ▸ hlast)
      omega
    · rw [hp.store, List.getLast?_concat] at hlast
      obtain rfl := Option.some.inj hlast
      have := hp.fits.1
      omega
  | clear hno =>
    refine ⟨rs, hc.mirrors.tail false, hc.kept, fun hrepo => ?_⟩
    rcases hc.stored hrepo with hst | ⟨p, hp⟩
    · exact .inl hst
    · refine absurd ⟨hp.fits.1, hp.fits.2.1⟩ (hno p ?_).1
      rw [hp.store, List.getLast?_concat]
  | reaccept hsealed hsid _ => exact ⟨rs, hc.neutral (hc.mirrors.reaccept hsealed hsid)⟩
  | @opened _ _ sid hnew =>
    refine ⟨rs, hc.sessions (fun _ hm => List.mem_insert_of_mem hm) ?_ ?_⟩
    · intro k hk
      rw [Function.update_apply] at hk
      split at hk
      · next heq => exact heq ▸ List.mem_insert_self
      · exact List.mem_insert_of_mem (hc.mirrors.openIssued k hk)
    · intro k ss hss
      rw [Function.update_apply] at hss
      split at hss
      · next heq =>
        cases hss
        exact .new fun r hr hsid => hnew (hc.mirrors.issued r hr sid (heq ▸ hsid))
      · exact hc.mirrors.sessions k ss hss
  | @closed _ _ sid ss hss =>
    have hsub : ∀ k t, Function.update h.sessions sid none k = some t → h.sessions k = some t := by
      intro k t hk
      rw [Function.update_apply] at hk
      split at hk
      · cases hk
      · exact hk
    refine ⟨rs, (hc.sessions (List.Subset.refl _) ?_ ?_).neutral (flagAll_neutral _ _ _)⟩
    · intro k hk
      obtain ⟨t, ht⟩ := Option.isSome_iff_exists.1 hk
      exact hc.mirrors.openIssued k (by rw [hsub k t ht]; rfl)
    · exact fun k t hk => hc.mirrors.sessions k t (hsub k t hk)

/-! ## Runs of operations -/

theorem Consistent.moves (hj : JcsSpec W.dumps InDomain) (hE : E.Fair c) {x y : Host × σ}
    {rs : List SealedRecord} (hc : Consistent W E c x.1 x.2 rs)
    (hm : Relation.ReflTransGen (Move W E c) x y) : ∃ rs', Consistent W E c y.1 y.2 rs' := by
  induction hm with
  | refl => exact ⟨rs, hc⟩
  | tail _ hstep ih =>
    obtain ⟨rs', hc'⟩ := ih
    exact hc'.step hj hE hstep

theorem Consistent.run (hj : JcsSpec W.dumps InDomain) (hE : E.Fair c) {o : HostOp} {h h' : Host} {s s' : σ}
    {x : Except Raise Unit} {rs : List SealedRecord} (hc : Consistent W E c h s rs)
    (hr : Runs E.env (o.run W c h) s (x, h') s') : ∃ rs', Consistent W E c h' s' rs' :=
  have hc' : Consistent W E c (h, s).1 (h, s).2 rs := hc
  hc'.moves hj hE (run_moves hE hr)

/-! ## Restart -/

/-- A chain a restart can be made from. -/
structure Restorable (W : World) (rs : List SealedRecord) : Prop where
  chain : ValidChain W rs
  lifecycle : Lifecycle W rs
  sound : ∀ r ∈ rs, Sound W r

/-- Whatever a host was doing, its store holds such a chain. -/
theorem Consistent.restorable {h : Host} {s : σ} {rs : List SealedRecord} (hc : Consistent W E c h s rs)
    (hrepo : c.hasRepository = true) : Restorable W (E.store s) := by
  have hm := hc.mirrors
  rcases hc.stored hrepo with hst | ⟨p, hp⟩
  · rw [hst]
    exact ⟨hm.chain, hm.lifecycle, hm.sound⟩
  · rw [hp.store]
    refine ⟨validChain_concat hm.chain hm.ledger hp.fits.1 hp.fits.2.1 hp.fits.2.2, hm.lifecycle.concat hp.due, ?_⟩
    intro r hr
    rcases List.mem_append.1 hr with hr | hr
    · exact hm.sound r hr
    · exact List.mem_singleton.1 hr ▸ hp.due.sound

/-- No record follows its operation's terminal record. -/
theorem Lifecycle.open' {done rs : List SealedRecord} {r : SealedRecord} (h : Lifecycle W (done ++ r :: rs)) :
    ∀ a ∈ done, isAttempt a.event = false → operation a ≠ operation r := by
  intro a ha hterm
  have hr : r ∈ r :: rs := List.mem_cons_self
  cases hatt : isAttempt r.event with
  | true => exact (List.pairwise_append.1 h.concluded).2.2 a ha r hr hterm hatt
  | false => exact (List.pairwise_append.1 h.terminals).2.2 a ha r hr hterm hatt

theorem receiveMax_le (s : Session) (k : Str) (n : Int) : s.Le (s.receiveMax k n) :=
  ⟨rfl, rfl, rfl, List.Subset.refl _⟩

theorem restoreSigner_le (e : Event) (s : Session) : s.Le (s.restoreSigner e) := by
  unfold Session.restoreSigner
  split
  · exact ⟨rfl, rfl, rfl, fun _ hm => List.mem_insert_of_mem hm⟩
  · exact .refl s

theorem withSigners_le (s : Session) (t : Option SignerTracker) : s.Le (s.withSigners t) := by
  cases t with
  | none => exact .refl s
  | some t =>
    have hdec : ∀ (ms d : List (Str × Int)), d ⊆ ms.foldl (fun d m => d.insert m) d := by
      intro ms
      induction ms with
      | nil => exact fun d => List.Subset.refl d
      | cons m ms ih => exact fun d _ hd => ih _ (List.mem_insert_of_mem hd)
    have hrec : ∀ (ms : List (Str × Int)) (u : Session), u.Le (ms.foldl (fun s m => s.receiveMax m.1 m.2) u) := by
      intro ms
      induction ms with
      | nil => exact fun u => .refl u
      | cons m ms ih => exact fun u => (receiveMax_le u m.1 m.2).trans (ih _)
    have hfirst : s.Le { s with decided := t.decided.foldl (fun d m => d.insert m) s.decided } :=
      ⟨rfl, rfl, rfl, hdec _ _⟩
    exact hfirst.trans (hrec _ _)

/-- One record of a restored session: its own are accounted, the others passed over. -/
theorem restoreRecord_mirrors {sid : Str} {done rs : List SealedRecord} {r : SealedRecord} {s : Session}
    (h : s.Mirrors W sid done) (hl : Lifecycle W (done ++ r :: rs)) (hs : Sound W r) :
    ∃ s', restoreRecord W sid s r = .ok s' ∧ s'.Mirrors W sid (done ++ [r]) := by
  have hcurrent : isCurrent r.event = true := by
    rw [isCurrent, hasText_iff]
    exact hs.sessionEvent.2
  unfold restoreRecord
  by_cases hsid : sessionId r.event = some sid
  · simp only [hsid, hcurrent, and_self, ↓reduceIte]
    have h' := h.le (restoreSigner_le r.event s)
    split
    · next hatt => exact ⟨_, rfl, h'.attempt hsid hatt hl.open'⟩
    · next hatt =>
      obtain ⟨d, hd⟩ := sound_digest hs
      rw [hd]
      exact ⟨_, rfl, h'.terminal hsid (by simpa using hatt) hl.open' hd⟩
  · simp only [hsid, false_and, ↓reduceIte]
    exact ⟨s, rfl, h.other hsid⟩

theorem restoredSession_mirrors {sid : Str} (rs : List SealedRecord) : ∀ {done : List SealedRecord} {s : Session},
    s.Mirrors W sid done → Lifecycle W (done ++ rs) → (∀ r ∈ rs, Sound W r) →
    ∃ s', restoredSession W sid s rs = .ok s' ∧ s'.Mirrors W sid (done ++ rs) := by
  induction rs with
  | nil => exact fun {done s} h _ _ => ⟨s, rfl, by rwa [List.append_nil]⟩
  | cons r rs ih =>
    intro done s h hl hs
    obtain ⟨s₁, h₁, hm₁⟩ := restoreRecord_mirrors h hl (hs r List.mem_cons_self)
    obtain ⟨s', h', hm'⟩ := ih hm₁ (by simpa using hl) fun a ha => hs a (List.mem_cons_of_mem r ha)
    exact ⟨s', by simp [restoredSession, h₁, h'], by simpa using hm'⟩

/-- A host being restored: the records remembered so far, and the sessions opened so far. -/
structure Restoring (W : World) (h : Host) (all done : List SealedRecord) : Prop extends Remembers W h done where
  issued : ∀ r ∈ done, ∀ sid, sessionId r.event = some sid → sid ∈ h.issued
  openIssued : ∀ sid, (h.sessions sid).isSome = true → sid ∈ h.issued
  sessions : ∀ sid ss, h.sessions sid = some ss → ss.Mirrors W sid all
  ledger : h.ledger = Ledger.resumeFrom all.getLast?
  tail : h.tailUncertain = false

theorem rememberAll_wp {env : σ → (q : Query) → Reply q → σ → Prop} {all : List SealedRecord}
    (rs : List SealedRecord) : ∀ {h : Host} {s : σ} {done : List SealedRecord}, Restoring W h all done →
    Lifecycle W (done ++ rs) → (∀ r ∈ rs, Sound W r) →
    (rememberAll W rs).wp (.seq env) (fun x h' s' => x = .ok () ∧ s' = s ∧ Restoring W h' all (done ++ rs)) h s := by
  induction rs with
  | nil => exact fun {h s done} hr _ _ => ⟨rfl, rfl, by rwa [List.append_nil]⟩
  | cons r rs ih =>
    intro h s done hr hl hs
    obtain ⟨d, hd⟩ := sound_digest (hs r List.mem_cons_self)
    obtain ⟨sid, hsid⟩ := (hs r List.mem_cons_self).sessionEvent.1.session
    have hsession : sessionId r.event = some sid := by simp [sessionId, hsid]
    have hfresh : isAttempt r.event = true → ∀ a ∈ done, isAttempt a.event = true →
        eventId a.event ≠ eventId r.event := fun hatt a ha hatta =>
      (List.pairwise_append.1 hl.attempts).2.2 a ha r List.mem_cons_self hatta hatt
    have hrest : ∀ a ∈ rs, Sound W a := fun a ha => hs a (List.mem_cons_of_mem r ha)
    simp only [rememberAll, remember, hd, canonically, hsession, Act.wp_bind, Act.wp_lift, Act.wp_modify, Act.next_ok]
    rw [List.append_cons] at hl ⊢
    refine ih ?_ hl hrest
    refine { (hr.toRemembers.recorded hfresh hd).congr rfl rfl with
      issued := ?_, openIssued := ?_, sessions := hr.sessions, ledger := hr.ledger, tail := hr.tail }
    · intro a ha sid' hsid'
      rcases List.mem_append.1 ha with ha | ha
      · exact List.mem_insert_of_mem (hr.issued a ha sid' hsid')
      · obtain rfl := List.mem_singleton.1 ha
        obtain rfl : sid = sid' := Option.some.inj (hsession.symm.trans hsid')
        exact List.mem_insert_self
    · exact fun k hk => List.mem_insert_of_mem (hr.openIssued k hk)

theorem restoreAll_wp {env : σ → (q : Query) → Reply q → σ → Prop} {all : List SealedRecord}
    (hl : Lifecycle W all) (hs : ∀ r ∈ all, Sound W r) (opens : List OpenSession) :
    ∀ {h : Host} {s : σ}, Restoring W h all all →
    (restoreAll W all opens).wp (.seq env) (fun x h' s' => x = .ok () ∧ s' = s ∧ Restoring W h' all all) h s := by
  induction opens with
  | nil => exact fun {h s} hr => ⟨rfl, rfl, hr⟩
  | cons entry opens ih =>
    intro h s hr
    have hnew : Session.new.Mirrors W entry.sessionId [] := .new fun r hr => by simp at hr
    obtain ⟨ss, hss, hm⟩ := restoredSession_mirrors all hnew hl hs
    simp only [restoreAll, hss, canonically, Act.wp_bind, Act.wp_lift, Act.wp_modify, Act.next_ok]
    refine ih { hr.toRemembers.congr rfl rfl with
      issued := ?_, openIssued := ?_, sessions := ?_, ledger := hr.ledger, tail := hr.tail }
    · exact fun a ha sid hsid => List.mem_insert_of_mem (hr.issued a ha sid hsid)
    · intro k hk
      simp only [Function.update_apply] at hk
      split at hk
      · next heq => exact heq ▸ List.mem_insert_self
      · exact List.mem_insert_of_mem (hr.openIssued k hk)
    · intro k t ht
      simp only [Function.update_apply] at ht
      split at ht
      · next heq =>
        obtain rfl := Option.some.inj ht
        exact heq ▸ hm.le (withSigners_le ss entry.signers)
      · exact hr.sessions k t ht

/-- A restart mirrors the store it was made from. -/
theorem resume_consistent (hE : E.Fair c) (hrepo : c.hasRepository = true) {s s' : σ} {h' : Host}
    {x : Except Raise Unit} {opens : List OpenSession} (hst : Restorable W (E.store s))
    (hr : Runs E.env (resume W opens .new) s (x, h') s') :
    E.store s' = E.store s ∧ (x = .ok () → Consistent W E c h' s' (E.store s')) := by
  have hw : (resume W opens).wp (.seq E.env) (fun x h' s' => E.store s' = E.store s ∧
      (x = .ok () → Consistent W E c h' s' (E.store s'))) .new s := by
    simp only [resume, Act.wp_bind, Act.wp_await_seq]
    intro x s₁ he
    obtain ⟨hsame, hx⟩ := hE.conditional he
    rcases hx with rfl | ⟨err, rfl⟩
    · have hstart : Restoring W { Host.new with ledger := Ledger.resumeFrom (E.store s).getLast? } (E.store s) [] :=
        { attempts := by simp [Host.new], digests := by simp [Host.new], issued := by simp,
          openIssued := by simp [Host.new], sessions := by simp [Host.new], ledger := rfl, tail := rfl }
      simp only [Act.next_ok, Act.wp_bind, Act.wp_modify]
      refine Act.wp_mono ?_ (rememberAll_wp (E.store s) hstart hst.lifecycle hst.sound)
      rintro x h s₂ ⟨rfl, rfl, hrem⟩
      simp only [Act.next_ok, Act.wp_bind]
      refine Act.wp_mono ?_ (restoreAll_wp hst.lifecycle hst.sound opens hrem)
      rintro x h s₃ ⟨rfl, rfl, hres⟩
      simp only [Act.next_ok, Act.wp_modify]
      refine ⟨hsame, fun _ => Consistent.neutral ?_ (flagAll_neutral _ _ _)⟩
      rw [hsame]
      refine ⟨{ hres.toRemembers with
        chain := hst.chain, ledger := ?_, lifecycle := hst.lifecycle, sound := hst.sound,
        issued := hres.issued, openIssued := hres.openIssued, sessions := hres.sessions },
        fun hno => by simp [hrepo] at hno, fun _ => .inl hsame⟩
      rw [hres.ledger]
      exact Ledger.resumeFrom_at hst.chain
    · exact ⟨hsame, by rintro ⟨⟩⟩
  exact Act.wp_runs hw hr

/-! ## Whole runs -/

/-- A host, its configuration, and the store under it. -/
structure Service where
  config : Config
  host : Host
  store : List SealedRecord

/-- A store, and nothing known of the rest. -/
def onlyStore : Surroundings (List SealedRecord) := ⟨storeEnv, id, fun _ _ => True, fun _ _ _ => True⟩

theorem onlyStore_fair (c : Config) : onlyStore.Fair c :=
  ⟨id, fun _ _ => trivial, fun _ _ => trivial, fun _ _ => trivial, fun _ => trivial⟩

/-- One operation of the host, or a restart over its store. A process that dies inside an operation
leaves what a cancellation there leaves, and its tables are not read again. -/
inductive Service.Step (W : World) : Service → Service → Prop
  | op {c : Config} {h h' : Host} {s s' : List SealedRecord} (o : HostOp) (x : Except Raise Unit) :
      Runs storeEnv (o.run W c h) s (x, h') s' → Step W ⟨c, h, s⟩ ⟨c, h', s'⟩
  | restart {c : Config} {h h' : Host} {s s' : List SealedRecord} (c' : Config) (opens : List OpenSession) :
      c'.hasRepository = true → Runs storeEnv (resume W opens .new) s (.ok (), h') s' →
      Step W ⟨c, h, s⟩ ⟨c', h', s'⟩

/-- A host just constructed over an empty store. -/
def Service.start (c : Config) : Service := ⟨c, .new, []⟩

theorem mirrors_new : Mirrors W .new [] where
  attempts := by simp [Host.new]
  digests := by simp [Host.new]
  chain := trivial
  ledger := Ledger.empty_at
  lifecycle := lifecycle_nil
  sound := by simp
  issued := by simp
  openIssued := by simp [Host.new]
  sessions := by simp [Host.new]

/-- At every point of every run of a single host, its tables mirror its store. -/
theorem service_consistent (hj : JcsSpec W.dumps InDomain) {c₀ : Config} (hrepo : c₀.hasRepository = true)
    {S : Service} (hr : Relation.ReflTransGen (Service.Step W) (Service.start c₀) S) :
    S.config.hasRepository = true ∧ ∃ rs, Consistent W onlyStore S.config S.host S.store rs := by
  induction hr with
  | refl => exact ⟨hrepo, [], mirrors_new, fun _ => rfl, fun _ => .inl rfl⟩
  | tail _ hstep ih =>
    obtain ⟨hrepo', rs, hc⟩ := ih
    cases hstep with
    | op o x hrun => exact ⟨hrepo', hc.run hj (onlyStore_fair _) hrun⟩
    | restart c' opens hc' hrun =>
      exact ⟨hc', _, (resume_consistent (onlyStore_fair c') hc' (hc.restorable hrepo') hrun).2 rfl⟩

/-- **The lifecycle of every operation.** Whatever a single host is asked, in any order, whatever its
verifier, signer, clock and store answer, and however often it is restarted, its stored chain has one
attempt per id, one terminal record per session and id, none before its attempt or after its end, and no
event twice. -/
theorem service_lifecycle (hj : JcsSpec W.dumps InDomain) {c₀ : Config} (hrepo : c₀.hasRepository = true)
    {S : Service} (hr : Relation.ReflTransGen (Service.Step W) (Service.start c₀) S) :
    Lifecycle W S.store := by
  obtain ⟨hrepo', rs, hc⟩ := service_consistent hj hrepo hr
  exact (hc.restorable hrepo').lifecycle

/-- A service's turn, and whether an append in it raises. -/
def Service.turn (W : World) (S : Service) : HostTurn × Bool → Option Service
  | (.op o, raises) =>
    ((o.run W S.config S.host).exec (storeAnswers raises) S.store).map fun x => ⟨S.config, x.1.2, x.2⟩
  | (.resumed c opens, raises) =>
    match c.hasRepository, (resume W opens .new).exec (storeAnswers raises) S.store with
    | true, some ((.ok (), h), s) => some ⟨c, h, s⟩
    | _, _ => none
  | (.constructed _, _) => none

/-- A schedule is a run. -/
theorem Service.plays {S S' : Service} {ts : List (HostTurn × Bool)}
    (h : Runs.acts (Service.turn W) (fun _ _ => true) S ts = some S') : Relation.ReflTransGen (Service.Step W) S S' := by
  refine Relation.ReflTransGen.mono (fun S S' hact => ?_) _ _ (Runs.run_of_acts h)
  obtain ⟨⟨t, raises⟩, -, hturn⟩ := hact
  cases t with
  | constructed c => cases hturn
  | resumed c opens =>
    simp only [Service.turn] at hturn
    split at hturn
    · next hrepo hrun =>
      cases hturn
      exact .restart c opens hrepo (Prog.exec_runs storeAnswers_env hrun)
    · cases hturn
  | op o =>
    obtain ⟨⟨⟨x, h'⟩, s'⟩, hrun, rfl⟩ := Option.map_eq_some_iff.1 hturn
    exact .op o x (Prog.exec_runs storeAnswers_env hrun)

/-- The first append lands and raises; the attempt sent again adopts its record; the outcome comes twice; and after a
restart there is another attempt, sent twice. -/
def sampleDays : List (HostTurn × Bool) :=
  [(.op (.openSession SAMPLE_SESSION), false), (.op (.attempt sampleAttempt none none), true),
    (.op (.attempt sampleAttempt none none), false), (.op (.outcome sampleOutcome none), false),
    (.op (.outcome sampleOutcome none), false), (.resumed sampleConfig [], false),
    (.op (.openSession OTHER_SESSION), false), (.op (.attempt otherAttempt none none), false),
    (.op (.attempt otherAttempt none none), false)]

theorem service_lifecycle_days : ∃ S : Service,
    Relation.ReflTransGen (Service.Step reference) (Service.start sampleConfig) S ∧ S.store = sampleChain ∧
      Lifecycle reference S.store := by
  have hplayed : (Runs.acts (Service.turn reference) (fun _ _ => true) (Service.start sampleConfig) sampleDays).map
      Service.store = some sampleChain := by decide +kernel
  obtain ⟨S, hS, hstore⟩ := Option.map_eq_some_iff.1 hplayed
  exact ⟨S, Service.plays hS, hstore, service_lifecycle reference_jcs rfl (Service.plays hS)⟩

end AuditableMcp
