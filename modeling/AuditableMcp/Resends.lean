import AuditableMcp.HostMoves
/-!
# What a host stores after an ambiguous append

Hosts over one conditional store, each watched: the records its appends stored (`Watched.stored`), and the
one of them whose append raised and whose tail it has not read back since (`Watched.unread`). A host that
reads the tail back while its own record is still the last recalls every record it stored (`Recalls`), so it
seals no event a second time (`stored_once`). Another writer's record after it hides it: `settleTail`
continues from that writer's tail, and the resent event is sealed again (`stored_twice`).
-/
namespace AuditableMcp

open JsonValue HashChain Effect

/-! ## Watching the hosts -/

variable {ι : Type} [DecidableEq ι]

/-- The store, and what each host's appends left in it. -/
structure Watched (ι : Type) where
  store : List SealedRecord
  stored : ι → List SealedRecord
  unread : ι → Option SealedRecord

def Watched.start (store : List SealedRecord) : Watched ι := ⟨store, fun _ => [], fun _ => none⟩

/-- An append raised after it was stored. -/
def raisedWith (r : SealedRecord) : Except Raise Unit → Option SealedRecord
  | .ok _ => none
  | .error _ => some r

/-- What an answer to host `i` leaves: nothing is unread once the tail is read, or another record appended. -/
def Watched.after (i : ι) (s : Watched ι) : (q : Query) → Reply q → List SealedRecord → Watched ι
  | .append r, x, store =>
    if store = s.store then { s with unread := Function.update s.unread i none }
    else ⟨store, Function.update s.stored i (s.stored i ++ [r]), Function.update s.unread i (raisedWith r x)⟩
  | .loadTail, .ok _, store => ⟨store, s.stored, Function.update s.unread i none⟩
  | _, _, store => { s with store }

/-- The store answers as it does unwatched. -/
def watchEnv (i : ι) (s : Watched ι) (q : Query) (x : Reply q) (s' : Watched ι) : Prop :=
  storeEnv s.store q x s'.store ∧ s' = s.after i q x s'.store

/-- A host that reads the tail finds its own unread record last: no other writer's stands after it. -/
def ReadInTime (i : ι) (s : Watched ι) : (q : Query) → Reply q → Prop
  | .loadTail, .ok _ => ∀ r, s.unread i = some r → s.store.getLast? = some r
  | _, _ => True

theorem after_store (i : ι) (s : Watched ι) (q : Query) (x : Reply q) (t : List SealedRecord) :
    (s.after i q x t).store = t := by
  unfold Watched.after
  split
  · split
    · next h => exact h.symm
    · rfl
  · rfl
  · rfl

theorem after_stored_ne {i j : ι} (hj : j ≠ i) (s : Watched ι) (q : Query) (x : Reply q) (t : List SealedRecord) :
    (s.after i q x t).stored j = s.stored j := by
  unfold Watched.after
  split
  · split <;> simp [hj]
  · rfl
  · rfl

/-- Every answer of the store can be watched. -/
theorem watchEnv_after (i : ι) {s : Watched ι} {q : Query} {x : Reply q} {t : List SealedRecord}
    (h : storeEnv s.store q x t) : watchEnv i s q x (s.after i q x t) := by
  unfold watchEnv
  rw [after_store]
  exact ⟨h, rfl⟩

variable (W : World) (c : Config) (i : ι)

/-- A host among the others, its reads in time. -/
def watcher : Surroundings (Watched ι) where
  env s q x s' := watchEnv i s q x s' ∧ ReadInTime i s q x
  store := (·.store)
  vouched _ _ := True
  signed _ _ _ := True

/-- A record stored again. -/
def Again (r r' : SealedRecord) : Prop := canonicalize W (.obj r.event) = canonicalize W (.obj r'.event)

/-- What a host asks: it appends no event twice. -/
def mayAppendOnce (s : Watched ι) : Query → Prop
  | .append r => mayAppend W s.store (.append r) ∧ ∀ r₀ ∈ s.stored i, ¬ Again W r₀ r
  | _ => True

/-- What the other hosts may do. -/
def Meanwhile (s s' : Watched ι) : Prop :=
  Extends W s.store s'.store ∧ s'.stored i = s.stored i ∧ s'.unread i = s.unread i

omit [DecidableEq ι] in
theorem Meanwhile.refl (s : Watched ι) : Meanwhile W i s s := ⟨.refl _, rfl, rfl⟩

omit [DecidableEq ι] in
theorem Meanwhile.trans {W : World} {i : ι} {a b d : Watched ι} (h : Meanwhile W i a b) (h' : Meanwhile W i b d) :
    Meanwhile W i a d :=
  ⟨h.1.trans h'.1, h'.2.1.trans h.2.1, h'.2.2.trans h.2.2⟩

variable {W} {c} {i}

theorem watcher_fair : (watcher i).Fair c where
  conditional he := he.1.1
  vouched_mono _ _ := trivial
  signed_mono _ _ := trivial
  verified _ _ := trivial
  countersigned _ := trivial

/-- An answer to a host leaves what is known of the others. -/
theorem meanwhile_of_env {s s' : Watched ι} {q : Query} {x : Reply q} (hm : mayAppend W s.store q)
    (he : watchEnv i s q x s') {j : ι} (hj : j ≠ i) : Meanwhile W j s s' := by
  refine ⟨extends_of_env hm he.1, ?_⟩
  rw [he.2]
  refine ⟨after_stored_ne hj .., ?_⟩
  unfold Watched.after
  split
  · split <;> simp [hj]
  · simp [hj]
  · rfl

/-- A stored record is its host's last. -/
theorem stored_of_env {s s' : Watched ι} {r : SealedRecord} {x : Except Raise Unit}
    (he : watchEnv i s (.append r) x s') (ha : storeAppend s.store r = .ok s'.store) :
    s'.stored i = s.stored i ++ [r] ∧ s'.unread i = raisedWith r x := by
  obtain ⟨_, hs'⟩ := he
  have hne : s'.store ≠ s.store := by
    intro heq
    have hlen := congrArg List.length (storeAppend_eq_ok.1 ha).2
    simp [heq] at hlen
  rw [hs']
  simp [Watched.after, hne]

/-- An append that stored nothing. -/
theorem unstored_of_env {s s' : Watched ι} {r : SealedRecord} {x : Except Raise Unit}
    (he : watchEnv i s (.append r) x s') (hs : s'.store = s.store) : s'.stored i = s.stored i := by
  rw [he.2]
  simp [Watched.after, hs]

/-! ## What a host recalls -/

/-- An event that the host would not seal again. -/
def Recalled (W : World) (h : Host) (r : SealedRecord) : Prop :=
  hashOf W (.obj r.event) ∈ h.sealedDigests ∧
    (isAttempt r.event = true → (h.sealedAttempts (eventId r.event)).isSome = true)

/-- The record stands where the host, in doubt, expects its next. -/
def AtEnd (h : Host) (r : SealedRecord) : Prop :=
  h.tailUncertain = true ∧ r.seq = h.ledger.count ∧ r.previousHash = h.ledger.digest

/-- Each record the host's appends stored is recalled, or stands at the end of its ledger and `P` of it is
known. -/
structure Recalls (W : World) (i : ι) (P : Watched ι → SealedRecord → Prop) (h : Host) (s : Watched ι) : Prop where
  continues : Continues W h s.store
  domain : ∀ r ∈ s.stored i, InDomain (.obj r.event)
  recalled : ∀ r ∈ s.stored i, Recalled W h r ∨ (AtEnd h r ∧ P s r)

/-- Between its asks: it has yet to read the tail. -/
def Unread (i : ι) (s : Watched ι) (r : SealedRecord) : Prop := s.unread i = some r

/-- It has read the tail. -/
def Last (s : Watched ι) (r : SealedRecord) : Prop := s.store.getLast? = some r

omit [DecidableEq ι] in
theorem Recalled.mono {h h' : Host} {r : SealedRecord} (hr : Recalled W h r) (hd : h.sealedDigests ⊆ h'.sealedDigests)
    (ha : ∀ id, (h.sealedAttempts id).isSome = true → (h'.sealedAttempts id).isSome = true) : Recalled W h' r :=
  ⟨hd hr.1, fun hatt => ha _ (hr.2 hatt)⟩

section Recalls

variable {P : Watched ι → SealedRecord → Prop} {h h' : Host} {s s' : Watched ι}

omit [DecidableEq ι] in
/-- Nothing that bears on the recall has changed. -/
theorem Recalls.congr (hr : Recalls W i P h s) (hl : h'.ledger = h.ledger)
    (ht : h.tailUncertain = true → h'.tailUncertain = true) (hd : h'.sealedDigests = h.sealedDigests)
    (ha : h'.sealedAttempts = h.sealedAttempts) : Recalls W i P h' s := by
  refine ⟨hr.continues.of_ledger hl, hr.domain, fun r hm => ?_⟩
  rcases hr.recalled r hm with hrec | ⟨⟨hunc, hseq, hprev⟩, hp⟩
  · exact .inl (hrec.mono (by rw [hd]; exact List.Subset.refl _) (by simp [ha]))
  · exact .inr ⟨⟨ht hunc, by rw [hl]; exact hseq, by rw [hl]; exact hprev⟩, hp⟩

omit [DecidableEq ι] in
/-- No append is in doubt: all that was stored is recalled. -/
theorem Recalls.all (hr : Recalls W i P h s) (hset : h.tailUncertain = false) {r : SealedRecord}
    (hm : r ∈ s.stored i) : Recalled W h r := by
  rcases hr.recalled r hm with hrec | ⟨⟨hunc, _⟩, _⟩
  · exact hrec
  · simp [hset] at hunc

omit [DecidableEq ι] in
/-- A host that has stored nothing. -/
theorem Recalls.blank (hc : Continues W h s.store) (hs : s.stored i = []) : Recalls W i P h s :=
  ⟨hc, by simp [hs], by simp [hs]⟩

omit [DecidableEq ι] in
/-- Where all is recalled, what `P` says does not matter. -/
theorem Recalls.of_recalled (hr : Recalls W i P h s) (hc : Continues W h' s'.store) (hs : s'.stored i = s.stored i)
    (hall : ∀ r ∈ s.stored i, Recalled W h' r) {P' : Watched ι → SealedRecord → Prop} : Recalls W i P' h' s' := by
  refine ⟨hc, ?_, ?_⟩
  · rw [hs]; exact hr.domain
  · rw [hs]; exact fun r hm => .inl (hall r hm)

theorem eventId_congr {e e' : Event} (h : JsonEq (.obj e) (.obj e')) : eventId e = eventId e' := by
  unfold eventId
  cases hk : JsonValue.get e ID with
  | none =>
    have hg := h.get ID
    cases hk' : JsonValue.get e' ID with
    | none => rfl
    | some v => simp [hk, hk'] at hg
  | some v =>
    by_cases hv : ∃ t, v = .str t
    · obtain ⟨t, rfl⟩ := hv
      rw [h.get_str hk]
    · cases hk' : JsonValue.get e' ID with
      | none => cases v <;> first | rfl | exact absurd ⟨_, rfl⟩ hv
      | some v' =>
        have hv' : ∀ t, v' ≠ .str t := by
          rintro t rfl
          exact hv ⟨t, Option.some.inj (hk.symm.trans (h.symm.get_str hk'))⟩
        cases v <;> cases v' <;> first | rfl | exact absurd ⟨_, rfl⟩ hv | exact absurd rfl (hv' _)

theorem isAttempt_congr {e e' : Event} (h : JsonEq (.obj e) (.obj e')) : isAttempt e = isAttempt e' := by
  apply Bool.eq_iff_iff.2
  unfold isAttempt
  rw [hasText_iff, hasText_iff]
  exact ⟨h.get_str, h.symm.get_str⟩

/-- The event of a record once stored is not ready to be sealed. -/
theorem Recalls.fresh (hj : JcsSpec W.dumps InDomain) (hr : Recalls W i P h s) {e : Event} {sid : Str}
    (hrepo : c.hasRepository = true) (hready : Ready W (watcher i) c h s e sid) {r : SealedRecord} (hev : r.event = e)
    {r₀ : SealedRecord} (hm : r₀ ∈ s.stored i) : ¬ Again W r₀ r := by
  intro hagain
  obtain ⟨hdigest, hattempts⟩ := hr.all (hready.settled hrepo) hm
  have hdom := hr.domain r₀ hm
  rw [Again, canonicalize_ok hdom, hev, eq_comm] at hagain
  obtain ⟨_, hdumps⟩ := canonicalize_eq_ok.1 hagain
  by_cases hatt : isAttempt e = true
  · have heq : JsonEq (.obj r₀.event) (.obj e) := (hj.eq_iff _ _ hdom hready.domain).1 hdumps
    have hknown := hattempts (by rw [isAttempt_congr heq, hatt])
    rw [eventId_congr heq, hready.attempt hatt] at hknown
    simp at hknown
  · have hnew := (hready.outcome (by simpa using hatt) _ (digestOf_eq_ok hready.domain)).1
    rw [hashOf, hdumps] at hdigest
    exact hnew hdigest

/-- An answer that is neither an append's nor the tail. -/
theorem Recalls.turn (hr : Recalls W i (Unread i) h s) {q : Query} {x : Reply q} (hq : ∀ r, q ≠ .append r)
    (hx : readsTail q x = false) (he : watchEnv i s q x s') : Recalls W i (Unread i) h s' := by
  have hc := hr.continues.rely (extends_of_env (mayAppend_of_ne hq) he.1)
  have hsame : s'.stored = s.stored ∧ s'.unread = s.unread := by
    rw [he.2]
    cases q with
    | append r => exact absurd rfl (hq r)
    | loadTail => cases x with
      | error _ => exact ⟨rfl, rfl⟩
      | ok _ => simp [readsTail] at hx
    | _ => exact ⟨rfl, rfl⟩
  refine ⟨hc, ?_, ?_⟩
  · rw [hsame.1]; exact hr.domain
  · rw [hsame.1]
    unfold Unread
    rw [hsame.2]
    exact hr.recalled

/-- The tail, read in time. -/
theorem Recalls.read (hr : Recalls W i (Unread i) h s) {t : Option SealedRecord}
    (he : (watcher i).env s .loadTail (.ok t) s') : Recalls W i Last h s' := by
  obtain ⟨⟨hstore, hafter⟩, hintime⟩ := he
  have hsame : s'.store = s.store := hstore.1
  have hst : s'.stored = s.stored := by rw [hafter]; rfl
  refine ⟨by rw [hsame]; exact hr.continues, ?_, ?_⟩
  · rw [hst]; exact hr.domain
  · rw [hst]
    intro r hm
    refine (hr.recalled r hm).imp_right fun hun => ⟨hun.1, ?_⟩
    rw [Last, hsame]
    exact hintime r hun.2

omit [DecidableEq ι] in
/-- A new record stored by the host. -/
theorem Recalls.stored (hr : Recalls W i (Unread i) h s) (hset : h.tailUncertain = false) {r : SealedRecord}
    (hs : s'.stored i = s.stored i ++ [r]) (hc : Continues W h' s'.store)
    (hd : h.sealedDigests ⊆ h'.sealedDigests)
    (ha : ∀ id, (h.sealedAttempts id).isSome = true → (h'.sealedAttempts id).isSome = true)
    (hdom : InDomain (.obj r.event)) (hnew : Recalled W h' r ∨ (AtEnd h' r ∧ Unread i s' r)) : Recalls W i (Unread i) h' s' := by
  refine ⟨hc, ?_, ?_⟩
  · rw [hs]
    intro r' hm
    rcases List.mem_append.1 hm with hm | hm
    · exact hr.domain r' hm
    · exact List.mem_singleton.1 hm ▸ hdom
  · rw [hs]
    intro r' hm
    rcases List.mem_append.1 hm with hm | hm
    · exact .inl ((hr.all hset hm).mono hd ha)
    · exact List.mem_singleton.1 hm ▸ hnew

end Recalls

/-! ## Moves keep it -/

theorem recorded_recalled (r : SealedRecord) (h : Host) :
    Recalled W (recorded r (hashOf W (.obj r.event)) h) r := by
  refine ⟨by simp [recorded, Host.rememberWith], fun hatt => ?_⟩
  simp [recorded, Host.rememberWith, hatt]

theorem subset_recorded (r : SealedRecord) (d : Str) (h : Host) :
    h.sealedDigests ⊆ (recorded r d h).sealedDigests := by
  intro d' hd
  simp [recorded, Host.rememberWith, Host.commit, hd]

theorem isSome_recorded (r : SealedRecord) (d : Str) (h : Host) (id : Str) (hs : (h.sealedAttempts id).isSome = true) :
    ((recorded r d h).sealedAttempts id).isSome = true := by
  simp only [recorded, Host.rememberWith, Host.commit]
  split
  · rw [Function.update_apply]
    split
    · rfl
    · exact hs
  · exact hs

/-- Where no read is due, a move keeps what the host recalls. -/
theorem Recalls.move (hrepo : c.hasRepository = true) {h h' : Host} {s s' : Watched ι}
    (hr : Recalls W i (Unread i) h s) (hm : Move W (watcher i) c (h, s) (h', s')) (hne : h' ≠ h)
    (hnot : ¬ Settling c h h') : Recalls W i (Unread i) h' s' := by
  cases hm with
  | turn q x hq he => exact absurd rfl hne
  | note hn => exact hr.congr hn.ledger (fun hu => hn.tailUncertain.trans hu) hn.sealedDigests hn.sealedAttempts
  | doubt => exact hr.congr rfl (fun _ => rfl) rfl rfl
  | @ambiguous _ _ _ e sid r x _ hready hmade he =>
    have hset := hready.settled hrepo
    have hc : Continues W h.uncertain s'.store :=
      (hr.continues.rely (extends_of_env (hr.continues.mayAppend hmade.fits) he.1.1)).of_ledger rfl
    have hcases : storeAppend s.store r = .ok s'.store ∨ s'.store = s.store := he.1.1.imp_right And.left
    rcases hcases with ha | hsame
    · obtain ⟨hst, hun⟩ := stored_of_env he.1 ha
      exact hr.stored hset hst hc (List.Subset.refl _) (fun _ => id) (hmade.event ▸ hready.domain)
        (.inr ⟨⟨rfl, hmade.fits.1, hmade.fits.2.1⟩, hun⟩)
    · exact hr.of_recalled hc (unstored_of_env he.1 hsame) fun r₀ hm => hr.all hset hm
  | @stored _ _ _ e sid d r _ hready hmade he hd =>
    have hset := hready.settled hrepo
    have hs' := hr.continues.rely (extends_of_env (hr.continues.mayAppend hmade.fits) he.1.1)
    have ha : storeAppend s.store r = .ok s'.store := by
      rcases he.1.1 with ha | ⟨_, err, hx⟩
      · exact ha
      · cases hx
    have hlast : s'.store.getLast? = some r := by rw [(storeAppend_eq_ok.1 ha).2, List.getLast?_concat]
    have hdom : InDomain (.obj r.event) := hmade.event ▸ hready.domain
    obtain rfl : hashOf W (.obj r.event) = d := by
      rw [hmade.event]
      exact Except.ok.inj ((digestOf_eq_ok hready.domain).symm.trans hd)
    refine hr.stored hset (stored_of_env he.1 ha).1 ⟨hs'.1, s'.store, List.prefix_refl _, ?_⟩ ?_ ?_ hdom (.inl ?_)
    · rw [account_ledger]
      exact commit_last hs'.1 hlast hmade.fits.1
    · rw [account_sealedDigests]
      exact subset_recorded _ _ _
    · rw [account_sealedAttempts]
      exact isSome_recorded _ _ _
    · exact (recorded_recalled r h).mono (by rw [account_sealedDigests]; exact List.Subset.refl _)
        (by rw [account_sealedAttempts]; exact fun _ => id)
  | kept hno => simp [hrepo] at hno
  | adopt hlanded hd => exact absurd ⟨hrepo, hlanded.uncertain, .inl rfl⟩ hnot
  | adoptRaised hlanded hd => exact absurd ⟨hrepo, hlanded.uncertain, .inr commit_ledger_ne⟩ hnot
  | jump _ hunc _ _ => exact absurd ⟨hrepo, hunc, .inl rfl⟩ hnot
  | clear hguard =>
    have hset : h.tailUncertain = false := by
      by_contra hunc
      exact hnot ⟨hrepo, by simpa using hunc, .inl rfl⟩
    exact hr.congr rfl (by simp [hset]) rfl rfl
  | reaccept _ _ _ => exact hr.congr rfl id rfl rfl
  | opened _ => exact hr.congr rfl id rfl rfl
  | @closed _ _ sid ss _ =>
    have hn := flagAll_neutral (fun id => lit "call ended with attempt " ++ id ++ lit " unresolved") ss.unresolved
      { h with sessions := Function.update h.sessions sid none }
    exact hr.congr hn.ledger (fun hu => hn.tailUncertain.trans hu) hn.sealedDigests hn.sealedAttempts

/-- The tail read in time: the host settles it, and recalls all it stored. -/
theorem Recalls.settle (hrepo : c.hasRepository = true) {h h' : Host} {s : Watched ι} (hr : Recalls W i Last h s)
    (hm : Move W (watcher i) c (h, s) (h', s)) (hset : Settling c h h') : Recalls W i (Unread i) h' s := by
  cases hm with
  | turn q x hq he => exact absurd hset (not_settling rfl id)
  | note hn => exact absurd hset (not_settling hn.ledger fun hu => hn.tailUncertain.trans hu)
  | doubt => exact absurd hset (not_settling rfl fun _ => rfl)
  | ambiguous x _ hready _ _ => exact absurd hset hready.not_settling
  | stored _ hready _ _ _ => exact absurd hset hready.not_settling
  | kept hno => simp [hrepo] at hno
  | reaccept _ _ _ => exact absurd hset (not_settling rfl id)
  | opened _ => exact absurd hset (not_settling rfl id)
  | @closed _ _ sid ss _ =>
    have hn := flagAll_neutral (fun id => lit "call ended with attempt " ++ id ++ lit " unresolved") ss.unresolved
      { h with sessions := Function.update h.sessions sid none }
    exact absurd hset (not_settling hn.ledger fun hu => hn.tailUncertain.trans hu)
  | @adopt _ _ r d hlanded hd =>
    have hv := hr.continues.1
    refine hr.of_recalled ⟨hv, s.store, List.prefix_refl _, ?_⟩ rfl fun r₀ hm => ?_
    · simp only [settled, adopted_ledger]
      exact commit_last hv hlanded.last hlanded.next.1
    · have hrec : Recalled W (recorded r d h) r₀ := by
        rcases hr.recalled r₀ hm with hrec | ⟨_, hlast⟩
        · exact hrec.mono (subset_recorded r d h) (isSome_recorded r d h)
        · obtain rfl : r₀ = r := Option.some.inj (hlast.symm.trans hlanded.last)
          obtain rfl := Except.ok.inj ((digestOf_eq_ok (hr.domain r₀ hm)).symm.trans hd)
          exact recorded_recalled r₀ h
      refine hrec.mono ?_ ?_
      · simp only [settled, adopted_sealedDigests]
        exact List.Subset.refl _
      · simp only [settled, adopted_sealedAttempts]
        exact fun _ => id
  | @adoptRaised _ _ r m hlanded hd =>
    have hv := hr.continues.1
    refine hr.of_recalled ⟨hv, s.store, List.prefix_refl _, commit_last hv hlanded.last hlanded.next.1⟩ rfl fun r₀ hm => ?_
    rcases hr.recalled r₀ hm with hrec | ⟨_, hlast⟩
    · exact hrec
    · obtain rfl : r₀ = r := Option.some.inj (hlast.symm.trans hlanded.last)
      cases (digestOf_eq_ok (hr.domain r₀ hm)).symm.trans hd
  | @jump _ _ r _ hunc hlast hlt =>
    have hv := hr.continues.1
    have hat := Ledger.resumeFrom_at hv
    rw [show s.store.getLast? = some r from hlast] at hat
    refine hr.of_recalled ⟨hv, s.store, List.prefix_refl _, hat⟩ rfl fun r₀ hm => ?_
    rcases hr.recalled r₀ hm with hrec | ⟨⟨_, hseq, _⟩, hlast₀⟩
    · exact hrec
    · obtain rfl : r₀ = r := Option.some.inj (hlast₀.symm.trans hlast)
      omega
  | clear hguard =>
    have hc : Continues W (settled h) s.store := hr.continues.of_ledger rfl
    refine hr.of_recalled hc rfl fun r₀ hm => ?_
    rcases hr.recalled r₀ hm with hrec | ⟨⟨_, hseq, hprev⟩, hlast⟩
    · exact hrec
    · exact absurd ⟨hseq, hprev⟩ (hguard r₀ hlast).1

omit [DecidableEq ι] in
theorem Recalls.meanwhile {h : Host} {s s' : Watched ι} (hr : Recalls W i (Unread i) h s) (hs : Meanwhile W i s s') :
    Recalls W i (Unread i) h s' := by
  obtain ⟨hstore, hst, hun⟩ := hs
  refine ⟨hr.continues.rely hstore, ?_, ?_⟩
  · rw [hst]; exact hr.domain
  · rw [hst]
    unfold Unread
    rw [hun]
    exact hr.recalled

theorem recalls_kept (hj : JcsSpec W.dumps InDomain) (hrepo : c.hasRepository = true) :
    Kept W (watcher i) c (Meanwhile W i) (mayAppendOnce W i) (Recalls W i (Unread i)) (Recalls W i Last) where
  stable hr hs := hr.meanwhile hs
  turn hr hq hx he := hr.turn hq hx he.1
  read hr he := hr.read he
  move hr hm hne hnot := hr.move hrepo hm hne hnot
  settle hr hm hset := hr.settle hrepo hm hset
  asks {_ _ q} hq _ := by
    cases q with
    | append r => exact absurd rfl (hq r)
    | _ => trivial
  appends _ hready hmade hr :=
    ⟨hr.continues.mayAppend hmade.fits, fun _ hm => hr.fresh hj hrepo hready hmade.event hm⟩
  vouched _ _ := trivial
  signed _ _ := trivial

/-! ## Hosts over one store -/

/-- One chain, and no host's records of one event twice. -/
def Once (W : World) (s : Watched ι) : Prop :=
  ValidChain W s.store ∧ ∀ i, (s.stored i).Pairwise fun r r' => ¬ Again W r r'

/-- What is known of a host between its operations. -/
def Member.Recalls (W : World) (i : ι) : Option Member → Watched ι → Prop
  | none, _ => True
  | some m, s => m.config.hasRepository = true ∧ AuditableMcp.Recalls W i (Unread i) m.host s

/-- Where no event is appended twice, none is stored twice. -/
theorem Once.step {i : ι} {s s' : Watched ι} {q : Query} {x : Reply q} (ho : Once W s) (hm : mayAppendOnce W i s q)
    (he : watchEnv i s q x s') : Once W s' := by
  have hmay : mayAppend W s.store q := by
    cases q with
    | append r => exact hm.1
    | _ => trivial
  refine ⟨(extends_of_env hmay he.1).2 ho.1, fun j => ?_⟩
  by_cases hj : j = i
  · subst hj
    cases q with
    | append r =>
      have hcases : storeAppend s.store r = .ok s'.store ∨ s'.store = s.store := he.1.imp_right And.left
      rcases hcases with ha | hsame
      · rw [(stored_of_env he ha).1, List.pairwise_append]
        refine ⟨ho.2 j, List.pairwise_singleton _ _, fun r₀ hr₀ r' hr' => ?_⟩
        exact List.mem_singleton.1 hr' ▸ hm.2 r₀ hr₀
      · rw [unstored_of_env he hsame]
        exact ho.2 j
    | loadTail =>
      rw [he.2]
      cases x <;> exact ho.2 j
    | _ => rw [he.2]; exact ho.2 j
  · rw [(meanwhile_of_env hmay he hj).2.1]
    exact ho.2 j

theorem resends_guarantee (hj : JcsSpec W.dumps InDomain) :
    GuaranteeFrom (fun i : ι => (watcher i).env) (Meanwhile W) (mayAppendOnce W) (Born W) (Operates W) (Once W)
      (fun i s => s.stored i = []) (Member.Recalls W) where
  trans _ _ _ _ := Meanwhile.trans
  refl i s := Meanwhile.refl W i s
  unborn _ _ _ hs hm := hm.2.1.trans hs
  loc
    | _, none, _, _, _, _ => trivial
    | _, some _, _, _, h, hs => ⟨h.1, h.2.meanwhile hs⟩
  step {i s q r s'} ho hm he := by
    have hmay : mayAppend W s.store q := by
      cases q with
      | append r => exact hm.1
      | _ => trivial
    exact ⟨ho.step hm he.1, fun j hji => meanwhile_of_env hmay he.1 hji⟩
  born := by
    rintro i s p ho hnone (⟨c, hrepo⟩ | ⟨c, opens, hrepo⟩)
    · exact ⟨hrepo, .blank (continues_new ho.1) hnone⟩
    · have hresume := @resume_wp W _ ⟨(watcher i).env, Meanwhile W i, mayAppendOnce W i⟩
        (fun h s => Continues W h s.store ∧ s.stored i = [])
        (fun _ _ _ hl hc => ⟨hc.1.of_ledger hl, hc.2⟩) opens .new s fun s₁ hs => ⟨trivial, fun x s' he => ?_⟩
      · refine Wp.under _ (Wp_bind.2 (Wp.mono ?_ hresume))
        rintro ⟨x | x, h⟩ s' ⟨hc, hst⟩
        · trivial
        · exact ⟨hrepo, .blank hc hst⟩
      · obtain ⟨⟨⟨hstore, hx⟩, hafter⟩, _⟩ := he
        have hv : ValidChain W s'.store := hstore ▸ hs.1.2 ho.1
        have hst : s'.stored i = [] := by
          rw [hafter]
          exact hs.2.1.trans hnone
        rcases hx with rfl | ⟨e, rfl⟩
        · rw [← hstore]
          exact ⟨⟨hv, s'.store, List.prefix_refl _, Ledger.resumeFrom_at hv⟩, hst⟩
        · exact ⟨continues_new hv, hst⟩
  ops := by
    rintro i s l p _ hl ⟨m, o⟩
    obtain ⟨hrepo, hr⟩ := hl
    have hrun : Wp ⟨(watcher i).env, Meanwhile W i, mayAppendOnce W i⟩
        ((o.run W m.config m.host).bind fun x => .ret (some ⟨m.config, x.2⟩)) (Member.Recalls W i) s :=
      Wp_bind.2 (Wp.mono (fun _ _ hp => ⟨hrepo, hp⟩) (keeping_run watcher_fair (recalls_kept hj hrepo) o m.host s hr))
    exact hrun.under _

/-- Hosts over one store, each of which reads the tail in time. -/
abbrev InTime (W : World) {ι : Type} [DecidableEq ι] :
    Pool Query Reply (Watched ι) (Option Member) ι → Pool Query Reply (Watched ι) (Option Member) ι → Prop :=
  Pool.StepAt (fun i => (watcher i).env) (Born W) (Operates W)

/-- The answers of `storeAnswers`, watched. -/
def watchedAnswers (raises : Bool) (i : ι) (s : Watched ι) (q : Query) : Option (Reply q × Watched ι) :=
  (storeAnswers raises s.store q).map fun x => (x.1, s.after i q x.1 x.2)

theorem watchedAnswers_env {raises : Bool} {i : ι} {s : Watched ι} {q : Query} {x : Reply q} {s' : Watched ι}
    (h : watchedAnswers raises i s q = some (x, s')) : watchEnv i s q x s' := by
  obtain ⟨⟨y, t⟩, hanswer, hpair⟩ := Option.map_eq_some_iff.1 h
  obtain ⟨rfl, rfl⟩ := Prod.mk.inj hpair
  exact watchEnv_after i (storeAnswers_env _ _ _ _ hanswer)

/-- Whether a read of the tail is in time. -/
def timely (i : ι) (s : Watched ι) : Query → Bool
  | .loadTail => (s.unread i).isNone || decide (s.store.getLast? = s.unread i)
  | _ => true

/-- These, as long as they are in time. -/
def timelyAnswers (raises : Bool) (i : ι) (s : Watched ι) (q : Query) : Option (Reply q × Watched ι) :=
  if timely i s q then watchedAnswers raises i s q else none

theorem timelyAnswers_env {raises : Bool} {i : ι} {s : Watched ι} {q : Query} {x : Reply q} {s' : Watched ι}
    (h : timelyAnswers raises i s q = some (x, s')) : (watcher i).env s q x s' := by
  obtain ⟨htimely, h⟩ := Option.ite_none_right_eq_some.1 h
  refine ⟨watchedAnswers_env h, ?_⟩
  obtain ⟨⟨y, t⟩, hanswer, hpair⟩ := Option.map_eq_some_iff.1 h
  obtain ⟨rfl, rfl⟩ := Prod.mk.inj hpair
  cases q with
  | loadTail =>
    cases y with
    | ok tail =>
      intro r hr
      simpa [timely, hr] using htimely
    | error e => trivial
  | _ => trivial

def Watched.turn (W : World) (answers : Bool → ι → Watched ι → (q : Query) → Option (Reply q × Watched ι))
    (S : Pool Query Reply (Watched ι) (Option Member) ι) (t : Turn ι) :
    Option (Pool Query Reply (Watched ι) (Option Member) ι) :=
  Pool.turn (answers t.2.2 t.1) t.1 (t.2.1.next W) S

/-- A schedule is a run, in the surroundings its answers come from. -/
theorem Watched.plays {answers : Bool → ι → Watched ι → (q : Query) → Option (Reply q × Watched ι)}
    {env : ι → Watched ι → (q : Query) → Reply q → Watched ι → Prop}
    (henv : ∀ b i s q x s', answers b i s q = some (x, s') → env i s q x s')
    {S S' : Pool Query Reply (Watched ι) (Option Member) ι} {ts : List (Turn ι)}
    (h : Runs.acts (Watched.turn W answers) (fun _ _ => true) S ts = some S') :
    Relation.ReflTransGen (Pool.StepAt env (Born W) (Operates W)) S S' := by
  refine Relation.reflTransGen_closed (fun S S' hact => ?_) _ _ (Runs.run_of_acts h)
  obtain ⟨t, -, hturn⟩ := hact
  exact Pool.turn_runs t.1 (henv t.2.2 t.1) t.2.1.next_born t.2.1.next_operates hturn

/-- A host's first append lands and raises, and the attempt is sent again while its record is the last; the outcome comes
twice; and another host, resumed, seals an attempt of its own. -/
def resendInTime : List (Turn Bool) :=
  [(false, .constructed sampleConfig, false), (false, .op (.openSession SAMPLE_SESSION), false),
    (false, .op (.attempt sampleAttempt none none), true), (false, .op (.attempt sampleAttempt none none), false),
    (false, .op (.outcome sampleOutcome none), false), (false, .op (.outcome sampleOutcome none), false),
    (true, .resumed sampleConfig [], false), (true, .op (.openSession OTHER_SESSION), false),
    (true, .op (.attempt otherAttempt none none), false)]

/-- **Nothing is sealed twice.** In every interleaving of hosts over one store in which each host that reads the
tail back finds no other writer's record after its own unread one, no host's appends store two records of one
event, however those appends were answered. -/
theorem stored_once (hj : JcsSpec W.dumps InDomain) {s₀ : List SealedRecord} (h₀ : ValidChain W s₀)
    {S : Pool Query Reply (Watched ι) (Option Member) ι}
    (hr : Relation.ReflTransGen (InTime W) ⟨.start s₀, fun _ => none⟩ S) (i : ι) :
    (S.shared.stored i).Pairwise fun r r' => ¬ Again W r r' := by
  have hstart : Once W (Watched.start s₀ : Watched ι) := ⟨h₀, fun _ => List.Pairwise.nil⟩
  exact (pool_from (resends_guarantee hj) hstart (fun _ => rfl) hr).1.1.2 i

theorem stored_once_resent : ∃ S : Pool Query Reply (Watched Bool) (Option Member) Bool,
    Relation.ReflTransGen (InTime reference) ⟨.start [], fun _ => none⟩ S ∧
    S.shared.store = sampleChain ∧ S.shared.stored false = [sampleRecord, outcomeRecord] ∧
    (S.shared.stored false).Pairwise fun r r' => ¬ Again reference r r' := by
  have hplayed : (Runs.acts (Watched.turn reference timelyAnswers) (fun _ _ => true) ⟨.start [], fun _ => none⟩ resendInTime).map
      (fun S => (S.shared.store, S.shared.stored false)) = some (sampleChain, [sampleRecord, outcomeRecord]) := by
    decide +kernel
  obtain ⟨S, hS, hfacts⟩ := Option.map_eq_some_iff.1 hplayed
  obtain ⟨hstore, hstored⟩ := Prod.mk.inj hfacts
  have hrun : Relation.ReflTransGen (InTime reference) ⟨.start [], fun _ => none⟩ S :=
    Watched.plays (fun _ _ _ _ _ _ => timelyAnswers_env) hS
  have hempty : ValidChain reference [] := trivial
  exact ⟨S, hrun, hstore, hstored, stored_once reference_jcs hempty hrun false⟩

/-! ## Another writer's record hides the host's own -/

/-- The other attempt's record, after the sample attempt's. -/
def otherRecord : SealedRecord where
  event := otherAttempt
  seq := 1
  hostTs := SAMPLE_TS
  previousHash := sampleRecord.recordHash
  recordHash := lit "13b56d47b7af4cc7d3dafc53f3b7167f4462d800966437f7be290c583e9af2cd"

/-- The sample attempt, sealed again. -/
def repeatedRecord : SealedRecord where
  event := sampleAttempt
  seq := 2
  hostTs := SAMPLE_TS
  previousHash := otherRecord.recordHash
  recordHash := lit "fc37d145eb5b6e0609d56ee4ef0405b50e6528e93afb6cb84078fbf85760feef"

/-- More values with their SHA-256. -/
def resendHashes : List (Json × Str) :=
  [(preimage (.obj otherAttempt) (.int 1) (.str SAMPLE_TS) (.str sampleRecord.recordHash), otherRecord.recordHash),
    (preimage (.obj sampleAttempt) (.int 2) (.str SAMPLE_TS) (.str otherRecord.recordHash), repeatedRecord.recordHash)]

def resendWorld : World :=
  { reference with
    sha256 := fun t => match resendHashes.find? fun m => jcs m.1 == t with
      | some m => m.2
      | none => referenceSha256 t }

/-- Hosts over one store, whenever they read the tail. -/
abbrev Anytime (W : World) {ι : Type} [DecidableEq ι] :
    Pool Query Reply (Watched ι) (Option Member) ι → Pool Query Reply (Watched ι) (Option Member) ι → Prop :=
  Pool.StepAt (fun i => watchEnv i) (Born W) (Operates W)

/-- Host `true` resumes and appends before host `false` is sent the attempt again. -/
def resendLate : List (Turn Bool) :=
  [(false, .constructed sampleConfig, false), (false, .op (.openSession SAMPLE_SESSION), false),
    (false, .op (.attempt sampleAttempt none none), true),
    (true, .resumed sampleConfig [], false), (true, .op (.openSession OTHER_SESSION), false),
    (true, .op (.attempt otherAttempt none none), false), (false, .op (.attempt sampleAttempt none none), false)]

/-- Host `false`'s append lands and raises, host `true` appends after it, and the resend is stored again. -/
theorem stored_twice : ∃ S : Pool Query Reply (Watched Bool) (Option Member) Bool,
    Relation.ReflTransGen (Anytime resendWorld) ⟨.start [], fun _ => none⟩ S ∧
    S.shared.store = [sampleRecord, otherRecord, repeatedRecord] ∧
    S.shared.stored false = [sampleRecord, repeatedRecord] ∧ Again resendWorld sampleRecord repeatedRecord := by
  have hplayed : (Runs.acts (Watched.turn resendWorld watchedAnswers) (fun _ _ => true) ⟨.start [], fun _ => none⟩
      resendLate).map (fun S => (S.shared.store, S.shared.stored false)) =
        some ([sampleRecord, otherRecord, repeatedRecord], [sampleRecord, repeatedRecord]) := by
    decide +kernel
  obtain ⟨S, hS, hfacts⟩ := Option.map_eq_some_iff.1 hplayed
  obtain ⟨hstore, hstored⟩ := Prod.mk.inj hfacts
  exact ⟨S, Watched.plays (fun _ _ _ _ _ _ => watchedAnswers_env) hS, hstore, hstored, rfl⟩

end AuditableMcp
