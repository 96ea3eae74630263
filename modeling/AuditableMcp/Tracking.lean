import AuditableMcp.Lifecycle
/-!
# What a live host has heard

A host whose appends all succeed and whose seals nothing interrupts (`steadyEnv`; `host.py:427-431` and
`:440-447` call either failure ambiguous). No tail is in doubt then, and every signer number in the store was
received and decided in its session (`Tracks`).

Sealing is the one step where the two differ: a number is received before its record is appended, and
decided after. `Tracks` carries the event whose record is `due` its decision.
-/
namespace AuditableMcp

open JsonValue Effect

/-! ## Runs without ambiguous failures -/

/-- No append fails, and no countersignature is interrupted. -/
def steady : (q : Query) → Reply q → Prop
  | .append _, x => x = (.ok () : Except Raise Unit)
  | .sign _, x => x ≠ (.error .cancelled : Except Raise Str)
  | _, _ => True

def steadyEnv (s : List SealedRecord) (q : Query) (x : Reply q) (s' : List SealedRecord) : Prop :=
  storeEnv s q x s' ∧ steady q x

/-- One operation of a host over its store. -/
def Operated (W : World) (c : Config) (x y : Host × List SealedRecord) : Prop :=
  ∃ (o : HostOp) (a : Except Raise Unit), Runs steadyEnv (o.run W c x.1) x.2 (a, y.1) y.2

theorem steady_same {s s' : List SealedRecord} {q : Query} {x : Reply q} (hq : ∀ r, q ≠ .append r)
    (he : steadyEnv s q x s') : s' = s := by
  obtain ⟨hst, _⟩ := he
  cases q with
  | append r => exact absurd rfl (hq r)
  | loadTail | readAll => exact hst.1
  | currentTime | verify _ | sign _ | clockNow | persistenceAvailable => exact hst

/-! ## Sessions that know more -/

/-- What one session has decided and received, the other has. -/
structure Session.Within (s s' : Session) : Prop where
  decided : s.decided ⊆ s'.decided
  received : ∀ k n, s.received k = some n → ∃ m, s'.received k = some m ∧ n ≤ m

/-- A Python `set`, and a `dict`. -/
structure Session.Tidy (s : Session) : Prop where
  accepted : s.accepted.Nodup
  received : ∃ ks : List Str, ∀ k, s.received k ≠ none → k ∈ ks

/-- The number of an event was received. -/
def Session.Received (e : Event) (s : Session) : Prop :=
  ∀ k n, keyId e = some k → signerSeq e = some n → ∃ m, s.received k = some m ∧ n ≤ m

/-- The number of an event was decided. -/
def Session.Decided (e : Event) (s : Session) : Prop :=
  ∀ k n, keyId e = some k → signerSeq e = some n → (k, n) ∈ s.decided

namespace Session

variable {s s' s'' : Session}

theorem Within.refl (s : Session) : s.Within s := ⟨List.Subset.refl _, fun _ n h => ⟨n, h, le_refl n⟩⟩

theorem Within.trans (h : s.Within s') (h' : s'.Within s'') : s.Within s'' := by
  refine ⟨fun _ hm => h'.decided (h.decided hm), fun k n hn => ?_⟩
  obtain ⟨m, hm, hnm⟩ := h.received k n hn
  obtain ⟨l, hl, hml⟩ := h'.received k m hm
  exact ⟨l, hl, le_trans hnm hml⟩

/-- Two sessions within each other have decided and received the same. -/
theorem Within.antisymm (h : s.Within s') (h' : s'.Within s) :
    (∀ m, m ∈ s.decided ↔ m ∈ s'.decided) ∧ s.received = s'.received := by
  refine ⟨fun m => ⟨fun hm => h.decided hm, fun hm => h'.decided hm⟩, funext fun k => ?_⟩
  cases hs : s.received k with
  | none =>
    cases hs' : s'.received k with
    | none => rfl
    | some n =>
      obtain ⟨m, hm, _⟩ := h'.received k n hs'
      rw [hs] at hm
      cases hm
  | some n =>
    obtain ⟨m, hm, hnm⟩ := h.received k n hs
    obtain ⟨l, hl, hml⟩ := h'.received k m hm
    obtain rfl : n = l := Option.some.inj (hs.symm.trans hl)
    rw [hm, le_antisymm hnm hml]

theorem Received.within {e : Event} (hr : s.Received e) (h : s.Within s') : s'.Received e := by
  intro k n hk hn
  obtain ⟨m, hm, hnm⟩ := hr k n hk hn
  obtain ⟨l, hl, hml⟩ := h.received k m hm
  exact ⟨l, hl, le_trans hnm hml⟩

theorem Decided.within {e : Event} (hd : s.Decided e) (h : s.Within s') : s'.Decided e :=
  fun k n hk hn => h.decided (hd k n hk hn)

theorem Tidy.accept (h : s.Tidy) (id : Str) : { s with accepted := s.accepted.insert id }.Tidy :=
  ⟨h.accepted.insert, h.received⟩

theorem Tidy.receive (h : s.Tidy) (k : Str) (n : Int) :
    { s with received := Function.update s.received k (some n) }.Tidy := by
  obtain ⟨ks, hks⟩ := h.received
  refine ⟨h.accepted, k :: ks, fun k' hk' => ?_⟩
  simp only [Function.update_apply] at hk'
  split at hk'
  · next heq => exact heq ▸ List.mem_cons_self
  · exact List.mem_cons_of_mem _ (hks k' hk')

theorem decide_within (c : Config) (e : Event) (s : Session) : s.Within (s.decide c e) := by
  unfold Session.decide
  split
  · exact ⟨fun _ hm => List.mem_insert_of_mem hm, (Within.refl s).received⟩
  · exact .refl s

theorem decide_tidy (c : Config) (e : Event) (h : s.Tidy) : (s.decide c e).Tidy := by
  unfold Session.decide
  split
  · exact ⟨h.accepted, h.received⟩
  · exact h

theorem decide_decided {c : Config} (hl : c.level = .l2) (e : Event) (s : Session) : (s.decide c e).Decided e := by
  intro k n hk hn
  simp [Session.decide, hl, hk, hn]

end Session

/-! ## Hosts that know more -/

/-- The tail is as it was, and of the sessions still open none has forgotten a number. -/
structure Host.Grows (h h' : Host) : Prop where
  tail : h'.tailUncertain = h.tailUncertain
  sessions : ∀ sid s', h'.sessions sid = some s' → ∃ s, h.sessions sid = some s ∧ s.Within s' ∧ (s.Tidy → s'.Tidy)

namespace Host.Grows

variable {h h' h'' : Host}

theorem same (ht : h'.tailUncertain = h.tailUncertain) (hs : h'.sessions = h.sessions) : h.Grows h' :=
  ⟨ht, fun sid s' hs' => ⟨s', by rwa [← hs], .refl s', id⟩⟩

theorem trans (a : h.Grows h') (b : h'.Grows h'') : h.Grows h'' := by
  refine ⟨b.tail.trans a.tail, fun sid s'' hs'' => ?_⟩
  obtain ⟨s', hs', hw', ht'⟩ := b.sessions sid s'' hs''
  obtain ⟨s, hs, hw, ht⟩ := a.sessions sid s' hs'
  exact ⟨s, hs, hw.trans hw', ht' ∘ ht⟩

theorem updateSession {f : Session → Session} (sid : Str) (hw : ∀ s, h.sessions sid = some s → s.Within (f s))
    (ht : ∀ s : Session, s.Tidy → (f s).Tidy) : h.Grows (h.updateSession sid f) := by
  refine ⟨rfl, fun k s' hs' => ?_⟩
  simp only [Host.updateSession] at hs'
  split at hs'
  · next heq =>
    subst heq
    obtain ⟨s, hs, rfl⟩ := Option.map_eq_some_iff.1 hs'
    exact ⟨s, hs, hw s hs, ht s⟩
  · exact ⟨s', hs', .refl s', id⟩

theorem flag (id : Str) (kind : Reason) (detail : Str) : h.Grows (h.flag id kind detail) := .same rfl rfl

theorem reject (id : Str) : h.Grows (h.reject id) := .same rfl rfl

theorem decide (c : Config) (e : Event) (sid : Str) : h.Grows (h.decide c e sid) :=
  .updateSession sid (fun s _ => s.decide_within c e) fun _ => Session.decide_tidy c e

theorem accept (sid id : Str) : h.Grows (h.accept sid id) := by
  refine .updateSession sid (fun s _ => ⟨List.Subset.refl _, (Session.Within.refl s).received⟩) ?_
  exact fun _ ht => ht.accept id

theorem conclude (sid id d : Str) : h.Grows (h.conclude sid id d) := by
  refine .updateSession sid (fun s _ => ⟨List.Subset.refl _, (Session.Within.refl s).received⟩) ?_
  exact fun _ ht => ⟨ht.accepted, ht.received⟩

theorem flagAll (detail : Str → Str) (ids : List Str) : ∀ h : Host, h.Grows (flagAll detail ids h) := by
  induction ids with
  | nil => exact fun h => .same rfl rfl
  | cons id ids ih => exact fun h => (Grows.flag id _ _).trans (ih _)

theorem checkReplay (c : Config) (e : Event) (sid : Str) : h.Grows (checkReplay c e sid h).2 := by
  unfold AuditableMcp.checkReplay
  split
  · split
    · exact .flag _ _ _
    · exact .same rfl rfl
  · exact .same rfl rfl

theorem admitEvent (W : World) (e : Event) (expected : Option Str) (attempt : Bool) :
    h.Grows (admitEvent W e expected attempt h).2 := by
  unfold AuditableMcp.admitEvent
  split
  · exact .flag _ _ _
  · split
    · exact .flag _ _ _
    · split
      · exact .flag _ _ _
      · unfold sessionOf
        split
        · split
          · exact .same rfl rfl
          · exact .flag _ _ _
        · exact .flag _ _ _

end Host.Grows

/-- A verified number is received, and nothing received before is forgotten. -/
theorem noteReceived_grows (e : Event) (k : Str) (n : Int) (sid : Str) (h : Host) :
    h.Grows (noteReceived e k n sid h) ∧ ∀ ss, (noteReceived e k n sid h).sessions sid = some ss →
      ∃ m, ss.received k = some m ∧ n ≤ m := by
  have hgap : ∀ received, (flagGap e n received h).tailUncertain = h.tailUncertain ∧
      (flagGap e n received h).sessions = h.sessions := by
    intro received
    simp only [flagGap]
    split
    · exact ⟨rfl, rfl⟩
    · exact ⟨rfl, rfl⟩
  simp only [noteReceived]
  split
  · next hall =>
    refine ⟨(Host.Grows.same (hgap _).1 (hgap _).2).trans (.updateSession sid ?_ fun s ht => ht.receive k n), ?_⟩
    · intro s hs
      rw [(hgap _).2] at hs
      simp only [hs, Option.bind_some] at hall
      refine ⟨List.Subset.refl _, fun k' n' hn' => ?_⟩
      simp only [Function.update_apply]
      split
      · next heq =>
        subst heq
        rw [hn'] at hall
        exact ⟨n, rfl, by simpa using le_of_lt (by simpa using hall)⟩
      · exact ⟨n', hn', le_refl _⟩
    · intro ss hss
      simp only [Host.receive, Host.updateSession, ↓reduceIte, (hgap _).2] at hss
      obtain ⟨s, _, rfl⟩ := Option.map_eq_some_iff.1 hss
      exact ⟨n, Function.update_self .., le_refl n⟩
  · next hall =>
    refine ⟨.same (hgap _).1 (hgap _).2, fun ss hss => ?_⟩
    rw [(hgap _).2] at hss
    simp only [hss, Option.bind_some] at hall
    cases hr : ss.received k with
    | none => simp [hr] at hall
    | some m => exact ⟨m, rfl, by simpa [hr] using hall⟩

/-! ## The invariant -/

/-- No tail is in doubt, and the numbers of the store were received and decided in their sessions, the
decision of one event apart. -/
structure Tracks (c : Config) (due : Option Event) (h : Host) (s : List SealedRecord) : Prop where
  certain : h.tailUncertain = false
  tidy : ∀ sid ss, h.sessions sid = some ss → ss.Tidy
  received : c.level = .l2 → ∀ r ∈ s, ∀ sid ss, sessionId r.event = some sid → h.sessions sid = some ss →
    ss.Received r.event
  decided : c.level = .l2 → ∀ r ∈ s, ∀ sid ss, sessionId r.event = some sid → h.sessions sid = some ss →
    due ≠ some r.event → ss.Decided r.event

/-- An event of an open session whose signature was verified. -/
structure Hears (c : Config) (e : Event) (sid : Str) (due : Option Event) (h : Host) (s : List SealedRecord) : Prop
    extends Tracks c due h s where
  domain : InDomain (.obj e)
  session : sessionId e = some sid
  heard : c.level = .l2 → ∀ ss, h.sessions sid = some ss → ss.Received e

variable {c : Config} {e : Event} {sid : Str} {due : Option Event} {h h' : Host} {s : List SealedRecord}

theorem Tracks.grows (ht : Tracks c due h s) (hg : h.Grows h') : Tracks c due h' s := by
  refine ⟨hg.tail.trans ht.certain, fun k ss' hss' => ?_, fun hl r hr k ss' hk hss' => ?_, fun hl r hr k ss' hk hss' hd => ?_⟩
  · obtain ⟨ss, hss, _, hti⟩ := hg.sessions k ss' hss'
    exact hti (ht.tidy k ss hss)
  · obtain ⟨ss, hss, hw, _⟩ := hg.sessions k ss' hss'
    exact (ht.received hl r hr k ss hk hss).within hw
  · obtain ⟨ss, hss, hw, _⟩ := hg.sessions k ss' hss'
    exact (ht.decided hl r hr k ss hk hss hd).within hw

theorem Hears.grows (hh : Hears c e sid due h s) (hg : h.Grows h') : Hears c e sid due h' s := by
  refine { hh.toTracks.grows hg with domain := hh.domain, session := hh.session, heard := fun hl ss' hss' => ?_ }
  obtain ⟨ss, hss, hw, _⟩ := hg.sessions sid ss' hss'
  exact (hh.heard hl ss hss).within hw

/-- The record of a heard event is stored, its decision due. -/
theorem Hears.append (hh : Hears c e sid none h s) {r : SealedRecord} (hr : r.event = e) :
    Hears c e sid (some e) h (s ++ [r]) := by
  refine { hh with received := fun hl a ha k ss hk hss => ?_, decided := fun hl a ha k ss hk hss hd => ?_ }
  · rcases List.mem_append.1 ha with ha | ha
    · exact hh.received hl a ha k ss hk hss
    · obtain rfl := List.mem_singleton.1 ha
      subst hr
      obtain rfl : sid = k := Option.some.inj (hh.session.symm.trans hk)
      exact hh.heard hl ss hss
  · rcases List.mem_append.1 ha with ha | ha
    · exact hh.decided hl a ha k ss hk hss (by simp)
    · obtain rfl := List.mem_singleton.1 ha
      exact absurd (congrArg some hr.symm) hd

/-- The decision that was due. -/
theorem Hears.decide (hh : Hears c e sid (some e) h s) : Hears c e sid none (h.decide c e sid) s := by
  have hh' := hh.grows (.decide c e sid)
  refine { hh' with decided := fun hl r hr k ss hk hss _ => ?_ }
  by_cases hev : r.event = e
  · subst hev
    obtain rfl : sid = k := Option.some.inj (hh.session.symm.trans hk)
    simp only [Host.decide, Host.updateSession, ↓reduceIte] at hss
    obtain ⟨s₀, _, rfl⟩ := Option.map_eq_some_iff.1 hss
    exact s₀.decide_decided hl r.event
  · exact hh'.decided hl r hr k ss hk hss (by simpa using fun heq => hev heq.symm)

/-! ## What the operations keep -/

/-- An action that keeps `I`, no failure of it ambiguous. -/
abbrev Steadily (I : Host → List SealedRecord → Prop) {α : Type} (m : HostM α) : Prop :=
  Act.Keeps (.seq steadyEnv) I m

section Walk

variable {I : Host → List SealedRecord → Prop}

theorem steadily_await {q : Query} (hq : ∀ r, q ≠ .append r) : Steadily I (Act.await q) := by
  intro h s hi
  rw [Act.wp_await_seq]
  intro r s' he
  exact steady_same hq he ▸ hi

theorem steadily_canonically {α : Type} (x : Except Str α) : Steadily I (canonically x) := by
  cases x <;> exact .lift _

theorem hears_modify {f : Host → Host} (hf : ∀ h : Host, h.Grows (f h)) :
    Steadily (Hears c e sid due) (Act.modify f : HostM Unit) := .modify fun h _ hh => hh.grows (hf h)

variable (W : World)

/-- What a seal leaves: a record stored, its decision due, or nothing new. -/
def SealHears (c : Config) (e : Event) (sid : Str) :
    Except Raise (Option SealedRecord) → Host → List SealedRecord → Prop
  | .ok (some _), h, s => Hears c e sid (some e) h s
  | _, h, s => Hears c e sid none h s

theorem commitSealed_hears {r : SealedRecord} (hr : r.event = e) (hh : Hears c e sid (some e) h s) :
    (commitSealed W r).wp (.seq steadyEnv) (SealHears c e sid) h s := by
  refine commitSealed_wp (hr ▸ hh.domain) ?_
  exact hh.grows (.same rfl rfl)

theorem persist_hears (hrepo : c.hasRepository = true) {r : SealedRecord} (hr : r.event = e)
    (hh : Hears c e sid none h s) : (persist W c r).wp (.seq steadyEnv) (SealHears c e sid) h s := by
  simp only [persist, hrepo, ↓reduceIte, Act.wp_bind, Act.wp_await_seq]
  rintro x s' ⟨happ, rfl⟩
  rcases happ with happ | ⟨_, x, hx⟩
  · rw [(storeAppend_eq_ok.1 happ).2]
    exact commitSealed_hears W hr (hh.append hr)
  · cases hx

theorem sealRecord_hears (hrepo : c.hasRepository = true) (ts : Str) (hh : Hears c e sid none h s) :
    (sealRecord W c e ts).wp (.seq steadyEnv) (SealHears c e sid) h s := by
  simp only [sealRecord, Act.wp_bind, Act.wp_get, Act.next_ok]
  cases hseal : h.ledger.seal W e ts with
  | error m => exact hh
  | ok r =>
    obtain ⟨hev, _⟩ := Ledger.seal_eq_ok hseal
    simp only [canonically, Act.wp_lift, Act.next_ok, Act.wp_bind]
    unfold countersign
    cases hkey : c.countersigner with
    | none => exact persist_hears W hrepo hev hh
    | some key =>
      dsimp only
      rw [Act.wp_bind]
      cases countersignaturePayload W (.int r.seq) (.str r.hostTs) (.str c.logId) (.str r.previousHash)
        (.str r.recordHash) with
      | error m => exact hh
      | ok payload =>
        simp only [canonically, Act.wp_lift, Act.next_ok, Act.wp_bind, Act.wp_await_seq]
        rintro x s' he
        obtain rfl := steady_same (by simp) he
        cases x with
        | ok g => exact persist_hears W hrepo (r := { r with hostSignature := some g, hostKeyId := some key, logId := some c.logId }) hev hh
        | error err =>
          cases err with
          | cancelled => exact absurd rfl he.2
          | _ => exact hh

theorem hears_answerSealed (r : SealedRecord) : Steadily (Hears c e sid none) (answerSealed W c e sid r) := by
  refine .bind (steadily_canonically _) fun was => .bind (steadily_canonically _) fun is => .ite ?_ ?_
  · split
    · exact .bind (hears_modify fun h => .accept sid (eventId e)) fun _ => .lift _
    · exact .bind (.pure _) fun _ => .lift _
  · refine .bind (hears_modify fun h => ?_) fun _ => .pure _
    exact ((Host.Grows.reject _).trans (.decide c e sid)).trans (.flag _ _ _)

theorem hears_sealAttempt (hrepo : c.hasRepository = true) : Steadily (Hears c e sid none) (sealAttempt W c e sid) := by
  refine .bind (steadily_await (by simp)) fun up => .ite ?_ (.pure _)
  refine .bind (steadily_await (by simp)) fun ts h s hh => ?_
  rw [Act.wp_bind]
  refine Act.wp_mono ?_ (sealRecord_hears W hrepo ts hh)
  rintro (x | _ | r) h' s' hp
  · exact hp
  · exact hp
  · simp only [Act.next_ok, Act.wp_bind, Act.wp_modify, Act.wp_lift]
    exact (Hears.decide hp).grows (.accept sid (eventId e))

theorem hears_sealOutcome (hrepo : c.hasRepository = true) (d : Str) :
    Steadily (Hears c e sid none) (sealOutcome W c e sid d) := by
  refine .bind (steadily_await (by simp)) fun up => .ite ?_ (.pure _)
  refine .bind (steadily_await (by simp)) fun ts h s hh => ?_
  rw [Act.wp_bind]
  refine Act.wp_mono ?_ (sealRecord_hears W hrepo ts hh)
  rintro (x | _ | r) h' s' hp
  · exact hp
  · exact hp
  · simp only [Act.next_ok, Act.wp_bind, Act.wp_modify, Act.wp_pure]
    exact (Hears.decide hp).grows (.conclude sid (eventId e) d)

theorem hears_decideAttempt (hrepo : c.hasRepository = true) :
    Steadily (Hears c e sid none) (decideAttempt W c e sid) := by
  refine .bind .get fun h₀ => ?_
  split
  · exact hears_answerSealed W _
  · refine .ite ?_ (.bind (.state fun h s hh => hh.grows (.checkReplay c e sid)) fun x => ?_)
    · refine .bind (hears_modify fun h => ?_) fun _ => .pure _
      exact ((Host.Grows.reject _).trans (.decide c e sid)).trans (.flag _ _ _)
    · cases x with
      | none => exact hears_sealAttempt W hrepo
      | some reason =>
        exact .bind (hears_modify fun h => (Host.Grows.reject _).trans (.decide c e sid)) fun _ => .pure _

theorem hears_decideOutcome (hrepo : c.hasRepository = true) :
    Steadily (Hears c e sid none) (decideOutcome W c e sid) := by
  have hdecide : ∀ (h : Host) (kind : Reason) (d : Str), h.Grows ((h.decide c e sid).flag (eventId e) kind d) :=
    fun h kind d => (Host.Grows.decide c e sid).trans (.flag _ _ _)
  refine .bind (steadily_canonically _) fun d => .bind .get fun h₀ => .ite (.pure _) (.ite ?_ ?_)
  · exact .bind (hears_modify fun h => hdecide h _ _) fun _ => .pure _
  · refine .bind (.state fun h s hh => hh.grows (.checkReplay c e sid)) fun x => ?_
    cases x with
    | some reason => exact .pure _
    | none =>
      refine .bind .get fun h₁ => .ite ?_ (hears_sealOutcome W hrepo d)
      exact .bind (hears_modify fun h => hdecide h _ _) fun _ => .pure _

/-- Past `_admit`, a signature that verifies leaves its number received. -/
theorem verifySignature_hears {expected : Option Str} {attempt : Bool} (ht : Tracks c none h s)
    (ha : admitEvent W e expected attempt h = (.ok sid, h')) :
    (verifySignature c e sid).wp (.seq steadyEnv)
      (fun x h'' s' => Tracks c none h'' s' ∧ (x = .ok none → Hears c e sid none h'' s')) h' s := by
  obtain ⟨_, _, hdom, hsid, _⟩ := (admit_spec ha).2 sid rfl
  have hgrows : h.Grows h' := by
    have hadm := Host.Grows.admitEvent (h := h) W e expected attempt
    rwa [ha] at hadm
  have ht' := ht.grows hgrows
  unfold verifySignature
  split
  · next hl => exact ⟨ht', fun _ => ⟨ht', hdom, hsid, fun hl2 => by simp [hl] at hl2⟩⟩
  · split
    · next k n _ hk hn =>
      rw [Act.wp_bind, Act.wp_await_seq]
      rintro x s' he
      obtain rfl := steady_same (by simp) he
      match x with
      | .error x => exact ⟨ht', by rintro ⟨⟩⟩
      | .ok (some reason) => exact ⟨ht'.grows (.flag _ _ _), by rintro ⟨⟩⟩
      | .ok none =>
        obtain ⟨hnote, hin⟩ := noteReceived_grows e k n sid h'
        refine ⟨ht'.grows hnote, fun _ => ⟨ht'.grows hnote, hdom, hsid, fun _ ss hss k' n' hk' hn' => ?_⟩⟩
        obtain rfl : k = k' := Option.some.inj (hk.symm.trans hk')
        obtain rfl : n = n' := Option.some.inj (hn.symm.trans hn')
        exact hin ss hss
    · exact ⟨ht'.grows (.flag _ _ _), by rintro ⟨⟩⟩

theorem tracks_settleTail : Steadily (Tracks c none) (settleTail W c) := by
  intro h s ht
  simp only [settleTail, Act.wp_bind, Act.wp_get, Act.next_ok, ht.certain, Bool.false_eq_true, false_and, ↓reduceIte]
  exact ht

theorem tracks_handleAttempt (hrepo : c.hasRepository = true) (e : Event) (expected : Option Str)
    (deadline : Option Rat) : Steadily (Tracks c none) (handleAttempt W c e expected deadline) := by
  have hlocked : Steadily (Tracks c none) (handleAttemptLocked W c e expected) := by
    intro h s ht
    simp only [handleAttemptLocked, Act.wp_bind, Act.wp_state]
    rcases ha : admitEvent W e expected true h with ⟨_ | sid, h'⟩
    · have hadm := ht.grows (.admitEvent W e expected true)
      rw [ha] at hadm
      exact hadm
    · simp only [Act.next_ok, Act.wp_bind]
      refine Act.wp_mono ?_ (verifySignature_hears W ht ha)
      rintro (x | _ | reason) h'' s' ⟨ht', hh⟩
      · exact ht'
      · exact Act.wp_mono (fun _ _ _ hh => hh.toTracks) (hears_decideAttempt W hrepo h'' s' (hh rfl))
      · exact ht'.grows (.reject _)
  have hrest : ∀ late : Bool, Steadily (Tracks c none) (if late = true then pure .unavailable else do
      if ← settleTail W c then handleAttemptLocked W c e expected else pure .unavailable) := fun late =>
    .ite (.pure _) (.bind (tracks_settleTail W) fun settled => .ite hlocked (.pure _))
  unfold handleAttempt
  cases deadline with
  | none => exact .bind (.pure false) fun late => hrest late
  | some d => exact .bind (steadily_await (by simp)) fun now => .bind (.pure _) fun late => hrest late

theorem tracks_recordOutcome (hrepo : c.hasRepository = true) (e : Event) (expected : Option Str) :
    Steadily (Tracks c none) (recordOutcome W c e expected) := by
  refine .bind (tracks_settleTail W) fun settled => .ite ?_ (.pure _)
  intro h s ht
  simp only [handleOutcomeLocked, Act.wp_bind, Act.wp_state]
  rcases ha : admitEvent W e expected false h with ⟨_ | sid, h'⟩
  · have hadm := ht.grows (.admitEvent W e expected false)
    rw [ha] at hadm
    exact hadm
  · simp only [Act.next_ok, Act.wp_bind]
    refine Act.wp_mono ?_ (verifySignature_hears W ht ha)
    rintro (x | _ | reason) h'' s' ⟨ht', hh⟩
    · exact ht'
    · exact Act.wp_mono (fun _ _ _ hh => hh.toTracks) (hears_decideOutcome W hrepo h'' s' (hh rfl))
    · exact ht'

end Walk

/-- A session just opened has nothing in the store. -/
theorem Tracks.opened (ht : Tracks c none h s) (hnew : ∀ r ∈ s, sessionId r.event ≠ some sid) (issued : List Str) :
    Tracks c none { h with issued := issued, sessions := Function.update h.sessions sid (some .new) } s := by
  refine ⟨ht.certain, fun k ss hss => ?_, fun hl r hr k ss hk hss => ?_, fun hl r hr k ss hk hss => ?_⟩
  all_goals simp only [Function.update_apply] at hss; split at hss
  · cases hss
    exact ⟨.nil, [], by simp [Session.new]⟩
  · exact ht.tidy k ss hss
  · next heq => exact absurd hk (heq ▸ hnew r hr)
  · exact ht.received hl r hr k ss hk hss
  · next heq => exact absurd hk (heq ▸ hnew r hr)
  · exact ht.decided hl r hr k ss hk hss

/-- **One operation**, over a store the host's tables mirror. -/
theorem Tracks.run {W : World} (hrepo : c.hasRepository = true) {rs : List SealedRecord} (hm : Mirrors W h rs)
    (hs : s = rs) (ht : Tracks c none h s) {o : HostOp} {x : Except Raise Unit} {s' : List SealedRecord}
    (hr : Runs steadyEnv (o.run W c h) s (x, h') s') : Tracks c none h' s' := by
  have hw : (o.run W c).wp (.seq steadyEnv) (fun _ h' s' => Tracks c none h' s') h s := by
    cases o with
    | attempt e expected deadline =>
      exact Act.Keeps.bind (tracks_handleAttempt W hrepo e expected deadline) (fun _ => .pure ()) h s ht
    | outcome e expected => exact Act.Keeps.bind (tracks_recordOutcome W hrepo e expected) (fun _ => .pure ()) h s ht
    | openSession sid =>
      simp only [HostOp.run, openSession, Act.wp_bind, Act.wp_get, Act.next_ok]
      split
      · exact ht
      · next hnew =>
        refine ht.opened (fun r hr hsid => hnew ?_) _
        exact hm.issued r (hs ▸ hr) sid hsid
    | closeSession sid =>
      simp only [HostOp.run, closeSession, Act.wp_bind, Act.wp_get, Act.next_ok]
      cases hss : h.sessions sid with
      | none => exact ht
      | some ss =>
        have hclosed : h.Grows { h with sessions := Function.update h.sessions sid none } := by
          refine ⟨rfl, fun k s' hs' => ⟨s', ?_, .refl s', id⟩⟩
          simp only [Function.update_apply] at hs'
          split at hs'
          · cases hs'
          · exact hs'
        exact ht.grows (hclosed.trans (.flagAll _ _ _))
  exact Act.wp_runs hw hr

/-- **What a live host has heard.** After any operations of a host over an empty store, no failure ambiguous,
its tables mirror the store, no tail is in doubt, and each stored number was received and decided in its
session. -/
theorem operated_tracks {W : World} (hj : JcsSpec W.dumps InDomain) (hrepo : c.hasRepository = true)
    (hr : Relation.ReflTransGen (Operated W c) (.new, []) (h, s)) : Mirrors W h s ∧ Tracks c none h s := by
  suffices hall : ∀ y : Host × List SealedRecord, Relation.ReflTransGen (Operated W c) (.new, []) y →
      Consistent W onlyStore c y.1 y.2 y.2 ∧ Tracks c none y.1 y.2 from ⟨(hall (h, s) hr).1.mirrors, (hall (h, s) hr).2⟩
  intro y hy
  induction hy with
  | refl =>
    refine ⟨⟨mirrors_new, fun _ => rfl, fun _ => .inl rfl⟩, rfl, ?_, ?_, ?_⟩
    · intro sid ss hss
      cases hss
    · intro _ r hr
      cases hr
    · intro _ r hr
      cases hr
  | @tail y z _ hop ih =>
    obtain ⟨o, a, hrun⟩ := hop
    obtain ⟨hc, ht⟩ := ih
    have ht' := ht.run hrepo hc.mirrors rfl hrun
    obtain ⟨rs, hc'⟩ := hc.run hj (onlyStore_fair c) (hrun.mono fun _ _ _ _ he => he.1)
    obtain rfl : z.2 = rs := hc'.settled hrepo fun _ => ht'.certain
    exact ⟨hc', ht'⟩

end AuditableMcp
