import AuditableMcp.SharedStore
import Mathlib.Data.Option.Basic
/-!
# One host: its operations as moves

What a host's operations can do to its tables and its store, said once (`Move`): a guard, and the state
after. A run of any operation is a sequence of moves (`run_moves`), so a property of a host over whole
runs is shown move by move, and no proof about it unfolds an operation again.

A host's surroundings (`Surroundings`) keep what it awaits: a store with a conditional append, and, for a
Level-2 host and for one that countersigns, what a verified signature and a countersignature are good for.
-/
namespace AuditableMcp

open JsonValue Effect

/-! ## Surroundings -/

/-- What one host's awaits are answered from. -/
structure Surroundings (σ : Type) where
  env : σ → (q : Query) → Reply q → σ → Prop
  store : σ → List SealedRecord
  /-- What a verifier that answered for an event stands for. -/
  vouched : σ → Event → Prop
  /-- What a signer that signed a payload stands for. -/
  signed : σ → Str → Str → Prop

variable {σ : Type}

/-- The store is conditional, and neither a verification nor a countersignature is taken back. -/
structure Surroundings.Fair (E : Surroundings σ) (c : Config) : Prop where
  conditional : ∀ {s q x s'}, E.env s q x s' → storeEnv (E.store s) q x (E.store s')
  vouched_mono : ∀ {s q x s' e}, E.env s q x s' → E.vouched s e → E.vouched s' e
  signed_mono : ∀ {s q x s' p g}, E.env s q x s' → E.signed s p g → E.signed s' p g
  verified : ∀ {s e s'}, c.level = .l2 → E.env s (.verify e) (.ok none) s' → E.vouched s' e
  countersigned : ∀ {s p g s'}, E.env s (.sign p) (.ok g) s' → E.signed s' p g

/-! ## What an operation may change without deciding anything new -/

/-- The operations of a session are as they were, and nothing decided is forgotten. -/
structure Session.Le (s s' : Session) : Prop where
  accepted : s'.accepted = s.accepted
  resolved : s'.resolved = s.resolved
  outcomes : s'.outcomes = s.outcomes
  decided : s.decided ⊆ s'.decided

theorem Session.Le.refl (s : Session) : s.Le s := ⟨rfl, rfl, rfl, List.Subset.refl _⟩

theorem Session.Le.trans {s t u : Session} (h : s.Le t) (h' : t.Le u) : s.Le u :=
  ⟨h'.accepted.trans h.accepted, h'.resolved.trans h.resolved, h'.outcomes.trans h.outcomes,
    fun _ hm => h'.decided (h.decided hm)⟩

/-- Only anomalies, reject memory, received numbers and decided numbers differ, the last by growing. -/
structure Neutral (h h' : Host) : Prop where
  ledger : h'.ledger = h.ledger
  issued : h'.issued = h.issued
  tailUncertain : h'.tailUncertain = h.tailUncertain
  sealedAttempts : h'.sealedAttempts = h.sealedAttempts
  sealedDigests : h'.sealedDigests = h.sealedDigests
  sessions : ∀ sid, Option.Rel Session.Le (h.sessions sid) (h'.sessions sid)

theorem optionRel_refl {α : Type} {r : α → α → Prop} (hr : ∀ a, r a a) : ∀ o : Option α, Option.Rel r o o
  | none => .none
  | some a => .some (hr a)

theorem Neutral.refl (h : Host) : Neutral h h :=
  ⟨rfl, rfl, rfl, rfl, rfl, fun _ => optionRel_refl Session.Le.refl _⟩

theorem Neutral.trans {h h' h'' : Host} (a : Neutral h h') (b : Neutral h' h'') : Neutral h h'' where
  ledger := b.ledger.trans a.ledger
  issued := b.issued.trans a.issued
  tailUncertain := b.tailUncertain.trans a.tailUncertain
  sealedAttempts := b.sealedAttempts.trans a.sealedAttempts
  sealedDigests := b.sealedDigests.trans a.sealedDigests
  sessions sid := by
    have ha := a.sessions sid
    have hb := b.sessions sid
    generalize h.sessions sid = x at ha
    generalize h'.sessions sid = y at ha hb
    generalize h''.sessions sid = z at hb
    cases ha with
    | none => cases hb; exact .none
    | some ha => cases hb with
      | some hb => exact .some (ha.trans hb)

theorem Neutral.open {h h' : Host} (a : Neutral h h') {sid : Str} {s' : Session}
    (hs' : h'.sessions sid = some s') : ∃ s, h.sessions sid = some s ∧ s.Le s' := by
  have ha := a.sessions sid
  rw [hs'] at ha
  generalize h.sessions sid = x at ha
  cases ha with
  | some hle => exact ⟨_, rfl, hle⟩

theorem Neutral.isSome {h h' : Host} (a : Neutral h h') (sid : Str) :
    (h'.sessions sid).isSome = (h.sessions sid).isSome := by
  have ha := a.sessions sid
  generalize h.sessions sid = x at ha
  generalize h'.sessions sid = y at ha
  cases ha <;> rfl

theorem flag_neutral (id : Str) (kind : Reason) (detail : Str) (h : Host) :
    Neutral h (h.flag id kind detail) :=
  ⟨rfl, rfl, rfl, rfl, rfl, (Neutral.refl h).sessions⟩

theorem reject_neutral (id : Str) (h : Host) : Neutral h (h.reject id) :=
  ⟨rfl, rfl, rfl, rfl, rfl, (Neutral.refl h).sessions⟩

theorem updateSession_neutral {f : Session → Session} {sid : Str} {h : Host}
    (hf : ∀ s : Session, h.sessions sid = some s → s.Le (f s)) : Neutral h (h.updateSession sid f) := by
  refine ⟨rfl, rfl, rfl, rfl, rfl, fun k => ?_⟩
  simp only [Host.updateSession]
  split
  · next hk =>
    subst hk
    cases hs : h.sessions k with
    | none => exact .none
    | some s => exact .some (hf s hs)
  · exact optionRel_refl Session.Le.refl _

theorem Session.decide_le (c : Config) (e : Event) (s : Session) : s.Le (s.decide c e) := by
  unfold Session.decide
  split
  · exact ⟨rfl, rfl, rfl, fun _ hm => List.mem_insert_of_mem hm⟩
  · exact .refl s

theorem decide_neutral (c : Config) (e : Event) (sid : Str) (h : Host) : Neutral h (h.decide c e sid) :=
  updateSession_neutral fun s _ => s.decide_le c e

theorem receive_neutral (k : Str) (n : Int) (sid : Str) (h : Host) : Neutral h (h.receive k n sid) := by
  refine updateSession_neutral ?_
  exact fun s _ => ⟨rfl, rfl, rfl, List.Subset.refl _⟩

theorem flagAll_neutral (detail : Str → Str) (ids : List Str) : ∀ h : Host, Neutral h (flagAll detail ids h) := by
  induction ids with
  | nil => exact fun h => .refl h
  | cons id ids ih => exact fun h => (flag_neutral id _ _ h).trans (ih _)

theorem noteReceived_neutral (e : Event) (k : Str) (n : Int) (sid : Str) (h : Host) :
    Neutral h (noteReceived e k n sid h) := by
  have hgap : ∀ received, Neutral h (flagGap e n received h) := fun received => by
    simp only [flagGap]
    split
    · exact flag_neutral _ _ _ h
    · exact .refl h
  simp only [noteReceived]
  split
  · exact (hgap _).trans (receive_neutral k n sid _)
  · exact hgap _

theorem checkReplay_neutral (c : Config) (e : Event) (sid : Str) (h : Host) :
    Neutral h (checkReplay c e sid h).2 := by
  unfold checkReplay
  split
  · split
    · exact flag_neutral _ _ _ h
    · exact .refl h
  · exact .refl h

/-! ## Moves -/

variable (W : World) (E : Surroundings σ) (c : Config)

/-- What the Level-2 checks of `_verify_signature` establish. -/
def Vouched (s : σ) (e : Event) : Prop :=
  c.level = .l2 → unsigned e = false ∧ (∃ k n, keyId e = some k ∧ signerSeq e = some n) ∧ E.vouched s e

/-- No append is in doubt. -/
def Settled (h : Host) : Prop := c.hasRepository = true → h.tailUncertain = false

/-- An event past `_settle_tail`, `_admit` and `_verify_signature`, of the open session it names. -/
structure Admitted (h : Host) (s : σ) (e : Event) (sid : Str) : Prop where
  settled : Settled c h
  valid : validAuditEvent W (.obj e) = true
  domain : InDomain (.obj e)
  session : sessionId e = some sid
  isOpen : (h.sessions sid).isSome = true
  vouched : Vouched E c s e

/-- An event whose seal is due: past the uniqueness, sequence and correlation checks too. -/
structure Ready (h : Host) (s : σ) (e : Event) (sid : Str) : Prop extends Admitted W E c h s e sid where
  fresh : c.level = .l2 → ∀ k n, keyId e = some k → signerSeq e = some n →
    ∀ ss, h.sessions sid = some ss → (k, n) ∉ ss.decided
  unconcluded : ∀ ss, h.sessions sid = some ss → ss.outcomes (eventId e) = none
  attempt : isAttempt e = true → h.sealedAttempts (eventId e) = none
  outcome : isAttempt e = false → ∀ d, digestOf W e = .ok d → d ∉ h.sealedDigests ∧
    (hasText e OUTCOME Outcome.aborted.text = true ∨
      ∀ ss, h.sessions sid = some ss → eventId e ∈ ss.accepted)

/-- The countersignature triple of `_seal`: absent, or the signer's over this record. -/
def Triple (s : σ) (r : SealedRecord) : Prop :=
  match c.countersigner with
  | none => r.hostSignature = none ∧ r.hostKeyId = none ∧ r.logId = none
  | some key => ∃ p g, countersignaturePayload W (.int r.seq) (.str r.hostTs) (.str c.logId)
      (.str r.previousHash) (.str r.recordHash) = .ok p ∧
        r.hostSignature = some g ∧ r.hostKeyId = some key ∧ r.logId = some c.logId ∧ E.signed s p g

/-- The record `_seal` makes of an event at the end of the host's ledger. -/
structure Made (h : Host) (s : σ) (e : Event) (r : SealedRecord) : Prop where
  event : r.event = e
  fits : Fits W h r
  triple : Triple W E c s r

/-- A sealed record, accounted to its open session (`_adopt`, and the ends of both handlers). -/
def account (c : Config) (e : Event) (sid digest : Str) (h : Host) : Host :=
  if isAttempt e then (h.decide c e sid).accept sid (eventId e)
  else (h.decide c e sid).conclude sid (eventId e) digest

/-- `account`, on the session's own tables. -/
def Session.account (c : Config) (e : Event) (digest : Str) (s : Session) : Session :=
  if isAttempt e then { s.decide c e with accepted := (s.decide c e).accepted.insert (eventId e) }
  else (s.decide c e).conclude (eventId e) digest

theorem account_eq (c : Config) (e : Event) (sid d : Str) (h : Host) :
    account c e sid d h = h.updateSession sid (Session.account c e d) := by
  have hcomp : ∀ f g : Session → Session,
      (h.updateSession sid f).updateSession sid g = h.updateSession sid (g ∘ f) := by
    intro f g
    simp only [Host.updateSession]
    congr 1
    funext k
    split <;> simp
  unfold account Session.account
  split
  · exact hcomp _ _
  · exact hcomp _ _

/-- A record committed to the ledger and remembered. -/
def recorded (r : SealedRecord) (digest : Str) (h : Host) : Host := (h.commit r).rememberWith r digest

/-- `_adopt`, the digest computed. -/
def adopted (c : Config) (r : SealedRecord) (digest : Str) (h : Host) : Host :=
  match sessionId r.event with
  | none => h
  | some sid => if (h.sessions sid).isSome then account c r.event sid digest h else h

def settled (h : Host) : Host := { h with tailUncertain := false }

/-- The landed record of an ambiguous append: next in the ledger, and last in the store. -/
structure Landed (h : Host) (s : σ) (r : SealedRecord) : Prop where
  repository : c.hasRepository = true
  uncertain : h.tailUncertain = true
  last : (E.store s).getLast? = some r
  next : r.seq = h.ledger.count ∧ r.previousHash = h.ledger.digest

/-- What an operation can do. -/
inductive Move : Host × σ → Host × σ → Prop
  | turn {h : Host} {s s' : σ} (q : Query) (x : Reply q) :
      (∀ r, q ≠ .append r) → E.env s q x s' → Move (h, s) (h, s')
  | note {h h' : Host} {s : σ} : Neutral h h' → Move (h, s) (h', s)
  /-- A seal interrupted before the append. -/
  | doubt {h : Host} {s : σ} : Move (h, s) (h.uncertain, s)
  /-- An append that failed: the record may have landed. -/
  | ambiguous {h : Host} {s s' : σ} {e : Event} {sid : Str} {r : SealedRecord} (x : Raise) :
      c.hasRepository = true → Ready W E c h s e sid → Made W E c h s e r →
      E.env s (.append r) (.error x) s' → Move (h, s) (h.uncertain, s')
  | stored {h : Host} {s s' : σ} {e : Event} {sid d : Str} {r : SealedRecord} :
      c.hasRepository = true → Ready W E c h s e sid → Made W E c h s e r →
      E.env s (.append r) (.ok ()) s' → digestOf W e = .ok d →
      Move (h, s) (account c e sid d (recorded r d h), s')
  | kept {h : Host} {s : σ} {e : Event} {sid d : Str} {r : SealedRecord} :
      c.hasRepository = false → Ready W E c h s e sid → Made W E c h s e r → digestOf W e = .ok d →
      Move (h, s) (account c e sid d (recorded r d h), s)
  | adopt {h : Host} {s : σ} {r : SealedRecord} {d : Str} :
      Landed E c h s r → digestOf W r.event = .ok d →
      Move (h, s) (settled (adopted c r d (recorded r d h)), s)
  /-- A landed record that has no digest raises out of `_remember`. -/
  | adoptRaised {h : Host} {s : σ} {r : SealedRecord} {m : Str} :
      Landed E c h s r → digestOf W r.event = .error m → Move (h, s) (h.commit r, s)
  /-- Another writer's tail. -/
  | jump {h : Host} {s : σ} {r : SealedRecord} :
      c.hasRepository = true → h.tailUncertain = true → (E.store s).getLast? = some r →
      h.ledger.count < r.seq → Move (h, s) (settled { h with ledger := .resumeFrom (some r) }, s)
  /-- No record landed. -/
  | clear {h : Host} {s : σ} :
      (∀ r, (E.store s).getLast? = some r →
        ¬(r.seq = h.ledger.count ∧ r.previousHash = h.ledger.digest) ∧ ¬ h.ledger.count < r.seq) →
      Move (h, s) (settled h, s)
  /-- A byte-identical repeat of an attempt its session already sealed. -/
  | reaccept {h : Host} {s : σ} {sid id : Str} {r : SealedRecord} :
      h.sealedAttempts id = some r → sessionId r.event = some sid → (h.sessions sid).isSome = true →
      Move (h, s) (h.accept sid id, s)
  | opened {h : Host} {s : σ} {sid : Str} : sid ∉ h.issued →
      Move (h, s) ({ h with issued := h.issued.insert sid, sessions := Function.update h.sessions sid (some .new) }, s)
  | closed {h : Host} {s : σ} {sid : Str} {ss : Session} : h.sessions sid = some ss →
      Move (h, s) (flagAll (fun id => lit "call ended with attempt " ++ id ++ lit " unresolved") ss.unresolved
        { h with sessions := Function.update h.sessions sid none }, s)

/-! ## Operations as moves -/

/-- The stored tail, read. -/
def readsTail : (q : Query) → Reply q → Bool
  | .loadTail, .ok _ => true
  | _, _ => false

/-- What `_settle_tail` makes of a tail: the doubt is over, or the ledger has moved on under it. -/
def Settling (c : Config) (h h' : Host) : Prop :=
  c.hasRepository = true ∧ h.tailUncertain = true ∧ (h'.tailUncertain = false ∨ h'.ledger ≠ h.ledger)

/-- An invariant of one host among others: other writers keep it, each of its moves does, and it answers for
what the host asks. A tail that was read gives `J`, which holds until the host has settled it, with no other
writer between. -/
structure Kept (W : World) (E : Surroundings σ) (c : Config) (rely : σ → σ → Prop) (may : σ → Query → Prop)
    (I J : Host → σ → Prop) : Prop where
  stable : ∀ {h s s'}, I h s → rely s s' → I h s'
  turn : ∀ {h s q x s'}, I h s → (∀ r, q ≠ .append r) → readsTail q x = false → E.env s q x s' → I h s'
  read : ∀ {h s t s'}, I h s → E.env s .loadTail (.ok t) s' → J h s'
  move : ∀ {h s h' s'}, I h s → Move W E c (h, s) (h', s') → h' ≠ h → ¬ Settling c h h' → I h' s'
  settle : ∀ {h s h'}, J h s → Move W E c (h, s) (h', s) → Settling c h h' → I h' s
  asks : ∀ {h s q}, (∀ r, q ≠ .append r) → I h s → may s q
  appends : ∀ {h s e sid r}, c.hasRepository = true → Ready W E c h s e sid → Made W E c h s e r → I h s →
    may s (.append r)
  vouched : ∀ {s s' e}, rely s s' → E.vouched s e → E.vouched s' e
  signed : ∀ {s s' p g}, rely s s' → E.signed s p g → E.signed s' p g

variable {W} {E} {c}

/-- An action that keeps an invariant, other writers coming between its asks. -/
abbrev Keeping (E : Surroundings σ) (rely : σ → σ → Prop) (may : σ → Query → Prop) (I : Host → σ → Prop) {α : Type}
    (m : HostM α) : Prop :=
  Act.Keeps ⟨E.env, rely, may⟩ I m

variable {rely : σ → σ → Prop} {may : σ → Query → Prop} {I J : Host → σ → Prop}

/-- A move beside the store and the tail. -/
theorem Kept.here (K : Kept W E c rely may I J) {h h' : Host} {s : σ} (hr : I h s) (hm : Move W E c (h, s) (h', s))
    (hs : ¬ Settling c h h') : I h' s := by
  by_cases heq : h' = h
  · exact heq ▸ hr
  · exact K.move hr hm heq hs

theorem not_settling {h h' : Host} (hl : h'.ledger = h.ledger) (ht : h.tailUncertain = true → h'.tailUncertain = true) :
    ¬ Settling c h h' := by
  rintro ⟨_, hunc, hend | hne⟩
  · simp [ht hunc] at hend
  · exact hne hl

theorem Kept.note (K : Kept W E c rely may I J) {h h' : Host} {s : σ} (hr : I h s) (hn : Neutral h h') : I h' s :=
  K.here hr (.note hn) (not_settling hn.ledger fun hu => hn.tailUncertain.trans hu)

theorem Vouched.turn (hE : E.Fair c) {s s' : σ} {q : Query} {x : Reply q} (he : E.env s q x s') {e : Event}
    (h : Vouched E c s e) : Vouched E c s' e := fun hl =>
  ⟨(h hl).1, (h hl).2.1, hE.vouched_mono he (h hl).2.2⟩

theorem Ready.turn (hE : E.Fair c) {h : Host} {s s' : σ} {q : Query} {x : Reply q} (he : E.env s q x s')
    {e : Event} {sid : Str} (hr : Ready W E c h s e sid) : Ready W E c h s' e sid :=
  { hr with vouched := hr.vouched.turn hE he }

theorem Ready.meanwhile (K : Kept W E c rely may I J) {h : Host} {s s' : σ} (hs : rely s s') {e : Event} {sid : Str}
    (hr : Ready W E c h s e sid) : Ready W E c h s' e sid :=
  { hr with vouched := fun hl => ⟨(hr.vouched hl).1, (hr.vouched hl).2.1, K.vouched hs (hr.vouched hl).2.2⟩ }

theorem Made.meanwhile (K : Kept W E c rely may I J) {h : Host} {s s' : σ} (hs : rely s s') {e : Event} {r : SealedRecord}
    (hm : Made W E c h s e r) : Made W E c h s' e r := by
  refine ⟨hm.event, hm.fits, ?_⟩
  have ht := hm.triple
  unfold Triple at ht ⊢
  split at ht
  · exact ht
  · obtain ⟨p, g, hp, hg, hk, hlog, hsigned⟩ := ht
    exact ⟨p, g, hp, hg, hk, hlog, K.signed hs hsigned⟩

/-- A record moves the ledger on. -/
theorem commit_ledger_ne {h : Host} {r : SealedRecord} : (h.commit r).ledger ≠ h.ledger := by
  intro heq
  have hcount : h.ledger.count + 1 = h.ledger.count := congrArg Ledger.count heq
  omega

@[simp] theorem account_ledger (e : Event) (sid d : Str) (h : Host) : (account c e sid d h).ledger = h.ledger := by
  rw [account_eq]
  rfl

@[simp] theorem account_sealedAttempts (e : Event) (sid d : Str) (h : Host) :
    (account c e sid d h).sealedAttempts = h.sealedAttempts := by
  rw [account_eq]
  rfl

@[simp] theorem account_sealedDigests (e : Event) (sid d : Str) (h : Host) :
    (account c e sid d h).sealedDigests = h.sealedDigests := by
  rw [account_eq]
  rfl

@[simp] theorem account_tailUncertain (e : Event) (sid d : Str) (h : Host) :
    (account c e sid d h).tailUncertain = h.tailUncertain := by
  rw [account_eq]
  rfl

theorem adopted_ledger (r : SealedRecord) (d : Str) (h : Host) : (adopted c r d h).ledger = h.ledger := by
  unfold adopted
  split
  · rfl
  · split <;> simp

theorem adopted_sealedAttempts (r : SealedRecord) (d : Str) (h : Host) :
    (adopted c r d h).sealedAttempts = h.sealedAttempts := by
  unfold adopted
  split
  · rfl
  · split <;> simp

theorem adopted_sealedDigests (r : SealedRecord) (d : Str) (h : Host) :
    (adopted c r d h).sealedDigests = h.sealedDigests := by
  unfold adopted
  split
  · rfl
  · split <;> simp

/-- No doubt is left where a seal is due, so none is settled by it. -/
theorem Ready.not_settling {h h' : Host} {s : σ} {e : Event} {sid : Str} (hready : Ready W E c h s e sid) :
    ¬ Settling c h h' := by
  rintro ⟨hrepo, hunc, _⟩
  simp [hready.settled hrepo] at hunc

theorem Kept.ambiguous (K : Kept W E c rely may I J) {h : Host} {s s' : σ} {e : Event} {sid : Str} {r : SealedRecord}
    {x : Raise} (hr : I h s) (hrepo : c.hasRepository = true) (hready : Ready W E c h s e sid)
    (hmade : Made W E c h s e r) (he : E.env s (.append r) (.error x) s') : I h.uncertain s' := by
  refine K.move hr (.ambiguous x hrepo hready hmade he) (fun heq => ?_) hready.not_settling
  have hunc : true = h.tailUncertain := congrArg Host.tailUncertain heq
  simp [hready.settled hrepo] at hunc

theorem Kept.stored (K : Kept W E c rely may I J) {h : Host} {s s' : σ} {e : Event} {sid d : Str} {r : SealedRecord}
    (hr : I h s) (hrepo : c.hasRepository = true) (hready : Ready W E c h s e sid) (hmade : Made W E c h s e r)
    (he : E.env s (.append r) (.ok ()) s') (hd : digestOf W e = .ok d) :
    I (account c e sid d (recorded r d h)) s' := by
  refine K.move hr (.stored hrepo hready hmade he hd) (fun heq => ?_) hready.not_settling
  have hledger := congrArg Host.ledger heq
  rw [account_ledger] at hledger
  exact commit_ledger_ne hledger

/-! ### Sealing -/

/-- What a seal leaves: sealed and remembered, its accounting due; or nothing sealed here. -/
def SealPost (W : World) (c : Config) (I : Host → σ → Prop) (e : Event) (sid : Str) :
    Except Raise (Option SealedRecord) → Host → σ → Prop
  | .ok (some r), h, s => ∃ d, digestOf W e = .ok d ∧ I (account c e sid d h) s ∧ r.event = e ∧
      ∃ h₀, h = recorded r d h₀
  | _, h, s => I h s

theorem digestOf_eq_ok {e : Event} (h : InDomain (.obj e)) : digestOf W e = .ok (hashOf W (.obj e)) := by
  simp [digestOf, canonicalize_ok h, Except.map, hashOf]

theorem commitSealed_wp {h : Host} {s : σ} {r : SealedRecord} (hd : InDomain (.obj r.event)) {S : Setting Query Reply σ}
    {P : Except Raise (Option SealedRecord) → Host → σ → Prop}
    (hP : P (.ok (some r)) (recorded r (hashOf W (.obj r.event)) h) s) : (commitSealed W r).wp S P h s := by
  simp only [commitSealed, remember, Act.wp_bind, Act.wp_modify, Act.next_ok, digestOf_eq_ok hd, canonically,
    Act.wp_lift, Act.wp_pure]
  exact hP

theorem persist_keeps (K : Kept W E c rely may I J) {h : Host} {s : σ} {e : Event} {sid : Str} {r : SealedRecord}
    (hr : I h s) (hready : Ready W E c h s e sid) (hmade : Made W E c h s e r) :
    (persist W c r).wp ⟨E.env, rely, may⟩ (SealPost W c I e sid) h s := by
  have hd : InDomain (.obj r.event) := hmade.event ▸ hready.domain
  have hdigest : digestOf W e = _ := digestOf_eq_ok hready.domain
  unfold persist
  split
  · next hrepo =>
    rw [Act.wp_bind, Act.wp_await]
    intro s₁ hs
    have hr₁ := K.stable hr hs
    have hready₁ := hready.meanwhile K hs
    have hmade₁ := hmade.meanwhile K hs
    refine ⟨K.appends hrepo hready₁ hmade₁ hr₁, fun x s' he => ?_⟩
    cases x with
    | ok x =>
      simp only [Act.next_ok]
      refine commitSealed_wp hd ⟨_, hdigest, ?_, hmade.event, h, by rw [hmade.event]⟩
      rw [hmade.event]
      exact K.stored hr₁ hrepo hready₁ hmade₁ he hdigest
    | error x =>
      have hr' := K.ambiguous hr₁ hrepo hready₁ hmade₁ he
      cases x <;> exact hr'
  · next hrepo =>
    have hno : c.hasRepository = false := by simpa using hrepo
    refine commitSealed_wp hd ⟨_, hdigest, ?_, hmade.event, h, by rw [hmade.event]⟩
    rw [hmade.event]
    exact K.here hr (.kept hno hready hmade hdigest) (fun hset => hrepo hset.1)

theorem sealRecord_keeps (hE : E.Fair c) (K : Kept W E c rely may I J) {h : Host} {s : σ} {e : Event} {sid ts : Str}
    (hr : I h s) (hready : Ready W E c h s e sid) :
    (sealRecord W c e ts).wp ⟨E.env, rely, may⟩ (SealPost W c I e sid) h s := by
  simp only [sealRecord, Act.wp_bind, Act.wp_get, Act.next_ok]
  cases hseal : h.ledger.seal W e ts with
  | error m => exact hr
  | ok r =>
    obtain ⟨hev, hseq, hprev, _, hsealed⟩ := Ledger.seal_eq_ok hseal
    have hfits : Fits W h r := ⟨hseq, hprev, hsealed⟩
    simp only [canonically, Act.wp_lift, Act.next_ok, Act.wp_bind]
    unfold countersign
    cases hkey : c.countersigner with
    | none =>
      have htriple : Triple W E c s r := by
        simp only [Triple, hkey]
        exact Ledger.seal_unsigned hseal
      exact persist_keeps K hr hready ⟨hev, hfits, htriple⟩
    | some key =>
      dsimp only
      rw [Act.wp_bind]
      cases hp : countersignaturePayload W (.int r.seq) (.str r.hostTs) (.str c.logId) (.str r.previousHash)
        (.str r.recordHash) with
      | error m => exact hr
      | ok payload =>
        simp only [canonically, Act.wp_lift, Act.next_ok, Act.wp_bind, Act.wp_await]
        intro s₁ hs
        have hr₁ := K.stable hr hs
        refine ⟨K.asks (by simp) hr₁, fun x s' he => ?_⟩
        have hr' : I h s' := K.turn hr₁ (by simp) rfl he
        cases x with
        | ok g =>
          have htriple : Triple W E c s' { r with hostSignature := some g, hostKeyId := some key, logId := some c.logId } := by
            unfold Triple
            rw [hkey]
            exact ⟨payload, g, hp, rfl, rfl, rfl, hE.countersigned he⟩
          exact persist_keeps K hr' ((hready.meanwhile K hs).turn hE he) ⟨hev, hfits, htriple⟩
        | error err =>
          cases err with
          | cancelled => exact K.here hr' .doubt (not_settling rfl fun _ => rfl)
          | _ => exact hr'

/-! ### Admission -/

theorem admit_spec {e : Event} {expected : Option Str} {attempt : Bool} {h h' : Host}
    {x : Except RejectReason Str} (ha : admitEvent W e expected attempt h = (x, h')) :
    Neutral h h' ∧ ∀ sid, x = .ok sid → validAuditEvent W (.obj e) = true ∧ isAttempt e = attempt ∧
      InDomain (.obj e) ∧ sessionId e = some sid ∧ (h'.sessions sid).isSome = true := by
  unfold admitEvent at ha
  split at ha
  · cases ha
    exact ⟨flag_neutral _ _ _ h, by rintro _ ⟨⟩⟩
  · next hvalid =>
    split at ha
    · cases ha
      exact ⟨flag_neutral _ _ _ h, by rintro _ ⟨⟩⟩
    · next hkind =>
      split at ha
      · cases ha
        exact ⟨flag_neutral _ _ _ h, by rintro _ ⟨⟩⟩
      · next hdom =>
        unfold sessionOf at ha
        split at ha
        · next sid hsid =>
          split at ha
          · next hopen =>
            cases ha
            refine ⟨.refl h, ?_⟩
            rintro _ ⟨⟩
            exact ⟨firstError_eq_none.1 hvalid, by simpa using hkind, by simpa [InDomain] using hdom, hsid, hopen.1⟩
          · cases ha
            exact ⟨flag_neutral _ _ _ h, by rintro _ ⟨⟩⟩
        · cases ha
          exact ⟨flag_neutral _ _ _ h, by rintro _ ⟨⟩⟩

theorem verifySignature_keeps (hE : E.Fair c) (K : Kept W E c rely may I J) {h : Host} {s : σ} (e : Event) (sid : Str)
    (hr : I h s) : (verifySignature c e sid).wp ⟨E.env, rely, may⟩
      (fun x h' s' => I h' s' ∧ Neutral h h' ∧ (x = .ok none → Vouched E c s' e)) h s := by
  unfold verifySignature
  split
  · next hl => exact ⟨hr, .refl h, fun _ hl2 => by simp [hl] at hl2⟩
  · split
    · next k n hsig hk hn =>
      rw [Act.wp_bind, Act.wp_await]
      intro s₁ hs
      have hr₁ := K.stable hr hs
      refine ⟨K.asks (by simp) hr₁, fun x s' he => ?_⟩
      have hr' : I h s' := K.turn hr₁ (by simp) rfl he
      match x with
      | .error x => exact ⟨hr', .refl h, by rintro ⟨⟩⟩
      | .ok (some reason) =>
        have hf := flag_neutral (eventId e) reason.1 (lit "signature verification failed") h
        exact ⟨K.note hr' hf, hf, by rintro ⟨⟩⟩
      | .ok none =>
        have hn' := noteReceived_neutral e k n sid h
        exact ⟨K.note hr' hn', hn', fun _ hl => ⟨hsig, ⟨k, n, hk, hn⟩, hE.verified hl he⟩⟩
    · have hf := flag_neutral (eventId e) Reason.l2Unsigned (lit "L2 requires signature, key_id, and signer_seq") h
      exact ⟨K.note hr hf, hf, by rintro ⟨⟩⟩

/-! ### The handlers -/

theorem checkReplay_none {e : Event} {sid : Str} {h : Host} (hr : (checkReplay c e sid h).1 = none) :
    c.level = .l2 → ∀ k n, keyId e = some k → signerSeq e = some n →
      ∀ ss, h.sessions sid = some ss → (k, n) ∉ ss.decided := by
  intro hl k n hk hn ss hss hmem
  simp [checkReplay, hl, hk, hn, hss, hmem] at hr

theorem checkReplay_none_eq {e : Event} {sid : Str} {h : Host} (hr : (checkReplay c e sid h).1 = none) :
    (checkReplay c e sid h).2 = h := by
  unfold checkReplay at hr ⊢
  split
  · split
    · next hany => simp_all
    · rfl
  · rfl

/-- An accept is made of a record the host remembers, of an event canonically the one it answers. -/
def Answers (W : World) (e : Event) (x : Except Raise (AttemptResponse W)) (h : Host) : Prop :=
  ∀ a, x = .ok (.accept a) → ∃ r, h.sealedAttempts (eventId e) = some r ∧ acceptOf W r = .ok (.accept a) ∧
    canonicalize W (.obj r.event) = canonicalize W (.obj e)

theorem Answers.other {e : Event} {x : Except Raise (AttemptResponse W)} {h : Host}
    (hx : ∀ a, x ≠ .ok (.accept a)) : Answers W e x h := fun a ha => absurd ha (hx a)

theorem answerSealed_keeps (K : Kept W E c rely may I J) {h : Host} {s : σ} {e : Event} {sid : Str} {r : SealedRecord}
    (hr : I h s) (hsid : sessionId e = some sid) (hopen : (h.sessions sid).isSome = true)
    (hsealed : h.sealedAttempts (eventId e) = some r) :
    (answerSealed W c e sid r).wp ⟨E.env, rely, may⟩ (fun x h' s' => I h' s' ∧ Answers W e x h') h s := by
  simp only [answerSealed, Act.wp_bind]
  cases hwas : canonicalize W (.obj r.event) with
  | error m => exact ⟨hr, .other (by simp)⟩
  | ok was =>
    simp only [canonically, Act.wp_lift, Act.next_ok, Act.wp_bind]
    cases his : canonicalize W (.obj e) with
    | error m => exact ⟨hr, .other (by simp)⟩
    | ok is =>
      simp only [Act.wp_lift, Act.next_ok]
      split
      · next hsame =>
        have hanswers : Answers W e (acceptOf W r) h := fun a ha => ⟨r, hsealed, ha, by rw [hwas, his, hsame]⟩
        split
        · next hget =>
          have hsid' : sessionId r.event = some sid := by
            unfold sessionId at hsid ⊢
            rwa [hget]
          simp only [Act.wp_bind, Act.wp_modify, Act.next_ok, Act.wp_lift]
          exact ⟨K.here hr (.reaccept hsealed hsid' hopen) (not_settling rfl id), hanswers⟩
        · exact ⟨hr, hanswers⟩
      · simp only [Act.wp_bind, Act.wp_modify, Act.next_ok, Act.wp_pure]
        exact ⟨K.note hr (((reject_neutral _ h).trans (decide_neutral c e sid _)).trans (flag_neutral _ _ _ _)),
          .other (by simp)⟩

theorem sealAttempt_keeps (hE : E.Fair c) (K : Kept W E c rely may I J) {h : Host} {s : σ} {e : Event} {sid : Str}
    (hr : I h s) (hready : Ready W E c h s e sid) (hatt : isAttempt e = true) :
    (sealAttempt W c e sid).wp ⟨E.env, rely, may⟩ (fun x h' s' => I h' s' ∧ Answers W e x h') h s := by
  simp only [sealAttempt, persistenceAvailable, Act.wp_bind, Act.wp_await]
  intro s₀ hs
  have hr₀ := K.stable hr hs
  refine ⟨K.asks (by simp) hr₀, fun up s₁ he => ?_⟩
  have hr₁ : I h s₁ := K.turn hr₀ (by simp) rfl he
  have hready₁ := (hready.meanwhile K hs).turn hE he
  simp only [Act.next_ok]
  split
  · rw [Act.wp_bind, Act.wp_await]
    intro s₂ hs₂
    have hr₂ := K.stable hr₁ hs₂
    refine ⟨K.asks (by simp) hr₂, fun ts s₃ he₃ => ?_⟩
    have hr₃ : I h s₃ := K.turn hr₂ (by simp) rfl he₃
    simp only [Act.next_ok, Act.wp_bind]
    refine Act.wp_mono ?_ (sealRecord_keeps hE K hr₃ ((hready₁.meanwhile K hs₂).turn hE he₃))
    rintro (x | _ | r) h' s' hp
    · exact ⟨hp, .other (by simp)⟩
    · exact ⟨hp, .other (by simp)⟩
    · obtain ⟨d, _, hacc, rfl, h₀, rfl⟩ := hp
      refine ⟨by simpa [account, hatt] using hacc, fun a ha => ⟨r, ?_, ha, rfl⟩⟩
      simp [Host.accept, Host.decide, Host.updateSession, recorded, Host.rememberWith, hatt]
  · exact ⟨hr₁, .other (by simp)⟩

theorem decideAttempt_keeps (hE : E.Fair c) (K : Kept W E c rely may I J) {h : Host} {s : σ} {e : Event} {sid : Str}
    (hr : I h s) (hadm : Admitted W E c h s e sid) (hatt : isAttempt e = true) :
    (decideAttempt W c e sid).wp ⟨E.env, rely, may⟩ (fun x h' s' => I h' s' ∧ Answers W e x h') h s := by
  simp only [decideAttempt, Act.wp_bind, Act.wp_get, Act.next_ok]
  cases hsealed : h.sealedAttempts (eventId e) with
  | some r => exact answerSealed_keeps K hr hadm.session hadm.isOpen hsealed
  | none =>
    dsimp only
    split
    · simp only [Act.wp_bind, Act.wp_modify, Act.next_ok, Act.wp_pure]
      exact ⟨K.note hr (((reject_neutral _ h).trans (decide_neutral c e sid _)).trans (flag_neutral _ _ _ _)),
        .other (by simp)⟩
    · next hout =>
      simp only [Act.wp_bind, Act.wp_state, Act.next_ok]
      have hn := checkReplay_neutral c e sid h
      cases hreplay : (checkReplay c e sid h).1 with
      | some reason =>
        exact ⟨K.note hr (hn.trans ((reject_neutral _ _).trans (decide_neutral c e sid _))), .other (by simp)⟩
      | none =>
        rw [checkReplay_none_eq hreplay]
        refine sealAttempt_keeps hE K hr
          { hadm with fresh := checkReplay_none hreplay, unconcluded := ?_, attempt := fun _ => hsealed, outcome := ?_ } hatt
        · intro ss hss
          simpa [hss] using hout
        · intro hf
          rw [hatt] at hf
          cases hf

theorem sealOutcome_keeps (hE : E.Fair c) (K : Kept W E c rely may I J) {h : Host} {s : σ} {e : Event} {sid d : Str}
    (hr : I h s) (hready : Ready W E c h s e sid) (hout : isAttempt e = false) (hd : digestOf W e = .ok d) :
    (sealOutcome W c e sid d).wp ⟨E.env, rely, may⟩ (fun _ => I) h s := by
  simp only [sealOutcome, persistenceAvailable, Act.wp_bind, Act.wp_await]
  intro s₀ hs
  have hr₀ := K.stable hr hs
  refine ⟨K.asks (by simp) hr₀, fun up s₁ he => ?_⟩
  have hr₁ : I h s₁ := K.turn hr₀ (by simp) rfl he
  have hready₁ := (hready.meanwhile K hs).turn hE he
  simp only [Act.next_ok]
  split
  · rw [Act.wp_bind, Act.wp_await]
    intro s₂ hs₂
    have hr₂ := K.stable hr₁ hs₂
    refine ⟨K.asks (by simp) hr₂, fun ts s₃ he₃ => ?_⟩
    have hr₃ : I h s₃ := K.turn hr₂ (by simp) rfl he₃
    simp only [Act.next_ok, Act.wp_bind]
    refine Act.wp_mono ?_ (sealRecord_keeps hE K hr₃ ((hready₁.meanwhile K hs₂).turn hE he₃))
    rintro (x | _ | r) h' s' hp
    · exact hp
    · exact hp
    · obtain ⟨d', hd', hacc, _⟩ := hp
      obtain rfl : d = d' := by simpa [hd] using hd'
      simpa [account, hout] using hacc
  · exact hr₁

theorem decideOutcome_keeps (hE : E.Fair c) (K : Kept W E c rely may I J) {h : Host} {s : σ} {e : Event} {sid : Str}
    (hr : I h s) (hadm : Admitted W E c h s e sid) (hout : isAttempt e = false) :
    (decideOutcome W c e sid).wp ⟨E.env, rely, may⟩ (fun _ => I) h s := by
  have hd : digestOf W e = .ok (hashOf W (.obj e)) := digestOf_eq_ok hadm.domain
  simp only [decideOutcome, hd, canonically, Act.wp_bind, Act.wp_lift, Act.wp_get, Act.next_ok]
  split
  · exact hr
  · next hnew =>
    rw [not_or] at hnew
    split
    · simp only [Act.wp_bind, Act.wp_modify, Act.next_ok, Act.wp_pure]
      exact K.note hr ((decide_neutral c e sid _).trans (flag_neutral _ _ _ _))
    · next hnone =>
      simp only [correlateOutcome, Act.wp_bind, Act.wp_state, Act.next_ok]
      cases hreplay : (checkReplay c e sid h).1 with
      | some reason => exact K.note hr (checkReplay_neutral c e sid h)
      | none =>
        rw [checkReplay_none_eq hreplay]
        simp only [Act.wp_bind, Act.wp_get, Act.next_ok]
        split
        · simp only [Act.wp_bind, Act.wp_modify, Act.next_ok, Act.wp_pure]
          exact K.note hr ((decide_neutral c e sid _).trans (flag_neutral _ _ _ _))
        · next hcorr =>
          refine sealOutcome_keeps hE K hr
            { hadm with fresh := checkReplay_none hreplay, unconcluded := ?_, attempt := ?_, outcome := ?_ } hout hd
          · intro ss hss
            simpa [hss] using hnone
          · intro ht
            rw [hout] at ht
            cases ht
          · intro _ d hd'
            obtain rfl : hashOf W (.obj e) = d := by simpa [hd] using hd'
            refine ⟨hnew.2, ?_⟩
            rw [not_and_or] at hcorr
            rcases hcorr with hcorr | hcorr
            · refine .inr fun ss hss => ?_
              simpa [hss] using hcorr
            · exact .inl (by simpa using hcorr)

/-! ### Settling -/

theorem adopt_wp {h : Host} {s : σ} {r : SealedRecord} {d : Str} (hd : digestOf W r.event = .ok d)
    {S : Setting Query Reply σ} {P : Except Raise Unit → Host → σ → Prop} (hP : P (.ok ()) (adopted c r d h) s) :
    (adopt W c r).wp S P h s := by
  simp only [adopt, Act.wp_bind, Act.wp_get, Act.next_ok]
  unfold adopted at hP
  cases hsid : sessionId r.event with
  | none => simpa [hsid] using hP
  | some sid =>
    simp only [hsid] at hP
    dsimp only
    split
    · next hopen =>
      simp only [hopen, ↓reduceIte, account] at hP
      simp only [Act.wp_bind, Act.wp_modify, Act.next_ok]
      split
      · next hatt => simpa [hatt] using hP
      · next hatt =>
        simp only [hd, canonically, Act.wp_bind, Act.wp_lift, Act.next_ok, Act.wp_modify]
        simpa [hatt] using hP
    · next hopen => simpa [hopen] using hP

theorem settleWith_keeps (K : Kept W E c rely may I J) {h : Host} {s : σ} (hr : J h s) (hrepo : c.hasRepository = true)
    (hunc : h.tailUncertain = true) : (settleWith W c (E.store s).getLast?).wp ⟨E.env, rely, may⟩
      (fun x h' s' => match x with
        | .ok _ => I (settled h') s'
        | .error _ => I h' s') h s := by
  simp only [settleWith, Act.wp_bind, Act.wp_get, Act.next_ok]
  cases hlast : (E.store s).getLast? with
  | none => exact K.settle hr (.clear (by simp [hlast])) ⟨hrepo, hunc, .inl rfl⟩
  | some r =>
    dsimp only
    split
    · next hnext =>
      have hlanded : Landed E c h s r := ⟨hrepo, hunc, hlast, hnext⟩
      simp only [remember, Act.wp_bind, Act.wp_modify, Act.next_ok]
      cases hd : digestOf W r.event with
      | error m => exact K.settle hr (.adoptRaised hlanded hd) ⟨hrepo, hunc, .inr (commit_ledger_ne)⟩
      | ok d =>
        simp only [canonically, Act.wp_lift, Act.next_ok, Act.wp_modify]
        exact adopt_wp hd (K.settle hr (.adopt hlanded hd) ⟨hrepo, hunc, .inl rfl⟩)
    · next hnext =>
      split
      · next hlt => exact K.settle hr (.jump hrepo hunc hlast hlt) ⟨hrepo, hunc, .inl rfl⟩
      · next hlt =>
        refine K.settle hr (.clear fun r' hr' => ?_) ⟨hrepo, hunc, .inl rfl⟩
        obtain rfl : r = r' := by simpa [hlast] using hr'
        exact ⟨hnext, hlt⟩

theorem settleTail_keeps (hE : E.Fair c) (K : Kept W E c rely may I J) {h : Host} {s : σ} (hr : I h s) :
    (settleTail W c).wp ⟨E.env, rely, may⟩ (fun x h' s' => I h' s' ∧ (x = .ok true → Settled c h')) h s := by
  simp only [settleTail, Act.wp_bind, Act.wp_get, Act.next_ok]
  split
  · next hunc =>
    rw [Act.wp_bind, Act.wp_await]
    intro s₁ hs
    have hr₁ := K.stable hr hs
    refine ⟨K.asks (by simp) hr₁, fun x s' he => ?_⟩
    obtain ⟨hstore, hx⟩ := hE.conditional he
    rcases hx with rfl | ⟨err, rfl⟩
    · simp only [Act.next_ok, Act.wp_bind]
      rw [← hstore]
      refine Act.wp_mono ?_ (settleWith_keeps K (K.read hr₁ he) hunc.2 hunc.1)
      rintro (x | x) h' s'' hp
      · exact ⟨hp, by rintro ⟨⟩⟩
      · exact ⟨hp, fun _ _ => rfl⟩
    · have hr' : I h s' := K.turn hr₁ (by simp) rfl he
      cases err <;> exact ⟨hr', by rintro ⟨⟩⟩
  · next hunc =>
    refine ⟨hr, fun _ hrepo => ?_⟩
    simpa [hrepo] using hunc

/-! ### Whole operations -/

/-- Past `_admit`, a signature that verifies leaves the event admitted. -/
theorem verified_keeps (hE : E.Fair c) (K : Kept W E c rely may I J) {h h' : Host} {s : σ} {e : Event}
    {expected : Option Str} {attempt : Bool} {sid : Str} (hr : I h s) (hset : Settled c h)
    (ha : admitEvent W e expected attempt h = (.ok sid, h')) : (verifySignature c e sid).wp ⟨E.env, rely, may⟩
      (fun x h' s' => I h' s' ∧ (x = .ok none → Admitted W E c h' s' e sid ∧ isAttempt e = attempt)) h' s := by
  obtain ⟨hn, hadm⟩ := admit_spec ha
  obtain ⟨hvalid, hkind, hdom, hsid, hopen⟩ := hadm sid rfl
  refine Act.wp_mono ?_ (verifySignature_keeps hE K e sid (K.note hr hn))
  rintro x h'' s' ⟨hr', hn', hv⟩
  refine ⟨hr', fun hx => ⟨⟨?_, hvalid, hdom, hsid, ?_, hv hx⟩, hkind⟩⟩
  · intro hrepo
    rw [hn'.tailUncertain, hn.tailUncertain, hset hrepo]
  · rw [hn'.isSome, hopen]

theorem handleAttempt_keeps (hE : E.Fair c) (K : Kept W E c rely may I J) (e : Event) (expected : Option Str)
    (deadline : Option Rat) {h : Host} {s : σ} (hr : I h s) :
    (handleAttempt W c e expected deadline).wp ⟨E.env, rely, may⟩ (fun x h' s' => I h' s' ∧ Answers W e x h') h s := by
  have hlocked : ∀ {h s}, I h s → Act.wp ⟨E.env, rely, may⟩ (do
      if ← settleTail W c then handleAttemptLocked W c e expected else pure .unavailable)
      (fun x h' s' => I h' s' ∧ Answers W e x h') h s := by
    intro h s hr
    rw [Act.wp_bind]
    refine Act.wp_mono ?_ (settleTail_keeps hE K hr)
    rintro (x | _ | _) h s ⟨hr, hset⟩
    · exact ⟨hr, .other (by simp)⟩
    · exact ⟨hr, .other (by simp)⟩
    · simp only [Act.next_ok, ↓reduceIte, handleAttemptLocked, Act.wp_bind, Act.wp_state]
      rcases ha : admitEvent W e expected true h with ⟨_ | sid, h'⟩
      · exact ⟨K.note hr ((admit_spec ha).1), .other (by simp)⟩
      · simp only [Act.wp_bind]
        refine Act.wp_mono ?_ (verified_keeps hE K hr (hset rfl) ha)
        rintro (x | _ | reason) h'' s' ⟨hr', hadm⟩
        · exact ⟨hr', .other (by simp)⟩
        · exact decideAttempt_keeps hE K hr' (hadm rfl).1 (hadm rfl).2
        · exact ⟨K.note hr' (reject_neutral _ _), .other (by simp)⟩
  unfold handleAttempt
  cases deadline with
  | none =>
    rw [Act.wp_bind, Act.wp_pure, Act.next_ok]
    exact hlocked hr
  | some d =>
    simp only [currentTime, Act.wp_bind, Act.wp_await]
    intro s₁ hs
    have hr₁ := K.stable hr hs
    refine ⟨K.asks (by simp) hr₁, fun now s' he => ?_⟩
    have hr' : I h s' := K.turn hr₁ (by simp) rfl he
    rw [Act.next_ok, Act.wp_bind, Act.wp_pure, Act.next_ok]
    split
    · exact ⟨hr', .other (by simp)⟩
    · exact hlocked hr'

theorem keeping_recordOutcome (hE : E.Fair c) (K : Kept W E c rely may I J) (e : Event) (expected : Option Str) :
    Keeping E rely may I (recordOutcome W c e expected) := by
  intro h s hr
  rw [recordOutcome, Act.wp_bind]
  refine Act.wp_mono ?_ (settleTail_keeps hE K hr)
  rintro (x | _ | _) h s ⟨hr, hset⟩
  · exact hr
  · exact hr
  · simp only [Act.next_ok, ↓reduceIte, handleOutcomeLocked, Act.wp_bind, Act.wp_state]
    rcases ha : admitEvent W e expected false h with ⟨_ | sid, h'⟩
    · exact K.note hr ((admit_spec ha).1)
    · simp only [Act.wp_bind]
      refine Act.wp_mono ?_ (verified_keeps hE K hr (hset rfl) ha)
      rintro (x | _ | reason) h'' s' ⟨hr', hadm⟩
      · exact hr'
      · exact decideOutcome_keeps hE K hr' (hadm rfl).1 (hadm rfl).2
      · exact hr'

/-- **An operation keeps what each of its moves keeps**, whatever other writers do between its asks. -/
theorem keeping_run (hE : E.Fair c) (K : Kept W E c rely may I J) (o : HostOp) : Keeping E rely may I (o.run W c) := by
  cases o with
  | attempt e expected deadline =>
    have hattempt : Keeping E rely may I (handleAttempt W c e expected deadline) := fun h s hr =>
      Act.wp_mono (fun _ _ _ hp => hp.1) (handleAttempt_keeps hE K e expected deadline hr)
    exact .bind hattempt fun _ => .pure ()
  | outcome e expected => exact .bind (keeping_recordOutcome hE K e expected) fun _ => .pure ()
  | openSession sid =>
    intro h s hr
    simp only [HostOp.run, openSession, Act.wp_bind, Act.wp_get, Act.next_ok]
    split
    · exact hr
    · next hnew => exact K.here hr (.opened hnew) (not_settling rfl id)
  | closeSession sid =>
    intro h s hr
    simp only [HostOp.run, closeSession, Act.wp_bind, Act.wp_get, Act.next_ok]
    cases hs : h.sessions sid with
    | none => exact hr
    | some ss =>
      have hn := flagAll_neutral (fun id => lit "call ended with attempt " ++ id ++ lit " unresolved") ss.unresolved
        { h with sessions := Function.update h.sessions sid none }
      exact K.here hr (.closed hs) (not_settling hn.ledger hn.tailUncertain.trans)

/-! ### A host alone -/

/-- The states moves lead to, no other writer between. -/
theorem kept_reached (start : Host × σ) : Kept W E c Eq (fun _ _ => True)
    (fun h s => Relation.ReflTransGen (Move W E c) start (h, s))
    (fun h s => Relation.ReflTransGen (Move W E c) start (h, s)) where
  stable hr hs := hs ▸ hr
  turn hr hq _ he := hr.tail (.turn _ _ hq he)
  read hr he := hr.tail (.turn _ _ (by simp) he)
  move hr hm _ _ := hr.tail hm
  settle hr hm _ := hr.tail hm
  asks _ _ := trivial
  appends _ _ _ _ := trivial
  vouched hs hv := hs ▸ hv
  signed hs hg := hs ▸ hg

/-- **Operations are moves.** Every run of an operation is a sequence of moves. -/
theorem run_moves (hE : E.Fair c) {o : HostOp} {h h' : Host} {s s' : σ} {x : Except Raise Unit}
    (hr : Runs E.env (o.run W c h) s (x, h') s') : Relation.ReflTransGen (Move W E c) (h, s) (h', s') :=
  Act.wp_runs (keeping_run hE (kept_reached (h, s)) o h s .refl) hr

end AuditableMcp
