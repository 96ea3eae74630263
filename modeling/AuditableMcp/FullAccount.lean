import AuditableMcp.Numbering
import AuditableMcp.FreshEvents
import AuditableMcp.Accounting
/-!
# Every number accounted for

An honest Level-2 tool and its host: any number of audited actions, in any number of sessions, whose
attempts and outcomes an `AuditHost` handles as they are sent (`exchange`). The host answers as its checks,
its verifier and its store have it, and it opens and closes sessions meanwhile. Nothing is cancelled, and
every signer stamps.

Of what was sent, the events of one session carry the numbers from 0 on, in order, and an outcome whose
attempt the host did not accept says so (`Exchange.Ok`). So the number of an attempt that was not sealed is
followed by the number of its own refusal, a refusal to each: what `unaccounted_signer_seq` pairs greedily it
can pair.
-/
namespace AuditableMcp

open JsonValue Effect Spans

variable {W : World} {c : Config} {ι : Type}

/-- The numberings, what was sent, by task, and the host with its store. -/
structure Exchange (ι : Type) where
  next : Nat → Nat
  held : Nat → Option ι
  sent : List (ι × Event)
  host : Host
  store : List SealedRecord

/-- The sessions of a tool: the objects that serve one audit session share its numbering and its signer. -/
structure OneTool (sessions : List AmcpSession) : Prop where
  signs : ∀ a ∈ sessions, a.signer.isSome = true
  shared : ∀ a ∈ sessions, ∀ b ∈ sessions, a.sessionId = b.sessionId ↔ a.numbering = b.numbering
  signer : ∀ a ∈ sessions, ∀ b ∈ sessions, a.sessionId = b.sessionId → a.signer = b.signer

/-- The host opens a session, or closes one. -/
def Tends (h h' : Host) : Prop :=
  ∃ sid x, openSession sid h = .ret (x, h') ∨ closeSession sid h = .ret (x, h')

namespace Exchange

def start : Exchange ι := ⟨fun _ => 0, fun _ => none, [], .new, []⟩

/-- Everything sent. -/
def handed (s : Exchange ι) : List Event := s.sent.map Prod.snd

/-- What was sent in a session. -/
def under (s : Exchange ι) (sid : Str) : List (ι × Event) := s.sent.filter fun p => sessionId p.2 = some sid

/-- An event's record is in the chain. -/
def Stored (c : Config) (s : Exchange ι) (e : Event) : Prop := AuditableMcp.Stored c e s.host s.store

def tookBy (s : Exchange ι) (i : ι) (r : Nat) : Exchange ι := { s with held := Function.update s.held r (some i) }

def left (s : Exchange ι) (r : Nat) (next : Option Nat) : Exchange ι :=
  { s with next := Function.update s.next r (next.getD (s.next r)), held := Function.update s.held r none }

/-- The host has handled an event. -/
def handled (s : Exchange ι) (i : ι) (e : Event) (h : Host) (t : List SealedRecord) : Exchange ι :=
  { s with sent := s.sent ++ [(i, e)], host := h, store := t }

/-- No event with its id was sent. -/
def FreshId (s : Exchange ι) (e : Event) : Prop := ∀ p ∈ s.sent, eventId p.2 ≠ eventId e

end Exchange

/-- The host is handed an event of an open session, within the call of that session or outside any. -/
def Opened (s : Exchange ι) (e : Event) (expected : Option Str) : Prop :=
  ∃ sid, sessionId e = some sid ∧ (s.host.sessions sid).isSome = true ∧ ∀ k ∈ expected, k = sid

/-- What task `i` is answered. The id of an attempt is a fresh one (`session.py:104-106`). -/
def handledBy (W : World) (c : Config) (i : ι) (s : Exchange ι) : (q : ToolQuery) → ToolReply W q → Exchange ι → Prop
  | .take r, x, s' => x = .ok (s.next r) ∧ s.held r = none ∧ s' = s.tookBy i r
  | .leave r next, _, s' => s' = s.left r next
  | .sign key e n, x, s' => s' = s ∧ ∃ g, x = .ok (stamp e key n g)
  | .sendAttempt e, x, s' => s.FreshId e ∧ ∃ expected deadline a h t,
      Opened s e expected ∧ Runs honestEnv (handleAttempt W c e expected deadline s.host) s.store (.ok a, h) t ∧
      x = .ok a ∧ s' = s.handled i e h t
  | .sendOutcome e, x, s' => ∃ expected d h t, Opened s e expected ∧
      Runs honestEnv (recordOutcome W c e expected s.host) s.store (.ok d, h) t ∧ x = .ok () ∧ s' = s.handled i e h t
  | .now, _, s' => s' = s
  | .verify _ _ _, _, s' => s' = s
  | .body, _, s' => s' = s

/-- The host tends to its sessions, and answers. -/
def exchange (W : World) (c : Config) (i : ι) (s : Exchange ι) (q : ToolQuery) (x : ToolReply W q) (s' : Exchange ι) : Prop :=
  ∃ h, Relation.ReflTransGen Tends s.host h ∧ handledBy W c i { s with host := h } q x s'

/-! ## The invariant -/

section Invariant

variable [DecidableEq ι]

/-- What a task sent. -/
def Exchange.mine (s : Exchange ι) (i : ι) : List Event := (s.sent.filter (·.1 = i)).map Prod.snd

/-- A task has sent nothing, its attempt, or its attempt and then the outcome of it: the attempt is stored, or
the outcome says that the host did not accept it. -/
inductive Told (stored : Event → Prop) : List Event → Prop
  | nothing : Told stored []
  | attempt {a : Event} : isAttempt a = true → Told stored [a]
  | both {a o : Event} : isAttempt a = true → isAttempt o = false → eventId o = eventId a → sessionId o = sessionId a →
      (∃ n m : Nat, get a SIGNER_SEQ = some (.int n) ∧ get o SIGNER_SEQ = some (.int m) ∧ n < m) →
      isHostRefusal o = true ∨ stored a → Told stored [a, o]

/-- An event of a session, under its signer's key. -/
structure OfSession (a : AmcpSession) (e : Event) : Prop where
  session : get e SESSION_ID = some (.str a.sessionId)
  key : ∃ k, a.signer = some k ∧ get e KEY_ID = some (.str k)

structure Exchange.Ok (W : World) (c : Config) (sessions : List AmcpSession) (s : Exchange ι) : Prop where
  known : Known W c [] s.handed [] s.host s.store
  numbered : ∀ a ∈ sessions, (s.under a.sessionId).map (fun p => get p.2 SIGNER_SEQ) =
    (List.range (s.under a.sessionId).length).map fun n : Nat => some (.int n)
  free : ∀ a ∈ sessions, s.held a.numbering = none → (s.under a.sessionId).length = s.next a.numbering
  shaped : ∀ p ∈ s.sent, ∃ a ∈ sessions, OfSession a p.2
  told : ∀ i, Told (s.Stored c) (s.mine i)
  ids : ∀ p ∈ s.sent, ∀ q ∈ s.sent, eventId p.2 = eventId q.2 → p.1 = q.1

/-- Nothing a task sent is lost to it. -/
def calm (c : Config) (i : ι) (s s' : Exchange ι) : Prop := s'.mine i = s.mine i ∧ ∀ e, s.Stored c e → s'.Stored c e

/-- Nor does the section it holds move. -/
def relied (c : Config) (sessions : List AmcpSession) (i : ι) (s s' : Exchange ι) : Prop :=
  calm c i s s' ∧ ∀ a ∈ sessions, s.held a.numbering = some i → s'.held a.numbering = some i ∧
    s'.next a.numbering = s.next a.numbering ∧ s'.under a.sessionId = s.under a.sessionId

/-- Task `i` may send `e`: it holds the section of its session `a`, and gave `e` the number, unused so far. -/
structure Sends (i : ι) (s : Exchange ι) (a : AmcpSession) (e : Event) : Prop where
  ofSession : OfSession a e
  held : s.held a.numbering = some i
  unused : (s.under a.sessionId).length = s.next a.numbering
  number : get e SIGNER_SEQ = some (.int (s.next a.numbering))

def maySend (c : Config) (sessions : List AmcpSession) (i : ι) (s : Exchange ι) : ToolQuery → Prop
  | .leave r next => ∃ a ∈ sessions, a.numbering = r ∧ s.held r = some i ∧
      (s.under a.sessionId).length = next.getD (s.next r)
  | .sendAttempt e => (∃ a ∈ sessions, Sends i s a e) ∧ s.mine i = [] ∧ isAttempt e = true
  | .sendOutcome e => (∃ a ∈ sessions, Sends i s a e) ∧ isAttempt e = false ∧ ∃ x, s.mine i = [x] ∧ eventId e = eventId x ∧
      sessionId e = sessionId x ∧ (isHostRefusal e = true ∨ s.Stored c x)
  | .now => True
  | .take _ => True
  | .sign _ _ _ => True
  | .verify _ _ _ => True
  | .body => True

variable {sessions : List AmcpSession} {i : ι} {s s' : Exchange ι} {e : Event}

omit [DecidableEq ι] in
theorem OfSession.sessionId {a : AmcpSession} (h : OfSession a e) : AuditableMcp.sessionId e = some a.sessionId := by
  simp [AuditableMcp.sessionId, h.session]

theorem Told.mono {P P' : Event → Prop} (hP : ∀ e, P e → P' e) {l : List Event} (h : Told P l) : Told P' l := by
  cases h with
  | nothing => exact .nothing
  | attempt ha => exact .attempt ha
  | both ha ho hid hsid hn hor => exact .both ha ho hid hsid hn (hor.imp_right (hP _))

omit [DecidableEq ι] in
theorem tends_known {es old : List Event} {h h' : Host} {t : List SealedRecord} (hk : Known W c [] es old h t)
    (ht : Relation.ReflTransGen Tends h h') : Known W c [] es old h' t := by
  induction ht with
  | refl => exact hk
  | tail _ hs ih =>
    obtain ⟨sid, x, hx | hx⟩ := hs
    · exact openSession_known ih hx
    · exact closeSession_known ih hx

namespace Exchange

theorem mem_mine : e ∈ s.mine i ↔ (i, e) ∈ s.sent := by
  simp only [mine, List.mem_map, List.mem_filter, decide_eq_true_eq, Prod.exists, exists_eq_right]

omit [DecidableEq ι] in
theorem mem_under {sid : Str} {p : ι × Event} : p ∈ s.under sid ↔ p ∈ s.sent ∧ sessionId p.2 = some sid := by
  simp [under]

theorem mine_handled (j : ι) (h : Host) (t : List SealedRecord) :
    (s.handled i e h t).mine j = s.mine j ++ if i = j then [e] else [] := by
  simp only [mine, handled, List.filter_append, List.map_append]
  by_cases hij : i = j
  · simp [hij]
  · simp [hij]

omit [DecidableEq ι] in
theorem under_handled (sid : Str) (h : Host) (t : List SealedRecord) :
    (s.handled i e h t).under sid = s.under sid ++ if sessionId e = some sid then [(i, e)] else [] := by
  simp only [under, handled, List.filter_append]
  by_cases hsid : sessionId e = some sid
  · simp [hsid]
  · simp [hsid]

omit [DecidableEq ι] in
theorem handed_handled (h : Host) (t : List SealedRecord) : (s.handled i e h t).handed = s.handed ++ [e] := by
  simp [handed, handled]

/-- A number of a session is below the count of its events. -/
theorem Ok.number (hok : s.Ok W c sessions) {a : AmcpSession} (ha : a ∈ sessions) {p : ι × Event}
    (hp : p ∈ s.under a.sessionId) : ∃ n < (s.under a.sessionId).length, get p.2 SIGNER_SEQ = some (.int (n : Int)) := by
  have hm : get p.2 SIGNER_SEQ ∈ (s.under a.sessionId).map fun p => get p.2 SIGNER_SEQ := List.mem_map_of_mem hp
  rw [hok.numbered a ha, List.mem_map] at hm
  obtain ⟨n, hn, heq⟩ := hm
  exact ⟨n, List.mem_range.1 hn, heq.symm⟩

/-- An event with the next number of its session shares it with none. -/
theorem Ok.unshared (hok : s.Ok W c sessions) {a : AmcpSession} (ha : a ∈ sessions) (hs : Sends i s a e) :
    ∀ e' ∈ s.handed, sessionId e' = some a.sessionId → ∀ m, signerSeq e = some m → signerSeq e' ≠ some m := by
  intro e' he' hsid m hm hm'
  obtain ⟨p, hp, rfl⟩ := List.mem_map.1 he'
  obtain ⟨n, hn, hget⟩ := hok.number ha (mem_under.2 ⟨hp, hsid⟩)
  simp only [signerSeq, hs.number, Option.some.injEq] at hm
  simp only [signerSeq, hget, Option.some.injEq] at hm'
  have hlen := hs.unused
  omega

/-- The host tending to its sessions keeps it. -/
theorem Ok.tended (hok : s.Ok W c sessions) {h : Host} (ht : Relation.ReflTransGen Tends s.host h) :
    Ok W c sessions { s with host := h } ∧ ∀ e, s.Stored c e → AuditableMcp.Stored c e h s.store := by
  have hkeep : ∀ e, s.Stored c e → AuditableMcp.Stored c e h s.store := by
    intro e he
    refine (tends_known (hok.known.since ?_) ht).lasting e (List.mem_singleton_self e)
    intro e' he'
    obtain rfl := List.mem_singleton.1 he'
    exact he
  exact ⟨{ hok with known := tends_known hok.known ht, told := fun i => (hok.told i).mono hkeep }, hkeep⟩

/-- An event is handled: it is the next of its session, and of its task. -/
theorem Ok.handled (hok : s.Ok W c sessions) (hss : OneTool sessions) {a : AmcpSession} (ha : a ∈ sessions) (hs : Sends i s a e)
    {h : Host} {t : List SealedRecord} (hk : Known W c [] (s.handed ++ [e]) [] h t)
    (hkeep : ∀ e, s.Stored c e → AuditableMcp.Stored c e h t) (hids : ∀ p ∈ s.sent, eventId p.2 = eventId e → p.1 = i)
    (htold : Told (fun e => AuditableMcp.Stored c e h t) (s.mine i ++ [e])) :
    (s.handled i e h t).Ok W c sessions ∧ ∀ j, j ≠ i → relied c sessions j s (s.handled i e h t) := by
  have hother : ∀ b ∈ sessions, a.numbering ≠ b.numbering → (s.handled i e h t).under b.sessionId = s.under b.sessionId := by
    intro b hb hne
    rw [under_handled, hs.ofSession.sessionId, if_neg, List.append_nil]
    exact fun heq => hne ((hss.shared a ha b hb).1 (Option.some.inj heq))
  refine ⟨⟨?_, ?_, ?_, ?_, ?_, ?_⟩, ?_⟩
  · rw [handed_handled]
    exact hk
  · intro b hb
    by_cases hab : a.numbering = b.numbering
    · have hsid := (hss.shared a ha b hb).2 hab
      rw [under_handled, ← hsid, hs.ofSession.sessionId, if_pos rfl, List.length_append, List.length_singleton,
        List.range_succ, List.map_append, List.map_append, hok.numbered a ha, hs.unused]
      simp only [List.map_cons, List.map_nil, hs.number]
    · rw [hother b hb hab]
      exact hok.numbered b hb
  · intro b hb hfree
    by_cases hab : a.numbering = b.numbering
    · have hheld : s.held b.numbering = none := hfree
      rw [← hab, hs.held] at hheld
      cases hheld
    · rw [hother b hb hab]
      exact hok.free b hb hfree
  · intro p hp
    rcases List.mem_append.1 hp with hp | hp
    · exact hok.shaped p hp
    · obtain rfl := List.mem_singleton.1 hp
      exact ⟨a, ha, hs.ofSession⟩
  · intro j
    rw [mine_handled]
    by_cases hij : i = j
    · subst hij
      rw [if_pos rfl]
      exact htold
    · rw [if_neg hij, List.append_nil]
      exact (hok.told j).mono hkeep
  · intro p hp q hq hid
    rcases List.mem_append.1 hp with hp | hp <;> rcases List.mem_append.1 hq with hq | hq
    · exact hok.ids p hp q hq hid
    · obtain rfl := List.mem_singleton.1 hq
      exact hids p hp hid
    · obtain rfl := List.mem_singleton.1 hp
      exact (hids q hq hid.symm).symm
    · obtain rfl := List.mem_singleton.1 hp
      obtain rfl := List.mem_singleton.1 hq
      rfl
  · intro j hj
    refine ⟨⟨?_, hkeep⟩, fun b hb hheld => ⟨hheld, rfl, hother b hb ?_⟩⟩
    · rw [mine_handled, if_neg (Ne.symm hj), List.append_nil]
    · intro hab
      rw [← hab, hs.held] at hheld
      exact hj (Option.some.inj hheld).symm

/-- What was sent is new to the host. -/
theorem Ok.isNew (hok : s.Ok W c sessions) {a : AmcpSession} (ha : a ∈ sessions) (hs : Sends i s a e)
    (hatt : isAttempt e = true → s.FreshId e)
    (hout : isAttempt e = false → ∃ x, s.mine i = [x] ∧ isAttempt x = true ∧ eventId e = eventId x) :
    New s.handed e a.sessionId where
  session := hs.ofSession.sessionId
  attempt h e' he' := by
    obtain ⟨p, hp, rfl⟩ := List.mem_map.1 he'
    exact hatt h p hp
  outcome h e' he' hout' hid := by
    obtain ⟨x, hmine, hx, hex⟩ := hout h
    obtain ⟨⟨j, e'⟩, hp, rfl⟩ := List.mem_map.1 he'
    have hxi : (i, x) ∈ s.sent := mem_mine.1 (by rw [hmine]; exact List.mem_singleton_self x)
    obtain rfl : j = i := hok.ids _ hp _ hxi (hid.trans hex)
    have hmem : e' ∈ s.mine j := mem_mine.2 hp
    rw [hmine] at hmem
    obtain rfl := List.mem_singleton.1 hmem
    rw [hx] at hout'
    cases hout'
  number := hok.unshared ha hs

theorem Ok.attempted (hok : s.Ok W c sessions) (hss : OneTool sessions) {a : AmcpSession} (ha : a ∈ sessions)
    (hs : Sends i s a e) (hmine : s.mine i = []) (hatt : isAttempt e = true) (hid : s.FreshId e) {expected : Option Str}
    {deadline : Option Rat} {x : AttemptResponse W} {h : Host} {t : List SealedRecord} (hopen : Opened s e expected)
    (hr : Runs honestEnv (handleAttempt W c e expected deadline s.host) s.store (.ok x, h) t) :
    ((s.handled i e h t).Ok W c sessions ∧ ∀ j, j ≠ i → relied c sessions j s (s.handled i e h t)) ∧
      ∀ r, x = .accept r → AuditableMcp.Stored c e h t := by
  obtain ⟨sid, hsid, hsess, hexp⟩ := hopen
  have hnew := hok.isNew ha hs (fun _ => hid) (fun h => absurd (h.symm.trans hatt) (by decide))
  obtain rfl : a.sessionId = sid := Option.some.inj (hs.ofSession.sessionId.symm.trans hsid)
  have hrun : ∀ old, (∀ e ∈ old, s.Stored c e) → Known W c [a.sessionId] (s.handed ++ [e]) old h t ∧
      ∀ r, x = .accept r → AuditableMcp.Stored c e h t := by
    intro old hold
    have hk : Known W c [a.sessionId] s.handed old s.host s.store := (hok.known.since hold).within fun k hk => by
      obtain rfl := List.mem_singleton.1 hk
      exact hsess
    obtain ⟨hk', hacc⟩ := Act.wp_runs (handleAttempt_known deadline hk hnew (List.mem_singleton_self _) hexp) hr
    exact ⟨hk', fun r hr => hacc r (by rw [hr])⟩
  have hkeep : ∀ e, s.Stored c e → AuditableMcp.Stored c e h t := fun e he =>
    (hrun [e] (by rintro _ hm; obtain rfl := List.mem_singleton.1 hm; exact he)).1.lasting e (List.mem_singleton_self e)
  obtain ⟨hk, hacc⟩ := hrun [] (fun _ hm => absurd hm List.not_mem_nil)
  refine ⟨hok.handled hss ha hs (hk.within fun _ hm => absurd hm List.not_mem_nil) hkeep
    (fun p hp heq => absurd heq (hid p hp)) ?_, hacc⟩
  rw [hmine]
  exact .attempt hatt

theorem Ok.concluded (hok : s.Ok W c sessions) (hss : OneTool sessions) {a : AmcpSession} (ha : a ∈ sessions)
    (hs : Sends i s a e) (hout : isAttempt e = false) {x : Event} (hmine : s.mine i = [x]) (hid : eventId e = eventId x)
    (hsx : sessionId e = sessionId x) (hor : isHostRefusal e = true ∨ s.Stored c x) {expected : Option Str}
    {y : Except Raise OutcomeDisposition} {h : Host} {t : List SealedRecord} (hopen : Opened s e expected)
    (hr : Runs honestEnv (recordOutcome W c e expected s.host) s.store (y, h) t) :
    (s.handled i e h t).Ok W c sessions ∧ ∀ j, j ≠ i → relied c sessions j s (s.handled i e h t) := by
  obtain ⟨sid, hsid, hsess, hexp⟩ := hopen
  have hx : isAttempt x = true := by
    have htold := hok.told i
    rw [hmine] at htold
    cases htold
    assumption
  have hxi : (i, x) ∈ s.sent := mem_mine.1 (by rw [hmine]; exact List.mem_singleton_self x)
  have hnew := hok.isNew ha hs (fun h => absurd (h.symm.trans hout) (by decide)) (fun _ => ⟨x, hmine, hx, hid⟩)
  obtain rfl : a.sessionId = sid := Option.some.inj (hs.ofSession.sessionId.symm.trans hsid)
  have hrun : ∀ old, (∀ e ∈ old, s.Stored c e) → Known W c [a.sessionId] (s.handed ++ [e]) old h t := by
    intro old hold
    have hk : Known W c [a.sessionId] s.handed old s.host s.store := (hok.known.since hold).within fun k hk => by
      obtain rfl := List.mem_singleton.1 hk
      exact hsess
    exact Act.wp_runs (recordOutcome_known hk hnew (List.mem_singleton_self _) hexp) hr
  have hkeep : ∀ e, s.Stored c e → AuditableMcp.Stored c e h t := fun e he =>
    (hrun [e] (by rintro _ hm; obtain rfl := List.mem_singleton.1 hm; exact he)).lasting e (List.mem_singleton_self e)
  refine hok.handled hss ha hs ((hrun [] fun _ hm => absurd hm List.not_mem_nil).within fun _ hm => absurd hm List.not_mem_nil)
    hkeep (fun p hp heq => hok.ids p hp _ hxi (heq.trans hid)) ?_
  rw [hmine]
  refine .both hx hout hid hsx ?_ (hor.imp_right (hkeep x))
  obtain ⟨n, hn, hget⟩ := hok.number ha (mem_under.2 ⟨hxi, hsx ▸ hsid⟩)
  exact ⟨n, _, hget, hs.number, by rw [← hs.unused]; exact hn⟩

end Exchange

theorem calm.trans {s₁ s₂ s₃ : Exchange ι} (h : calm c i s₁ s₂) (h' : calm c i s₂ s₃) : calm c i s₁ s₃ :=
  ⟨h'.1.trans h.1, fun e he => h'.2 e (h.2 e he)⟩

theorem relied.trans {s₁ s₂ s₃ : Exchange ι} (h : relied c sessions i s₁ s₂) (h' : relied c sessions i s₂ s₃) :
    relied c sessions i s₁ s₃ := by
  refine ⟨h.1.trans h'.1, fun a ha hheld => ?_⟩
  obtain ⟨hheld, hnext, hunder⟩ := h.2 a ha hheld
  obtain ⟨hheld', hnext', hunder'⟩ := h'.2 a ha hheld
  exact ⟨hheld', hnext'.trans hnext, hunder'.trans hunder⟩

theorem relied.refl (s : Exchange ι) : relied c sessions i s s :=
  ⟨⟨rfl, fun _ => id⟩, fun _ _ h => ⟨h, rfl, rfl⟩⟩

/-- The host's tending leaves a task what it relies on. -/
theorem Exchange.Ok.tended_relied (hok : s.Ok W c sessions) {h : Host} (ht : Relation.ReflTransGen Tends s.host h) :
    relied c sessions i s { s with host := h } :=
  ⟨⟨rfl, (hok.tended ht).2⟩, fun _ _ h => ⟨h, rfl, rfl⟩⟩

theorem Exchange.Ok.took (hok : s.Ok W c sessions) {r : Nat} (hfree : s.held r = none) :
    (s.tookBy i r).Ok W c sessions ∧ ∀ j, relied c sessions j s (s.tookBy i r) := by
  refine ⟨{ hok with free := fun b hb hnone => ?_ }, fun j => ⟨⟨rfl, fun _ => id⟩, fun b hb hheld => ⟨?_, rfl, rfl⟩⟩⟩
  · simp only [tookBy, Function.update_apply] at hnone
    split at hnone
    · cases hnone
    · exact hok.free b hb hnone
  · have hne : b.numbering ≠ r := by
      rintro rfl
      rw [hfree] at hheld
      cases hheld
    simp only [tookBy, Function.update_apply, if_neg hne]
    exact hheld

theorem Exchange.Ok.gave (hok : s.Ok W c sessions) (hss : OneTool sessions) {a : AmcpSession} (ha : a ∈ sessions)
    {next : Option Nat} (hheld : s.held a.numbering = some i)
    (hlen : (s.under a.sessionId).length = next.getD (s.next a.numbering)) :
    (s.left a.numbering next).Ok W c sessions ∧ ∀ j, j ≠ i → relied c sessions j s (s.left a.numbering next) := by
  refine ⟨{ hok with free := fun b hb hnone => ?_ }, fun j hj => ⟨⟨rfl, fun _ => id⟩, fun b hb hheld' => ?_⟩⟩
  · by_cases hab : b.numbering = a.numbering
    · have hsid := (hss.shared b hb a ha).2 hab
      simp only [left, Function.update_apply, if_pos hab]
      rw [hsid]
      exact hlen
    · simp only [left, Function.update_apply, if_neg hab] at hnone ⊢
      exact hok.free b hb hnone
  · have hne : b.numbering ≠ a.numbering := by
      intro hab
      rw [hab, hheld] at hheld'
      exact hj (Option.some.inj hheld').symm
    refine ⟨?_, ?_, rfl⟩
    · simp only [left, Function.update_apply, if_neg hne]
      exact hheld'
    · simp only [left, Function.update_apply, if_neg hne]

/-- One answer keeps the invariant, and disturbs no other task's section. -/
theorem exchange_step (hss : OneTool sessions) {q : ToolQuery} {x : ToolReply W q} (hok : s.Ok W c sessions)
    (hmay : maySend c sessions i s q) (hs : exchange W c i s q x s') :
    s'.Ok W c sessions ∧ ∀ j, j ≠ i → relied c sessions j s s' := by
  obtain ⟨h, ht, hs⟩ := hs
  obtain ⟨hok', hkeep⟩ := hok.tended ht
  have htended : ∀ j, relied c sessions j s { s with host := h } := fun j => hok.tended_relied ht
  have hthen : (s'.Ok W c sessions ∧ ∀ j, j ≠ i → relied c sessions j { s with host := h } s') →
      s'.Ok W c sessions ∧ ∀ j, j ≠ i → relied c sessions j s s' :=
    fun h => ⟨h.1, fun j hj => (htended j).trans (h.2 j hj)⟩
  have hsame : s' = { s with host := h } → s'.Ok W c sessions ∧ ∀ j, j ≠ i → relied c sessions j s s' := by
    rintro rfl
    exact ⟨hok', fun j _ => htended j⟩
  cases q with
  | take r =>
    obtain ⟨_, hfree, rfl⟩ := hs
    exact hthen ⟨(hok'.took hfree).1, fun j _ => (hok'.took hfree).2 j⟩
  | leave r next =>
    obtain ⟨a, ha, rfl, hheld, hlen⟩ := hmay
    have hs' : s' = Exchange.left { s with host := h } a.numbering next := hs
    rw [hs'] at hthen ⊢
    exact hthen (hok'.gave hss ha hheld hlen)
  | sendAttempt e =>
    obtain ⟨⟨a, ha, hsends⟩, hmine, hatt⟩ := hmay
    obtain ⟨hid, expected, deadline, y, h', t, hopen, hr, _, rfl⟩ := hs
    have hsends' : Sends i { s with host := h } a e := { hsends with }
    exact hthen (hok'.attempted hss ha hsends' hmine hatt hid hopen hr).1
  | sendOutcome e =>
    obtain ⟨⟨a, ha, hsends⟩, hout, y, hmine, hid, hsx, hor⟩ := hmay
    obtain ⟨expected, d, h', t, hopen, hr, _, rfl⟩ := hs
    have hsends' : Sends i { s with host := h } a e := { hsends with }
    exact hthen (hok'.concluded hss ha hsends' hout hmine hid hsx (hor.imp_right (hkeep y)) hopen hr)
  | sign _ _ _ => exact hsame hs.1
  | verify _ _ _ => exact hsame hs
  | now => exact hsame hs
  | body => exact hsame hs

/-! ## The actions keep it -/

/-- Task `i` among the others. -/
abbrev exchanging (W : World) (c : Config) (sessions : List AmcpSession) (i : ι) :
    Setting ToolQuery (ToolReply W) (Exchange ι) :=
  .under (Exchange.Ok W c sessions) (exchange W c i) (relied c sessions i) (maySend c sessions i)

section Actions

variable {a : AuditedAction} {x : Event} {l : Option (AcceptResponse W)}

/-- Task `i` has sent the attempt `x` of its action. -/
structure Begun (i : ι) (a : AuditedAction) (x : Event) (s : Exchange ι) : Prop where
  mine : s.mine i = [x]
  id : eventId x = a.id
  session : sessionId x = some a.session.sessionId

/-- And it was accepted. -/
def Granted (c : Config) (i : ι) (a : AuditedAction) (s : Exchange ι) : Prop := ∃ x, Begun i a x s ∧ s.Stored c x

theorem Begun.calm (h : Begun i a x s) (hc : calm c i s s') : Begun i a x s' := ⟨hc.1.trans h.mine, h.id, h.session⟩

theorem Granted.calm (h : Granted c i a s) (hc : calm c i s s') : Granted c i a s' := by
  obtain ⟨x, hx, hst⟩ := h
  exact ⟨x, hx.calm hc, hc.2 x hst⟩

/-- Task `i` is in the section of its session, with `n` the next number, and `used` events of it sent. -/
structure Inside (i : ι) (a : AmcpSession) (n used : Nat) (s : Exchange ι) : Prop where
  held : s.held a.numbering = some i
  next : s.next a.numbering = n
  used : (s.under a.sessionId).length = used

theorem Inside.relied {b : AmcpSession} {n used : Nat} (h : Inside i b n used s) (hb : b ∈ sessions)
    (hr : relied c sessions i s s') : Inside i b n used s' := by
  obtain ⟨hheld, hnext, hunder⟩ := hr.2 b hb h.held
  exact ⟨hheld, hnext.trans h.next, by rw [hunder]; exact h.used⟩

omit [DecidableEq ι] in
theorem get_stamp_keyId (o : Outcome) (r : Option Reason) (ts key signature : Str) (n : Nat) :
    get (stamp (a.wire o r ts) key n signature) KEY_ID = some (.str key) := by
  have hnone : (a.wire o r ts).lookup KEY_ID = none := a.get_wire o r ts KEY_ID
  simp only [JsonValue.get, stamp, List.lookup_append, hnone]
  rfl

/-- A task that leaves a section leaves what it knows of its own events. -/
theorem calm_left {h : Host} (hok : s.Ok W c sessions) (ht : Relation.ReflTransGen Tends s.host h) (r : Nat)
    (next : Option Nat) : calm c i s (Exchange.left { s with host := h } r next) := ⟨rfl, (hok.tended ht).2⟩

/-- The section of a task's session, from what its emission comes to: a number is used where it returns. -/
theorem wp_section {α : Type} {session : AmcpSession} (hsign : session.signer.isSome = true) (hin : session ∈ sessions)
    {m : Option Nat → ToolM W α} {J : Exchange ι → Prop} {P : Except ToolRaise α → Exchange ι → Prop}
    (hJ : ∀ s s', J s → calm c i s s' → J s') (hP : ∀ x s s', P x s → calm c i s s' → P x s')
    (h : ∀ n s, J s → Inside i session n n s → Act.wp (exchanging W c sessions i) (m (some n))
      (fun x _ s' => (∃ used, Inside i session n used s' ∧ ((∃ y, x = .ok y) → used = n + 1) ∧ ((∃ r, x = .error r) → used = n)) ∧
        P x s') l s) (h₀ : J s) :
    Act.wp (exchanging W c sessions i) (numbering session m) (fun x _ => P x) l s := by
  obtain ⟨key, hkey⟩ := Option.isSome_iff_exists.1 hsign
  simp only [numbering, hkey]
  rw [Act.wp_bind, Act.wp_await]
  intro s₁ hrel
  refine ⟨trivial, ?_⟩
  rintro x s' ⟨hok, host, ht, rfl, hfree, rfl⟩
  have hcalm : calm c i s₁ (Exchange.tookBy { s₁ with host := host } i session.numbering) := ⟨rfl, (hok.tended ht).2⟩
  have hinside : Inside i session (s₁.next session.numbering) (s₁.next session.numbering)
      (Exchange.tookBy { s₁ with host := host } i session.numbering) :=
    ⟨Function.update_self .., rfl, hok.free session hin hfree⟩
  rw [Act.next_ok, Act.wp_bind, Act.wp_lift, Act.next_ok, Act.wp_bind, Act.wp_caught]
  refine Act.wp_mono ?_ (h _ _ (hJ _ _ (hJ _ _ h₀ hrel.1) hcalm) hinside)
  rintro x l s₂ ⟨⟨used, hins, hret, hraise⟩, hpost⟩
  rw [Act.next_ok]
  cases x with
  | ok y =>
    rw [Act.wp_bind, Act.wp_await]
    intro s₃ hrel'
    have hins' := hins.relied hin hrel'
    refine ⟨⟨session, hin, rfl, hins'.held, hins'.used.trans (hret ⟨y, rfl⟩)⟩, ?_⟩
    rintro _ s₄ ⟨hok', host', ht', hs₄⟩
    obtain rfl : s₄ = _ := hs₄
    exact hP _ _ _ (hP _ _ _ hpost hrel'.1) (calm_left hok' ht' _ _)
  | error r =>
    rw [Act.wp_bind, Act.wp_await]
    intro s₃ hrel'
    have hins' := hins.relied hin hrel'
    refine ⟨⟨session, hin, rfl, hins'.held, (hins'.used.trans (hraise ⟨r, rfl⟩)).trans hins'.next.symm⟩, ?_⟩
    rintro _ s₄ ⟨hok', host', ht', hs₄⟩
    obtain rfl : s₄ = _ := hs₄
    exact hP _ _ _ (hP _ _ _ hpost hrel'.1) (calm_left hok' ht' _ _)

/-- An event of the action, as it is sent with number `n`. -/
structure Stamped (a : AuditedAction) (o : Outcome) (reason : Option Reason) (n : Nat) (e : Event) : Prop where
  emits : a.Emits o reason e
  ofSession : OfSession a.session e
  number : get e SIGNER_SEQ = some (.int n)

theorem wp_build_exchange {o : Outcome} {n : Nat} {reason : Option Reason} (hsign : a.session.signer.isSome = true) :
    Act.wp (exchanging W c sessions i) (a.build o (some n) reason)
      (fun x _ s' => relied c sessions i s s' ∧ ∀ e, x = .ok e → Stamped a o reason n e) l s := by
  obtain ⟨key, hkey⟩ := Option.isSome_iff_exists.1 hsign
  unfold AuditedAction.build
  rw [Act.wp_bind, Act.wp_await]
  intro s₁ hrel
  refine ⟨trivial, ?_⟩
  rintro ts s' ⟨hok, host, ht, hs'⟩
  obtain rfl : s' = { s₁ with host := host } := hs'
  have hrel' := hrel.trans (hok.tended_relied ht)
  rw [Act.next_ok]
  split
  · simp only [stampWith, hkey]
    rw [Act.wp_bind, Act.wp_await]
    intro s₂ hrel₂
    refine ⟨trivial, ?_⟩
    rintro x s₃ ⟨hok₂, host₂, ht₂, rfl, g, rfl⟩
    refine ⟨(hrel'.trans hrel₂).trans (hok₂.tended_relied ht₂), ?_⟩
    rintro e ⟨⟩
    exact ⟨⟨ts, by rw [hkey]; exact ⟨n, g, rfl⟩⟩, ⟨get_stamp (a.wire_sessionId o reason ts), key, hkey, get_stamp_keyId ..⟩,
      get_stamp_signerSeq ..⟩
  · exact ⟨hrel', by rintro _ ⟨⟩⟩

theorem Stamped.sessionId {o : Outcome} {reason : Option Reason} {n : Nat} {e : Event} (h : Stamped a o reason n e) :
    AuditableMcp.sessionId e = some a.session.sessionId := h.ofSession.sessionId

theorem Stamped.eventId {o : Outcome} {reason : Option Reason} {n : Nat} {e : Event} (h : Stamped a o reason n e) :
    AuditableMcp.eventId e = a.id := by
  simp [AuditableMcp.eventId, h.emits.id]

theorem Stamped.isAttempt {o : Outcome} {reason : Option Reason} {n : Nat} {e : Event} (h : Stamped a o reason n e) :
    AuditableMcp.isAttempt e = true ↔ o = .attempted := by
  rw [AuditableMcp.isAttempt, hasText_iff, h.emits.outcome]
  constructor
  · intro heq
    exact Outcome.text_inj (by simpa using heq)
  · rintro rfl
    rfl

theorem Stamped.isHostRefusal {reason : Reason} {n : Nat} {e : Event} (h : Stamped a .aborted (some reason) n e)
    (hr : reason ∈ [Reason.hostRejected, Reason.hostUnavailable]) : AuditableMcp.isHostRefusal e = true := by
  have hmem : reason.text ∈ refusalReasons := List.mem_map_of_mem (f := Reason.text) hr
  simp only [AuditableMcp.isHostRefusal, Bool.and_eq_true, hasText_iff, h.emits.outcome, true_and, List.any_eq_true,
    getNull, h.emits.reason, Option.getD_some, decide_eq_true_eq]
  exact ⟨_, hmem, rfl⟩

/-- What an outcome needs: the attempt was accepted, or the outcome says it was not. -/
def Concludes (c : Config) (i : ι) (a : AuditedAction) (o : Outcome) (reason : Option Reason) (s : Exchange ι) : Prop :=
  ∃ x, Begun i a x s ∧ ((∃ r ∈ [Reason.hostRejected, Reason.hostUnavailable], o = .aborted ∧ reason = some r) ∨ s.Stored c x)

theorem Concludes.calm {o : Outcome} {reason : Option Reason} (h : Concludes c i a o reason s) (hc : calm c i s s') :
    Concludes c i a o reason s' := by
  obtain ⟨x, hx, hor⟩ := h
  exact ⟨x, hx.calm hc, hor.imp_right (hc.2 x)⟩

theorem Granted.concludes (h : Granted c i a s) (o : Outcome) (reason : Option Reason) : Concludes c i a o reason s := by
  obtain ⟨x, hx, hst⟩ := h
  exact ⟨x, hx, .inr hst⟩

omit [DecidableEq ι] in
theorem handled_inside {n : Nat} {e : Event} {h : Host} {t : List SealedRecord} (hins : Inside i a.session n n s)
    (he : AuditableMcp.sessionId e = some a.session.sessionId) : Inside i a.session n (n + 1) (s.handled i e h t) where
  held := hins.held
  next := hins.next
  used := by
    rw [Exchange.under_handled, he, if_pos rfl, List.length_append, hins.used]
    rfl

/-- Where an attempt's section returns, the host has answered, and an accept comes with the attempt stored. -/
def Heard (c : Config) (i : ι) (a : AuditedAction) (x : Except ToolRaise (Event × Option (AttemptResponse W)))
    (s : Exchange ι) : Prop :=
  ∀ y, x = .ok y → ∃ z, y.2 = some z ∧ Begun i a y.1 s ∧ ∀ r, z = .accept r → s.Stored c y.1

variable (hss : OneTool sessions) (hin : a.session ∈ sessions)

include hss hin

theorem wp_emit_exchange {o : Outcome} {reason : Option Reason} (ho : o ≠ .attempted)
    (h : Concludes c i a o reason s) :
    Act.wp (exchanging W c sessions i) (a.emit o reason) (fun _ _ _ => True) l s := by
  have hsign := hss.signs _ hin
  refine wp_section hsign hin (J := Concludes c i a o reason) (P := fun _ _ => True) (fun _ _ h hc => h.calm hc)
    (fun _ _ _ _ _ => trivial) (fun n s hc hins => ?_) h
  rw [Act.wp_bind]
  refine Act.wp_mono ?_ (wp_build_exchange hsign)
  rintro x l s₁ ⟨hrel, hx⟩
  have hins₁ := hins.relied hin hrel
  have hc₁ := hc.calm hrel.1
  cases x with
  | error r => exact ⟨⟨n, hins₁, by rintro ⟨_, ⟨⟩⟩, fun _ => rfl⟩, trivial⟩
  | ok e =>
    have hb := hx e rfl
    rw [Act.next_ok, Act.wp_bind, Act.wp_await]
    intro s₂ hrel₂
    have hins₂ := hins₁.relied hin hrel₂
    obtain ⟨y, hy, hor⟩ := hc₁.calm hrel₂.1
    refine ⟨⟨⟨a.session, hin, hb.ofSession, hins₂.held, hins₂.used.trans hins₂.next.symm, ?_⟩, ?_, y, hy.mine,
      hb.eventId.trans hy.id.symm, hb.sessionId.trans hy.session.symm, ?_⟩, ?_⟩
    · rw [hins₂.next]
      exact hb.number
    · exact Bool.eq_false_iff.2 fun hatt => ho (hb.isAttempt.1 hatt)
    · refine hor.imp_left ?_
      rintro ⟨r, hr, rfl, rfl⟩
      exact hb.isHostRefusal hr
    · rintro z s₃ ⟨hok, host, ht, expected, d, h', t, hopen, hr, rfl, rfl⟩
      rw [Act.next_ok, Act.wp_lift]
      have hins₃ : Inside i a.session n n { s₂ with host := host } := { hins₂ with }
      exact ⟨⟨n + 1, handled_inside hins₃ hb.sessionId, fun _ => rfl, by rintro ⟨_, ⟨⟩⟩⟩, trivial⟩

theorem wp_sendAttempt_exchange (h : s.mine i = []) :
    Act.wp (exchanging W c sessions i) (numbering a.session a.sendAttempt) (fun x _ => Heard c i a x) l s := by
  have hsign := hss.signs _ hin
  refine wp_section hsign hin (J := fun s => s.mine i = []) (P := Heard c i a)
    (fun _ _ h hc => hc.1.trans h) ?_ (fun n s hc hins => ?_) h
  · intro x s s' hx hc y hy
    obtain ⟨z, hz, hb, hst⟩ := hx y hy
    exact ⟨z, hz, hb.calm hc, fun r hr => hc.2 _ (hst r hr)⟩
  · unfold AuditedAction.sendAttempt
    rw [Act.wp_bind]
    refine Act.wp_mono ?_ (wp_build_exchange hsign)
    rintro x l s₁ ⟨hrel, hx⟩
    have hins₁ := hins.relied hin hrel
    cases x with
    | error r => exact ⟨⟨n, hins₁, by rintro ⟨_, ⟨⟩⟩, fun _ => rfl⟩, by rintro _ ⟨⟩⟩
    | ok e =>
      have hb := hx e rfl
      rw [Act.next_ok, Act.wp_bind, Act.wp_await]
      intro s₂ hrel₂
      have hins₂ := hins₁.relied hin hrel₂
      have hmine : s₂.mine i = [] := (hrel.trans hrel₂).1.1.trans hc
      have hatt : isAttempt e = true := hb.isAttempt.2 rfl
      have hnum : get e SIGNER_SEQ = some (.int (s₂.next a.session.numbering)) := by
        rw [hins₂.next]
        exact hb.number
      have hsends : Sends i s₂ a.session e := ⟨hb.ofSession, hins₂.held, hins₂.used.trans hins₂.next.symm, hnum⟩
      refine ⟨⟨⟨a.session, hin, hsends⟩, hmine, hatt⟩, ?_⟩
      rintro z s₃ ⟨hok, host, ht, hid, expected, deadline, y, h', t, hopen, hr, rfl, rfl⟩
      have hins₃ : Inside i a.session n n { s₂ with host := host } := { hins₂ with }
      have hsends' : Sends i { s₂ with host := host } a.session e := { hsends with }
      have hacc := ((hok.tended ht).1.attempted hss hin hsends' hmine hatt hid hopen hr).2
      refine ⟨⟨n + 1, handled_inside hins₃ hb.sessionId, fun _ => rfl, by rintro ⟨_, ⟨⟩⟩⟩, ?_⟩
      rintro _ ⟨⟩
      refine ⟨y, rfl, ⟨?_, hb.eventId, hb.sessionId⟩, hacc⟩
      rw [Exchange.mine_handled, if_pos rfl]
      exact congrArg (· ++ [e]) hmine

theorem wp_abort_exchange {reason : Reason} {P : Except ToolRaise Unit → Exchange ι → Prop}
    (hP : ∀ r s, P (.error r) s) (h : Concludes c i a .aborted (some reason) s) :
    Act.wp (exchanging W c sessions i) (a.abort reason) (fun x _ => P x) l s := by
  unfold AuditedAction.abort AuditedAction.emitAbortedBestEffort AuditedAction.emitAborted AuditedAction.swallow
  simp only [Act.wp_bind, Act.wp_caught]
  refine Act.wp_mono ?_ (wp_emit_exchange hss hin (by decide) h)
  intro x l s _
  rw [Act.next_ok]
  split
  · exact hP _ _
  · exact hP _ _

/-- An accept is checked while its attempt stays stored. -/
theorem wp_checkAccept_exchange {attempt : Event} {r : AcceptResponse W} (h : Granted c i a s) :
    Act.wp (exchanging W c sessions i) (a.checkAccept attempt r) (fun x _ s' => (∃ u, x = .ok u) → Granted c i a s') l s := by
  have habort : ∀ reason l s, Granted c i a s → Act.wp (exchanging W c sessions i) (a.abort reason)
      (fun x _ s' => (∃ u, x = .ok u) → Granted c i a s') l s := fun reason l s h =>
    wp_abort_exchange hss hin (P := fun x s' => (∃ u, x = .ok u) → Granted c i a s') (by rintro _ _ ⟨_, ⟨⟩⟩)
      (h.concludes _ _)
  have hverify : ∀ f signature l s, Granted c i a s → Act.wp (exchanging W c sessions i)
      (AuditedAction.verification f signature) (fun _ _ s' => Granted c i a s') l s := by
    intro f signature l s h
    unfold AuditedAction.verification
    split
    · rw [Act.wp_bind]
      cases countersignaturePayload W (.int f.seq) (.str f.hostTs) _ (.str f.previousHash) (.str f.recordHash) with
      | error m => exact h
      | ok payload =>
        simp only [orFault, Act.wp_lift, Act.next_ok]
        rw [Act.wp_bind, Act.wp_await]
        intro s₁ hrel
        refine ⟨trivial, ?_⟩
        rintro x s₂ ⟨hok, host, ht, hs₂⟩
        obtain rfl : s₂ = _ := hs₂
        exact h.calm (hrel.trans (hok.tended_relied ht)).1
    · exact h
  have hcheck : Act.wp (exchanging W c sessions i) (a.checkCountersignature r.1)
      (fun x _ s' => (∃ u, x = .ok u) → Granted c i a s') l s := by
    unfold AuditedAction.checkCountersignature
    split
    · exact habort _ _ _ h
    · split
      · rw [Act.wp_bind]
        refine Act.wp_mono ?_ (hverify _ _ l s h)
        intro x l s' h
        rcases x with r | v
        · rintro ⟨_, ⟨⟩⟩
        · cases v with
          | verified => exact fun _ => h
          | failed => exact habort _ _ _ h
          | unavailable => exact habort _ _ _ h
      · exact fun _ => h
  rw [AuditedAction.checkAccept, Act.wp_bind]
  refine Act.wp_mono ?_ hcheck
  rintro (r' | u) l s' h'
  · rintro ⟨_, ⟨⟩⟩
  · have h' := h' ⟨u, rfl⟩
    rw [Act.next_ok, Act.wp_bind]
    unfold AuditedAction.checkRecordHash
    split
    · rw [Act.wp_bind]
      cases computeRecordHash W (.obj attempt) (.int r.1.seq) (.str r.1.hostTs) (.str r.1.previousHash) with
      | error m =>
        rintro ⟨_, ⟨⟩⟩
      | ok expected =>
        simp only [orFault, Act.wp_lift, Act.next_ok]
        split
        · refine Act.wp_mono ?_ (habort .hashMismatch l s' h')
          rintro (r' | u) l s'' h''
          · rintro ⟨_, ⟨⟩⟩
          · exact h''
        · exact fun _ => h'
    · exact fun _ => h'

/-- A whole action asks only what it may. -/
theorem wp_run_exchange (h : s.mine i = []) :
    Act.wp (exchanging W c sessions i) a.run (fun _ _ _ => True) l s := by
  have hrefused : ∀ reason ∈ [Reason.hostRejected, Reason.hostUnavailable], ∀ x l s, Begun i a x s →
      Act.wp (exchanging W c sessions i) (a.abort reason) (fun x _ s' => (∃ u, x = .ok u) → Granted c i a s') l s :=
    fun reason hr x l s hb => wp_abort_exchange hss hin (P := fun x s' => (∃ u, x = .ok u) → Granted c i a s')
      (by rintro _ _ ⟨_, ⟨⟩⟩) ⟨x, hb, .inl ⟨reason, hr, rfl, rfl⟩⟩
  have henter : Act.wp (exchanging W c sessions i) a.aenter (fun x _ s' => (∃ u, x = .ok u) → Granted c i a s') l s := by
    rw [AuditedAction.aenter, Act.wp_bind]
    refine Act.wp_mono ?_ (wp_sendAttempt_exchange hss hin h)
    rintro (r | ⟨e, z⟩) l s' hpost
    · rintro ⟨_, ⟨⟩⟩
    · obtain ⟨z, hz, hb, hst⟩ := hpost _ rfl
      simp only at hz
      subst hz
      rw [Act.next_ok]
      cases z with
      | accept r => exact wp_checkAccept_exchange hss hin ⟨e, hb, hst r rfl⟩
      | reject r => exact hrefused _ (by decide) e l s' hb
      | unavailable => exact hrefused _ (by decide) e l s' hb
  have hexit : ∀ (raised : Bool) l s, Granted c i a s →
      Act.wp (exchanging W c sessions i) (a.aexit raised) (fun _ _ _ => True) l s := by
    intro raised l s h
    unfold AuditedAction.aexit AuditedAction.swallow
    simp only [Act.wp_bind, Act.wp_caught]
    refine Act.wp_mono ?_ (wp_emit_exchange hss hin ?_ (h.concludes _ _))
    · intro x l s _
      rw [Act.next_ok]
      split
      · trivial
      · trivial
    · cases raised <;> decide
  rw [AuditedAction.run, Act.wp_bind]
  refine Act.wp_mono ?_ henter
  rintro (r | u) l s' h'
  · trivial
  · have h' := h' ⟨u, rfl⟩
    rw [Act.next_ok, Act.wp_bind, Act.wp_await]
    intro s₁ hrel
    refine ⟨trivial, ?_⟩
    rintro x s₂ ⟨hok, host, ht, hs₂⟩
    obtain rfl : s₂ = _ := hs₂
    have h₂ := h'.calm (hrel.trans (hok.tended_relied ht)).1
    rw [Act.next_ok]
    cases x with
    | ok _ => exact hexit false l _ h₂
    | error r =>
      dsimp only
      rw [Act.wp_bind]
      refine Act.wp_mono ?_ (hexit true l _ h₂)
      intro x l s _
      cases x <;> trivial

end Actions

/-! ## The accounting -/

/-- What the chain holds was sent, and is valid. -/
theorem Known.recorded {sids : List Str} {es old : List Event} {h : Host} {t : List SealedRecord}
    (hk : Known W c sids es old h t) : ∀ r ∈ recordsOf c h t, r.event ∈ es ∧ validAuditEvent W (.obj r.event) = true := by
  intro r hr
  unfold recordsOf at hr
  split at hr
  · exact hk.stored r hr
  · exact hk.kept r hr

namespace Exchange

/-- The events in the chain. -/
def events (c : Config) (s : Exchange ι) : List Json := (recordsOf c s.host s.store).map fun r => .obj r.event

omit [DecidableEq ι] in
theorem mem_events : .obj e ∈ s.events c ↔ s.Stored c e := by
  simp only [events, List.mem_map, Json.obj.injEq]
  rfl

theorem Ok.stored (hok : s.Ok W c sessions) (he : s.Stored c e) :
    (∃ i, (i, e) ∈ s.sent) ∧ SessionEvent e := by
  obtain ⟨r, hr, rfl⟩ := he
  obtain ⟨hin, hvalid⟩ := hok.known.recorded r hr
  obtain ⟨_, heq, hs, _⟩ := validAuditEvent_spec hvalid
  obtain rfl := Json.obj.inj heq
  obtain ⟨⟨i, _⟩, hp, rfl⟩ := List.mem_map.1 hin
  exact ⟨⟨i, hp⟩, hs⟩

theorem Ok.accountable (hok : s.Ok W c sessions) : ∀ v ∈ s.events c, Accountable v := by
  intro v hv
  obtain ⟨r, hr, rfl⟩ := List.mem_map.1 hv
  obtain ⟨_, hs⟩ := hok.stored ⟨r, hr, rfl⟩
  obtain ⟨id, hid⟩ := hs.id
  obtain ⟨sid, hsid⟩ := hs.session
  refine ⟨by rw [getNull, hsid]; rfl, by rw [getNull, hid]; rfl, fun _ _ => ?_⟩
  have hreason := hs.reason
  unfold optional at hreason
  cases hg : get r.event REASON with
  | none => rw [getNull, hg]; rfl
  | some v =>
    rw [hg] at hreason
    obtain ⟨t, _, rfl⟩ := isOneOf_iff.1 hreason
    rw [getNull, hg]
    rfl

/-- How a stored event is numbered. -/
theorem Ok.numberedAs (hok : s.Ok W c sessions) (he : s.Stored c e) {a : AmcpSession} (ha : OfSession a e) {k : Str}
    (hk : a.signer = some k) {n : Nat} (hn : get e SIGNER_SEQ = some (.int n)) :
    AuditableMcp.numberedAs e = some ⟨k, a.sessionId, n⟩ := by
  obtain ⟨_, hs⟩ := hok.stored he
  obtain ⟨k', hk', hkey⟩ := ha.key
  obtain rfl : k = k' := Option.some.inj (hk.symm.trans hk')
  have hcount : isCount (.int (n : Int)) = true := by
    have hopt := hs.signerSeq
    unfold optional at hopt
    rw [hn] at hopt
    exact hopt
  simp only [isCount, Bool.and_eq_true, decide_eq_true_eq] at hcount
  simp [AuditableMcp.numberedAs, getNull, hkey, ha.session, hn, count, hcount.1, hcount.2]

/-- No two events of a session have one number. -/
theorem Ok.number_inj (hok : s.Ok W c sessions) {a : AmcpSession} (ha : a ∈ sessions) {p q : ι × Event}
    (hp : p ∈ s.under a.sessionId) (hq : q ∈ s.under a.sessionId) (h : get p.2 SIGNER_SEQ = get q.2 SIGNER_SEQ) : p = q := by
  have hnodup : ((s.under a.sessionId).map fun p => get p.2 SIGNER_SEQ).Nodup := by
    rw [hok.numbered a ha]
    refine List.nodup_range.map fun n m hnm => ?_
    simpa using hnm
  exact List.inj_on_of_nodup_map hnodup hp hq h

/-- A number missing below a stored one is that of an attempt whose refusal is stored. -/
structure Refuses (c : Config) (s : Exchange ι) (a : AmcpSession) (k : Str) (x m : Nat) : Prop where
  pair : ∃ i e o, s.mine i = [e, o] ∧ sessionId e = some a.sessionId ∧ sessionId o = some a.sessionId ∧
    get e SIGNER_SEQ = some (.int (x : Int)) ∧ get o SIGNER_SEQ = some (.int (m : Int))
  refusal : m ∈ refusalsUnder (k, a.sessionId) (s.events c)
  later : x < m

theorem Ok.refuses (hok : s.Ok W c sessions) (hsealed : ∀ p ∈ s.sent, isAttempt p.2 = false → s.Stored c p.2)
    (hdone : ∀ p ∈ s.sent, ∃ q ∈ s.sent, q.1 = p.1 ∧ isAttempt q.2 = false) {a : AmcpSession} (ha : a ∈ sessions) {k : Str}
    (hk : a.signer = some k) (hsigner : ∀ b ∈ sessions, b.sessionId = a.sessionId → b.signer = a.signer) {x : Nat}
    (hx : x ∈ gaps (sealedUnder (k, a.sessionId) (s.events c))) : ∃ m, Refuses c s a k x m := by
  -- every event of the session is one of `a`'s
  have hof : ∀ p ∈ s.under a.sessionId, OfSession a p.2 := by
    intro p hp
    obtain ⟨hp, hsid⟩ := mem_under.1 hp
    obtain ⟨b, hb, hofb⟩ := hok.shaped p hp
    have heq : b.sessionId = a.sessionId := Option.some.inj (hofb.sessionId.symm.trans hsid)
    obtain ⟨kb, hkb, hkey⟩ := hofb.key
    exact ⟨heq ▸ hofb.session, kb, (hsigner b hb heq).symm.trans hkb, hkey⟩
  obtain ⟨hmissing, v, hv, hxv⟩ := mem_gaps.1 hx
  rw [sealedUnder, List.mem_toFinset, mem_numbersUnder] at hmissing
  rw [sealedUnder, List.mem_toFinset, mem_numbersUnder] at hv
  have hnot : ∀ p ∈ s.under a.sessionId, get p.2 SIGNER_SEQ = some (.int (x : Int)) → ¬ s.Stored c p.2 :=
    fun p hp hn hst => hmissing ⟨p.2, _, mem_events.2 hst, hok.numberedAs hst (hof p hp) hk hn, rfl, rfl⟩
  -- the event of number `x` was sent, before that of number `v`
  obtain ⟨⟨i, e⟩, hp, hn⟩ : ∃ p ∈ s.under a.sessionId, get p.2 SIGNER_SEQ = some (.int (x : Int)) := by
    obtain ⟨w, n, hw, hnw, hkey, rfl⟩ := hv
    obtain ⟨⟨j, hj⟩, _⟩ := hok.stored (mem_events.1 hw)
    obtain ⟨b, hb, hofb⟩ := hok.shaped _ hj
    obtain ⟨kb, hkb, _⟩ := hofb.key
    obtain ⟨m, hm, hget⟩ := hok.number hb (mem_under.2 ⟨hj, hofb.sessionId⟩)
    obtain rfl := Option.some.inj (hnw.symm.trans (hok.numberedAs (mem_events.1 hw) hofb hkb hget))
    have hsa : b.sessionId = a.sessionId := (Prod.mk.inj hkey).2
    have hlt : x < (s.under a.sessionId).length := by
      rw [← hsa]
      exact hxv.trans hm
    have hmem : some (.int (x : Int)) ∈ (s.under a.sessionId).map fun p => get p.2 SIGNER_SEQ := by
      rw [hok.numbered a ha]
      exact List.mem_map.2 ⟨x, List.mem_range.2 hlt, rfl⟩
    exact List.mem_map.1 hmem
  obtain ⟨hsent, hsid⟩ := mem_under.1 hp
  have hunstored := hnot _ hp hn
  have hatt : isAttempt e = true := by
    by_contra hne
    exact hunstored (hsealed _ hsent (Bool.eq_false_iff.2 hne))
  -- its task went on to refuse it
  obtain ⟨⟨j, o⟩, ho, hji, hout⟩ := hdone _ hsent
  obtain rfl : j = i := hji
  have hstored := hsealed _ ho hout
  have hboth : ∃ n m : Nat, s.mine j = [e, o] ∧ sessionId o = sessionId e ∧ eventId o = eventId e ∧
      get e SIGNER_SEQ = some (.int (n : Int)) ∧ get o SIGNER_SEQ = some (.int (m : Int)) ∧ n < m ∧
      (isHostRefusal o = true ∨ s.Stored c e) := by
    have he' := mem_mine.2 hsent
    have ho' := mem_mine.2 ho
    have htold := hok.told j
    generalize s.mine j = l at he' ho' htold ⊢
    cases htold with
    | nothing => cases he'
    | attempt hat =>
      obtain rfl := List.mem_singleton.1 ho'
      rw [hat] at hout
      cases hout
    | @both at' out hat hout' hid hsx hnm hor =>
      have hae : e = at' := by
        rcases List.mem_pair.1 he' with rfl | rfl
        · rfl
        · rw [hout'] at hatt
          cases hatt
      have hoo : o = out := by
        rcases List.mem_pair.1 ho' with rfl | rfl
        · rw [hat] at hout
          cases hout
        · rfl
      subst hae hoo
      obtain ⟨n, m, hn, hm, hlt⟩ := hnm
      exact ⟨n, m, rfl, hsx, hid, hn, hm, hlt, hor⟩
  obtain ⟨n, m, hmine, hso, hido, hn', hm, hlt, hor⟩ := hboth
  obtain rfl : n = x := by
    rw [hn] at hn'
    simpa using hn'.symm
  have hrefusal : isHostRefusal o = true := hor.resolve_right hunstored
  have hou : (j, o) ∈ s.under a.sessionId := mem_under.2 ⟨ho, hso.trans hsid⟩
  obtain ⟨before, hb⟩ := exists_mem_behind (mem_events.2 hstored)
  refine ⟨m, ⟨j, e, o, hmine, hsid, hso.trans hsid, hn, hm⟩, ?_, hlt⟩
  refine (List.mem_insertionSort _).2 (List.mem_filterMap.2 ⟨_, hb, ?_⟩)
  -- no attempt of the operation is in the chain: its only attempt is not
  have hnone : before.any (isAttemptOf o) = false := by
    refine Bool.eq_false_iff.2 fun hany => ?_
    obtain ⟨w, hw, hisatt⟩ := List.any_eq_true.1 hany
    have hwe := mem_of_behind hb w hw
    obtain ⟨r, hr, rfl⟩ := List.mem_map.1 hwe
    have hst := mem_events.1 hwe
    obtain ⟨⟨j', hj'⟩, hsw⟩ := hok.stored hst
    obtain ⟨idw, hidw⟩ := hsw.id
    obtain ⟨ido, hidoo⟩ := (hok.stored hstored).2.id
    simp only [isAttemptOf, Bool.and_eq_true, getNull, hidw, hidoo, Option.getD_some] at hisatt
    have hids : ido = idw := by simpa [pySame, Json.isNaN, pyEq] using hisatt.2.2
    obtain rfl : j' = j := hok.ids _ hj' _ ho (by simp [eventId, hidw, hidoo, hids])
    have hmem := mem_mine.2 hj'
    rw [hmine] at hmem
    rcases List.mem_pair.1 hmem with heq | heq
    · exact hunstored (heq ▸ hst)
    · have hat : isAttempt o = true := heq ▸ hisatt.1
      rw [hout] at hat
      cases hat
  simp only [refusalUnder, hok.numberedAs hstored (hof _ hou) hk hm, Option.bind_some, Numbering.key, hrefusal, hnone,
    and_self, ↓reduceIte]

/-- Where every outcome was sealed, and every task has sent one, no number is unaccounted for. -/
theorem Ok.accounted (hok : s.Ok W c sessions) (hss : OneTool sessions)
    (hsealed : ∀ p ∈ s.sent, isAttempt p.2 = false → s.Stored c p.2)
    (hdone : ∀ p ∈ s.sent, ∃ q ∈ s.sent, q.1 = p.1 ∧ isAttempt q.2 = false) : accounting (s.events c) = [] := by
  refine List.flatMap_eq_nil_iff.2 fun key hkey => ?_
  -- the key is that of a session of the tool
  obtain ⟨_, he, n, hn, rfl⟩ := mem_keysOf.1 hkey
  obtain ⟨r, hr, rfl⟩ := List.mem_map.1 he
  obtain ⟨⟨j, hj⟩, _⟩ := hok.stored (mem_events.1 he)
  obtain ⟨a, ha, hof⟩ := hok.shaped _ hj
  obtain ⟨k, hk, _⟩ := hof.key
  obtain ⟨m, _, hget⟩ := hok.number ha (mem_under.2 ⟨hj, hof.sessionId⟩)
  obtain rfl := Option.some.inj (hn.symm.trans (hok.numberedAs (mem_events.1 he) hof hk hget))
  have hleft : leftUnder (k, a.sessionId) (s.events c) = ∅ := by
    have hrefuses : ∀ x, ∃ m, x ∈ gaps (sealedUnder (k, a.sessionId) (s.events c)) → Refuses c s a k x m := by
      intro x
      by_cases hx : x ∈ gaps (sealedUnder (k, a.sessionId) (s.events c))
      · obtain ⟨m, hm⟩ := hok.refuses hsealed hdone ha hk (fun b hb h => hss.signer b hb a ha h) hx
        exact ⟨m, fun _ => hm⟩
      · exact ⟨0, fun h => absurd h hx⟩
    choose f hf using hrefuses
    refine foldl_cover_eq_empty (List.pairwise_insertionSort _ _) f ?_ fun x hx => ⟨(hf x hx).refusal, (hf x hx).later⟩
    -- one refusal is that of one task, so of one attempt
    intro x hx y hy hxy
    obtain ⟨i, e, o, hmine, hse, hso, hne, hno⟩ := (hf x hx).pair
    obtain ⟨i', e', o', hmine', hse', hso', hne', hno'⟩ := (hf y hy).pair
    have hpair : ∀ {i e o}, s.mine i = [e, o] → sessionId o = some a.sessionId → (i, o) ∈ s.under a.sessionId :=
      fun hm hs => mem_under.2 ⟨mem_mine.1 (by rw [hm]; simp), hs⟩
    have heq := hok.number_inj ha (hpair hmine hso) (hpair hmine' hso') (by rw [hno, hno', hxy])
    obtain ⟨rfl, rfl⟩ := Prod.mk.inj heq
    obtain rfl : e = e' := by
      rw [hmine] at hmine'
      exact (List.cons.inj hmine').1
    rw [hne] at hne'
    simpa using hne'
  simp only [Numbering.key, hleft, spansOf_empty, List.map_nil]

end Exchange

/-! ## Runs -/

/-- An action of one of the tool's sessions. -/
def ActionOf (W : World) (sessions : List AmcpSession)
    (p : Prog ToolQuery (ToolReply W) (Except ToolRaise Unit × Option (AcceptResponse W))) : Prop :=
  ∃ a : AuditedAction, a.session ∈ sessions ∧ p = a.run none

abbrev Exchange.Step (W : World) (c : Config) (sessions : List AmcpSession) :=
  @Pool.StepAt ToolQuery (ToolReply W) (Exchange ι) (Except ToolRaise Unit × Option (AcceptResponse W)) ι _
    (exchange W c) (ActionOf W sessions) (fun _ _ => False)

theorem Exchange.start_ok : (Exchange.start : Exchange ι).Ok W c sessions where
  known :=
    { stored := fun _ h => absurd h List.not_mem_nil
      kept := fun _ h => absurd h List.not_mem_nil
      attempts := fun _ _ h => nomatch h
      decided := fun _ _ _ _ h => nomatch h
      outcomes := fun _ _ _ h => nomatch h
      opened := fun _ h => absurd h List.not_mem_nil
      lasting := fun _ h => absurd h List.not_mem_nil
      quiet := fun _ h => absurd h List.not_mem_nil }
  numbered _ _ := rfl
  free _ _ _ := rfl
  shaped _ h := absurd h List.not_mem_nil
  told _ := .nothing
  ids _ h := absurd h List.not_mem_nil

theorem exchange_guarantee (W : World) (c : Config) {sessions : List AmcpSession} (hss : OneTool sessions) :
    GuaranteeFrom (fun i : ι => exchange W c i) (relied c sessions) (maySend c sessions) (ActionOf W sessions)
      (fun _ _ => False) (Exchange.Ok W c sessions) (fun i s => s.mine i = []) fun _ _ _ => True where
  trans _ _ _ _ h h' := h.trans h'
  refl _ s := relied.refl s
  unborn _ _ _ h hr := hr.1.1.trans h
  loc _ _ _ _ _ _ := trivial
  step hI hmay hs := exchange_step hss hI hmay hs
  born := by
    rintro i s p _ hu ⟨a, hin, rfl⟩
    exact wp_run_exchange hss hin hu
  ops _ _ h := h.elim

/-- **No false suppression findings**: once every action that sent its attempt has sent its outcome, and every
outcome was sealed, each number is accounted for, and nothing was taken for a replay. -/
theorem every_number_accounted (hss : OneTool sessions) {S : Pool ToolQuery (ToolReply W) (Exchange ι)
      (Except ToolRaise Unit × Option (AcceptResponse W)) ι}
    (hrun : Relation.ReflTransGen (Exchange.Step W c sessions) ⟨.start, fun _ => none⟩ S)
    (hsealed : ∀ p ∈ S.shared.sent, isAttempt p.2 = false → S.shared.Stored c p.2)
    (hdone : ∀ p ∈ S.shared.sent, ∃ q ∈ S.shared.sent, q.1 = p.1 ∧ isAttempt q.2 = false) :
    unaccountedSignerSeq (S.shared.events c) = .ok [] ∧ ∀ a ∈ S.shared.host.anomalies, a.kind ≠ .replayDetected := by
  have hok := (pool_from (exchange_guarantee W c hss) Exchange.start_ok (fun _ => rfl) hrun).1.1
  refine ⟨?_, hok.known.quiet⟩
  rw [unaccounted_eq hok.accountable, hok.accounted hss hsealed hdone]

end Invariant

/-! ## A refused attempt -/

/-- A Level-2 host without a repository. -/
def signedHost : Config where
  level := .l2
  countersign := .none
  hasVerifier := true
  countersigner := none
  logId := lit "partition"
  hasRepository := false
  verifier_of_l2 := verifier_of_verifier
  countersigner_iff := none_countersigns

/-- Its verifier verifies, and it is available or not. -/
def hostAnswers (up : Bool) (s : List SealedRecord) : (q : Query) → Option (Reply q × List SealedRecord)
  | .verify _ => some (.ok none, s)
  | .persistenceAvailable => some (up, s)
  | .clockNow => some (ATTEMPT_TS, s)
  | _ => none

theorem hostAnswers_honest (up : Bool) (s : List SealedRecord) (q : Query) (x : Reply q) (s' : List SealedRecord)
    (h : hostAnswers up s q = some (x, s')) : honestEnv s q x s' := by
  cases q with
  | verify e =>
    obtain ⟨rfl, rfl⟩ := Prod.mk.inj (Option.some.inj h)
    exact ⟨rfl, nofun⟩
  | persistenceAvailable =>
    obtain ⟨rfl, rfl⟩ := Prod.mk.inj (Option.some.inj h)
    exact ⟨rfl, trivial⟩
  | clockNow =>
    obtain ⟨rfl, rfl⟩ := Prod.mk.inj (Option.some.inj h)
    exact ⟨rfl, trivial⟩
  | currentTime | loadTail | readAll | append _ | sign _ => cases h

/-- Whether the host is handed an event of an open session. -/
def isOpened (s : Exchange Unit) (e : Event) : Bool := (sessionId e).any fun sid => (s.host.sessions sid).isSome

theorem isOpened_opened {s : Exchange Unit} {e : Event} (h : isOpened s e = true) : Opened s e none := by
  cases hsid : sessionId e with
  | none =>
    rw [isOpened, hsid] at h
    cases h
  | some sid =>
    rw [isOpened, hsid] at h
    exact ⟨sid, hsid, h, nofun⟩

/-- One task alone, whose session the host opens first; the host is unavailable to its attempt. -/
def refusedAnswers (s : Exchange Unit) : (q : ToolQuery) → Option (ToolReply reference q × Exchange Unit)
  | .now =>
    match openSession signingSession.sessionId s.host with
    | .ret (_, h) => some (ATTEMPT_TS, { s with host := h })
    | .ask _ _ => none
  | .take r => if s.held r = none then some (.ok (s.next r), s.tookBy () r) else none
  | .leave r next => some ((), s.left r next)
  | .sign key e n => some (.ok (stamp e key n (lit "c2ln")), s)
  | .sendAttempt e =>
    if isOpened s e && s.sent.all fun p => eventId p.2 != eventId e then
      match (handleAttempt reference signedHost e none none s.host).exec (hostAnswers false) s.store with
      | some ((.ok a, h), t) => some (.ok a, s.handled () e h t)
      | _ => none
    else none
  | .sendOutcome e =>
    if isOpened s e then
      match (recordOutcome reference signedHost e none s.host).exec (hostAnswers true) s.store with
      | some ((.ok _, h), t) => some (.ok (), s.handled () e h t)
      | _ => none
    else none
  | .verify _ _ _ => none
  | .body => none

theorem refusedAnswers_exchange (s : Exchange Unit) (q : ToolQuery) (x : ToolReply reference q) (s' : Exchange Unit)
    (h : refusedAnswers s q = some (x, s')) : exchange reference signedHost () s q x s' := by
  cases q with
  | now =>
    simp only [refusedAnswers] at h
    split at h
    · next y host hopen =>
      obtain ⟨rfl, rfl⟩ := Prod.mk.inj (Option.some.inj h)
      exact ⟨host, .single ⟨_, y, .inl hopen⟩, rfl⟩
    · cases h
  | take r =>
    simp only [refusedAnswers] at h
    split at h
    · next hfree =>
      obtain ⟨rfl, rfl⟩ := Prod.mk.inj (Option.some.inj h)
      exact ⟨s.host, .refl, rfl, hfree, rfl⟩
    · cases h
  | leave r next =>
    obtain ⟨_, rfl⟩ := Prod.mk.inj (Option.some.inj h)
    exact ⟨s.host, .refl, rfl⟩
  | sign key e n =>
    obtain ⟨rfl, rfl⟩ := Prod.mk.inj (Option.some.inj h)
    exact ⟨s.host, .refl, rfl, _, rfl⟩
  | sendAttempt e =>
    simp only [refusedAnswers] at h
    split at h
    · next hok =>
      simp only [Bool.and_eq_true, List.all_eq_true, bne_iff_ne, ne_eq] at hok
      split at h
      · next a host t hrun =>
        obtain ⟨rfl, rfl⟩ := Prod.mk.inj (Option.some.inj h)
        exact ⟨s.host, .refl, hok.2, none, none, a, host, t, isOpened_opened hok.1,
          Prog.exec_runs (hostAnswers_honest false) hrun, rfl, rfl⟩
      · cases h
    · cases h
  | sendOutcome e =>
    simp only [refusedAnswers] at h
    split at h
    · next hok =>
      split at h
      · next d host t hrun =>
        obtain ⟨rfl, rfl⟩ := Prod.mk.inj (Option.some.inj h)
        exact ⟨s.host, .refl, none, d, host, t, isOpened_opened hok, Prog.exec_runs (hostAnswers_honest true) hrun, rfl, rfl⟩
      · cases h
    · cases h
  | verify _ _ _ => cases h
  | body => cases h

def refusedRun : Option ((Except ToolRaise Unit × Option (AcceptResponse reference)) × Exchange Unit) :=
  ((signingAction FIRST_ID).run none).exec refusedAnswers .start

theorem every_number_accounted_one : ∃ S, Relation.ReflTransGen
      (Exchange.Step reference signedHost [signingSession]) ⟨.start, fun _ : Unit => none⟩ S ∧
    S.shared.sent.length = 2 ∧ (S.shared.events signedHost).length = 1 ∧
    unaccountedSignerSeq (S.shared.events signedHost) = .ok [] ∧
    ∀ a ∈ S.shared.host.anomalies, a.kind ≠ .replayDetected := by
  have hsome : refusedRun.isSome = true := by decide
  obtain ⟨⟨x, s⟩, hs⟩ := Option.isSome_iff_exists.1 hsome
  have hfacts : ∀ r ∈ refusedRun, r.2.sent.length = 2 ∧ (r.2.events signedHost).length = 1 ∧
      (r.2.sent.all fun p => isAttempt p.2 || (recordsOf signedHost r.2.host r.2.store).any fun a => a.event = p.2) = true ∧
      (r.2.sent.any fun p => !isAttempt p.2) = true := by
    decide
  obtain ⟨hsent, hevents, hsealed, hdone⟩ := hfacts _ hs
  simp only [List.all_eq_true, List.any_eq_true, Bool.or_eq_true, decide_eq_true_eq, Bool.not_eq_true'] at hsealed hdone
  have hborn : ActionOf reference [signingSession] ((signingAction FIRST_ID).run none) :=
    ⟨_, List.mem_singleton_self _, rfl⟩
  have hrun : Relation.ReflTransGen (Exchange.Step reference signedHost [signingSession]) ⟨.start, fun _ : Unit => none⟩ _ :=
    Pool.born_alone () rfl hborn (Prog.exec_runs refusedAnswers_exchange hs)
  refine ⟨_, hrun, hsent, hevents, every_number_accounted ?_ hrun ?_ ?_⟩
  · exact ⟨by decide, by decide, by decide⟩
  · exact fun p hp hout => (hsealed p hp).resolve_left (by rw [hout]; decide)
  · intro p _
    obtain ⟨q, hq, hout⟩ := hdone
    exact ⟨q, hq, rfl, hout⟩

end AuditableMcp
