import AuditableMcp.AuditBeforeAct
/-!
# Signer numbers

Any number of audited actions of Level-2 sessions over one `SessionNumbering`, interleaving at every await, any
of which may be cancelled. A transport may take an event, and still raise or be cancelled: what it took stays
with it (`Emissions.taken`).

The section advances the number only where it ends normally (`_numbering`, `session.py:154-172`: an emission
that raised never reached the host). It is left by a raise, the event taken, where `send_outcome` raises, or
`send_attempt` is cancelled or raises `AmcpUsageError`; any other fault of `send_attempt` is kept inside it.
-/
namespace AuditableMcp

open JsonValue Effect

variable {W : World} {ι : Type}

/-- A `SessionNumbering` and the transport behind it: the next number, the task holding the lock, and the
events taken. -/
structure Emissions (ι : Type) where
  next : Nat
  held : Option ι
  taken : List Event

def Emissions.start (n : Nat) : Emissions ι := ⟨n, none, []⟩

def Emissions.sent (e : Event) (s : Emissions ι) : Emissions ι := { s with taken := s.taken ++ [e] }

/-- The section is over; `next` is the number after it, if it moved. -/
def Emissions.left (next : Option Nat) (s : Emissions ι) : Emissions ι :=
  { s with next := next.getD s.next, held := none }

/-- What task `i` may be answered: a signer stamps the number it is given (`session.py:64-66`). -/
def numbered (i : ι) (s : Emissions ι) : (q : ToolQuery) → ToolReply W q → Emissions ι → Prop
  | .take _, x, s' =>
    (x = .ok s.next ∧ s.held = none ∧ s' = { s with held := some i }) ∨ (x = .error .cancelled ∧ s' = s)
  | .leave _ next, _, s' => s' = s.left next
  | .sign _ _ n, x, s' => s' = s ∧ ∀ e, x = .ok e → get e SIGNER_SEQ = some (.int n)
  | .sendAttempt e, _, s' => s' = s ∨ s' = s.sent e
  | .sendOutcome e, _, s' => s' = s ∨ s' = s.sent e
  | .verify _ _ _, _, s' => s' = s
  | .now, _, s' => s' = s
  | .body, _, s' => s' = s

/-- A send whose reply leaves the section by a raise. -/
def Escapes : (q : ToolQuery) → ToolReply W q → Prop
  | .sendAttempt _, x => x = .error .cancelled ∨ x = .error .usageError
  | .sendOutcome _, x => ∃ r, x = .error r
  | .now, _ => False
  | .take _, _ => False
  | .leave _ _, _ => False
  | .sign _ _ _, _ => False
  | .verify _ _ _, _ => False
  | .body, _ => False

/-- The answers of a transport that has not taken an event whose send leaves the section by a raise. -/
def orderly (i : ι) (s : Emissions ι) (q : ToolQuery) (x : ToolReply W q) (s' : Emissions ι) : Prop :=
  numbered i s q x s' ∧ (Escapes q x → s' = s)

/-! ## The invariant -/

/-- No event taken carries the next number. -/
def Emissions.Unused (s : Emissions ι) : Prop := ∀ e ∈ s.taken, get e SIGNER_SEQ ≠ some (.int s.next)

/-- The events taken are numbered apart, below the next number; the holder of the lock may have used it. -/
structure Emissions.Ok (s : Emissions ι) : Prop where
  apart : s.taken.Pairwise fun e e' => get e SIGNER_SEQ ≠ get e' SIGNER_SEQ
  below : ∀ e ∈ s.taken, ∃ n : Nat, get e SIGNER_SEQ = some (.int n) ∧ n ≤ s.next
  unused : s.held = none → s.Unused

/-- Nothing of the section moves while a task holds it. -/
def relies (i : ι) (s s' : Emissions ι) : Prop := s.held = some i → s' = s

/-- What a task asks of the section: the events it sends carry the number it holds, unused so far, and it gives
the number back only unused. -/
def mayAsk (i : ι) (s : Emissions ι) : ToolQuery → Prop
  | .leave _ next => s.held = some i ∧ (next = some (s.next + 1) ∨ (next = none ∧ s.Unused))
  | .sendAttempt e => s.held = some i ∧ s.Unused ∧ get e SIGNER_SEQ = some (.int s.next)
  | .sendOutcome e => s.held = some i ∧ s.Unused ∧ get e SIGNER_SEQ = some (.int s.next)
  | .now => True
  | .take _ => True
  | .sign _ _ _ => True
  | .verify _ _ _ => True
  | .body => True

theorem Emissions.Ok.sent {s : Emissions ι} (h : s.Ok) {i : ι} (hheld : s.held = some i) (hunused : s.Unused)
    {e : Event} (he : get e SIGNER_SEQ = some (.int s.next)) : (s.sent e).Ok where
  apart := by
    refine List.pairwise_append.2 ⟨h.apart, List.pairwise_singleton _ _, ?_⟩
    intro e' he' e'' he''
    obtain rfl := List.mem_singleton.1 he''
    rw [he]
    exact hunused e' he'
  below := by
    intro e' he'
    rcases List.mem_append.1 he' with he' | he'
    · exact h.below e' he'
    · obtain rfl := List.mem_singleton.1 he'
      exact ⟨s.next, he, le_rfl⟩
  unused := by
    intro hn
    have hsome : (s.sent e).held = some i := hheld
    rw [hsome] at hn
    cases hn

theorem Emissions.Ok.advanced {s : Emissions ι} (h : s.Ok) : (s.left (some (s.next + 1))).Ok where
  apart := h.apart
  below e he := by
    obtain ⟨n, hn, hle⟩ := h.below e he
    exact ⟨n, hn, Nat.le_succ_of_le hle⟩
  unused _ e he hnext := by
    obtain ⟨n, hn, hle⟩ := h.below e he
    rw [hn] at hnext
    simp only [left, Option.getD_some, Option.some.injEq, Json.int.injEq, Nat.cast_inj] at hnext
    omega

/-- One answer keeps the invariant, and disturbs no other task's section. -/
theorem numbered_step {i : ι} {s s' : Emissions ι} {q : ToolQuery} {x : ToolReply W q} (h : s.Ok) (hmay : mayAsk i s q)
    (hs : numbered i s q x s') : s'.Ok ∧ ∀ j, j ≠ i → relies j s s' := by
  -- where `i` holds the lock no other task does
  have hothers : s.held = some i → ∀ j, j ≠ i → relies j s s' := by
    intro hi j hj hheld
    rw [hi] at hheld
    exact (hj (Option.some.inj hheld).symm).elim
  have hsame : s' = s → s'.Ok ∧ ∀ j, j ≠ i → relies j s s' := by
    rintro rfl
    exact ⟨h, fun _ _ _ => rfl⟩
  cases q with
  | take _ =>
    rcases hs with ⟨_, hfree, rfl⟩ | ⟨_, rfl⟩
    · refine ⟨⟨h.apart, h.below, by rintro ⟨⟩⟩, fun j _ hheld => ?_⟩
      rw [hfree] at hheld
      cases hheld
    · exact hsame rfl
  | leave _ next =>
    obtain ⟨hi, hnext⟩ := hmay
    have hs' : s' = s.left next := hs
    refine ⟨?_, hothers hi⟩
    rcases hnext with rfl | ⟨rfl, hunused⟩
    · rw [hs']
      exact h.advanced
    · rw [hs']
      exact ⟨h.apart, h.below, fun _ => hunused⟩
  | sendAttempt e =>
    obtain ⟨hi, hunused, he⟩ := hmay
    rcases hs with hs | rfl
    · exact hsame hs
    · exact ⟨h.sent hi hunused he, hothers hi⟩
  | sendOutcome e =>
    obtain ⟨hi, hunused, he⟩ := hmay
    rcases hs with hs | rfl
    · exact hsame hs
    · exact ⟨h.sent hi hunused he, hothers hi⟩
  | sign _ _ _ => exact hsame hs.1
  | verify _ _ _ => exact hsame hs
  | now => exact hsame hs
  | body => exact hsame hs

/-! ## The actions keep it -/

/-- Task `i` among the others, its transport orderly. -/
abbrev among (W : World) (i : ι) : Setting ToolQuery (ToolReply W) (Emissions ι) :=
  .under Emissions.Ok (orderly i) (relies i) (mayAsk i)

section Actions

variable {i : ι} {a : AuditedAction} {l : Option (AcceptResponse W)} {s : Emissions ι}

/-- What an emission leaves its section in: the lock held, and the number unused where it raises. -/
def Leaves {α : Type} (i : ι) (n : Nat) (x : Except ToolRaise α) (s : Emissions ι) : Prop :=
  s.held = some i ∧ s.next = n ∧ ((∃ r, x = .error r) → s.Unused)

/-- The section asks what it may, if the emission inside leaves it so. -/
theorem keeps_numbering {α : Type} {session : AmcpSession} (hsign : session.signer.isSome = true)
    {m : Option Nat → ToolM W α} (h : ∀ l n s, s.held = some i → s.next = n → s.Unused →
      Act.wp (among W i) (m (some n)) (fun x _ s' => Leaves i n x s') l s) :
    Act.Keeps (among W i) (fun _ _ => True) (numbering session m) := by
  intro l s _
  obtain ⟨key, hkey⟩ := Option.isSome_iff_exists.1 hsign
  simp only [numbering, hkey]
  rw [Act.wp_bind, Act.wp_await]
  intro s₁ _
  refine ⟨trivial, ?_⟩
  rintro x s' ⟨hok, hnum, _⟩
  rcases hnum with ⟨rfl, hfree, rfl⟩ | ⟨rfl, rfl⟩
  · rw [Act.next_ok, Act.wp_bind, Act.wp_lift, Act.next_ok, Act.wp_bind, Act.wp_caught]
    refine Act.wp_mono ?_ (h l s₁.next _ rfl rfl (hok.unused hfree))
    rintro x l s' ⟨hheld, hnext, hunused⟩
    cases x with
    | ok y =>
      rw [Act.next_ok, Act.wp_bind, Act.wp_await]
      intro s₂ hrel
      obtain rfl := hrel hheld
      exact ⟨⟨hheld, .inl (by rw [hnext])⟩, fun _ _ _ => trivial⟩
    | error r =>
      rw [Act.next_ok, Act.wp_bind, Act.wp_await]
      intro s₂ hrel
      obtain rfl := hrel hheld
      exact ⟨⟨hheld, .inr ⟨rfl, hunused ⟨r, rfl⟩⟩⟩, fun _ _ _ => trivial⟩
  · trivial

/-- Building an event stays in the section, and numbers it. -/
theorem wp_build_numbered {o : Outcome} {n : Nat} {reason : Option Reason} (hsign : a.session.signer.isSome = true)
    (hheld : s.held = some i) : Act.wp (among W i) (a.build o (some n) reason)
      (fun x _ s' => s' = s ∧ ∀ e, x = .ok e → get e SIGNER_SEQ = some (.int n)) l s := by
  obtain ⟨key, hkey⟩ := Option.isSome_iff_exists.1 hsign
  unfold AuditedAction.build
  rw [Act.wp_bind, Act.wp_await]
  intro s₁ hrel
  obtain rfl := hrel hheld
  refine ⟨trivial, ?_⟩
  rintro ts s' ⟨_, hs', _⟩
  obtain rfl : s' = s₁ := hs'
  rw [Act.next_ok]
  split
  · simp only [stampWith, hkey]
    rw [Act.wp_bind, Act.wp_await]
    intro s₂ hrel
    obtain rfl := hrel hheld
    refine ⟨trivial, ?_⟩
    rintro x s' ⟨_, ⟨rfl, hx⟩, _⟩
    exact ⟨rfl, hx⟩
  · exact ⟨rfl, by rintro _ ⟨⟩⟩

theorem wp_sendAttempt_numbered {n : Nat} (hsign : a.session.signer.isSome = true) (hheld : s.held = some i)
    (hnext : s.next = n) (hunused : s.Unused) :
    Act.wp (among W i) (a.sendAttempt (some n)) (fun x _ s' => Leaves i n x s') l s := by
  unfold AuditedAction.sendAttempt
  rw [Act.wp_bind]
  refine Act.wp_mono ?_ (wp_build_numbered hsign hheld)
  rintro x l s' ⟨rfl, hx⟩
  cases x with
  | error r => exact ⟨hheld, hnext, fun _ => hunused⟩
  | ok e =>
    rw [Act.next_ok, Act.wp_bind, Act.wp_await]
    intro s₁ hrel
    obtain rfl := hrel hheld
    refine ⟨⟨hheld, hunused, by rw [hnext]; exact hx e rfl⟩, ?_⟩
    rintro y s' ⟨_, hs', hesc⟩
    have hkept : s'.held = some i ∧ s'.next = n := by
      rcases hs' with rfl | rfl
      · exact ⟨hheld, hnext⟩
      · exact ⟨hheld, hnext⟩
    rw [Act.next_ok]
    split
    · exact ⟨hkept.1, hkept.2, by rintro ⟨_, ⟨⟩⟩⟩
    · obtain rfl := hesc (.inl rfl)
      exact ⟨hheld, hnext, fun _ => hunused⟩
    · obtain rfl := hesc (.inr rfl)
      exact ⟨hheld, hnext, fun _ => hunused⟩
    · exact ⟨hkept.1, hkept.2, by rintro ⟨_, ⟨⟩⟩⟩

theorem keeps_emit {o : Outcome} {reason : Option Reason} (hsign : a.session.signer.isSome = true) :
    Act.Keeps (among W i) (fun _ _ => True) (a.emit o reason) := by
  refine keeps_numbering hsign fun l n s hheld hnext hunused => ?_
  rw [Act.wp_bind]
  refine Act.wp_mono ?_ (wp_build_numbered hsign hheld)
  rintro x l s' ⟨rfl, hx⟩
  cases x with
  | error r => exact ⟨hheld, hnext, fun _ => hunused⟩
  | ok e =>
    rw [Act.next_ok, Act.wp_bind, Act.wp_await]
    intro s₁ hrel
    obtain rfl := hrel hheld
    refine ⟨⟨hheld, hunused, by rw [hnext]; exact hx e rfl⟩, ?_⟩
    rintro y s' ⟨_, hs', hesc⟩
    rw [Act.next_ok, Act.wp_lift]
    cases y with
    | error r =>
      obtain rfl := hesc ⟨r, rfl⟩
      exact ⟨hheld, hnext, fun _ => hunused⟩
    | ok _ =>
      rcases hs' with rfl | rfl
      · exact ⟨hheld, hnext, by rintro ⟨_, ⟨⟩⟩⟩
      · exact ⟨hheld, hnext, by rintro ⟨_, ⟨⟩⟩⟩

theorem keeps_harmless {q : ToolQuery} (h : ∀ s : Emissions ι, mayAsk i s q) :
    Act.Keeps (among W i) (fun _ _ => True)
      (Act.await q : Act ToolQuery (ToolReply W) (Option (AcceptResponse W)) ToolRaise _) :=
  .await fun _ _ s₁ _ _ => ⟨h s₁, fun _ _ _ => trivial⟩

theorem keeps_swallow {m : ToolM W Unit} (h : Act.Keeps (among W i) (fun _ _ => True) m) :
    Act.Keeps (among W i) (fun _ _ => True) (AuditedAction.swallow m) := by
  refine .bind h.caught fun x => ?_
  split
  · exact .raise _
  · exact .pure _

theorem keeps_abort (hsign : a.session.signer.isSome = true) (reason : Reason) :
    Act.Keeps (among W i) (fun _ _ => True) (a.abort reason) :=
  .bind (keeps_swallow (keeps_emit hsign)) fun _ => .raise _

theorem keeps_orFault {α : Type} (x : Except Str α) :
    Act.Keeps (among W i) (fun _ _ => True) (orFault x : ToolM W α) := by
  cases x
  · exact .lift _
  · exact .lift _

theorem keeps_verification (r : AcceptFields) (signature : Str) :
    Act.Keeps (among W i) (fun _ _ => True) (AuditedAction.verification r signature) := by
  unfold AuditedAction.verification
  split
  · exact .bind (keeps_orFault _) fun _ => .bind (keeps_harmless fun _ => trivial) fun _ => .lift _
  · exact .pure _

theorem keeps_checkAccept (hsign : a.session.signer.isSome = true) (attempt : Event) (r : AcceptResponse W) :
    Act.Keeps (among W i) (fun _ _ => True) (a.checkAccept attempt r) := by
  refine .bind ?_ fun _ => .bind ?_ fun _ => .modify fun _ _ _ => trivial
  · unfold AuditedAction.checkCountersignature
    refine .ite (keeps_abort hsign _) ?_
    split
    · refine .bind (keeps_verification _ _) fun v => ?_
      cases v
      · exact .pure _
      · exact keeps_abort hsign _
      · exact keeps_abort hsign _
    · exact .pure _
  · unfold AuditedAction.checkRecordHash
    exact .ite (.bind (keeps_orFault _) fun _ => .ite (keeps_abort hsign _) (.pure _)) (.pure _)

/-- A whole action asks only what it may. -/
theorem keeps_run (hsign : a.session.signer.isSome = true) :
    Act.Keeps (among W i) (fun _ _ => True) (a.run : ToolM W Unit) := by
  have henter : Act.Keeps (among W i) (fun _ _ => True) (a.aenter : ToolM W Unit) := by
    refine .bind (keeps_numbering hsign fun l n s => wp_sendAttempt_numbered hsign) fun x => ?_
    split
    · exact keeps_abort hsign _
    · exact keeps_abort hsign _
    · exact keeps_abort hsign _
    · exact keeps_checkAccept hsign _ _
  refine .bind henter fun _ => .bind (keeps_harmless fun _ => trivial) fun x => ?_
  cases x with
  | ok _ => exact keeps_swallow (keeps_emit hsign)
  | error r => exact .bind (keeps_swallow (keeps_emit hsign)) fun _ => .raise r

end Actions

/-! ## Runs -/

variable [DecidableEq ι]

/-- An action of a Level-2 session over the shared numbering. -/
def LevelTwo (W : World) (ref : Nat)
    (p : Prog ToolQuery (ToolReply W) (Except ToolRaise Unit × Option (AcceptResponse W))) : Prop :=
  ∃ a : AuditedAction, a.session.signer.isSome = true ∧ a.session.numbering = ref ∧ p = a.run none

/-- One step of the actions: `transport` says what a send may do. -/
abbrev Emissions.Step (W : World) (ref : Nat)
    (transport : ι → Emissions ι → (q : ToolQuery) → ToolReply W q → Emissions ι → Prop) :=
  @Pool.StepAt ToolQuery (ToolReply W) (Emissions ι) (Except ToolRaise Unit × Option (AcceptResponse W)) ι _
    transport (LevelTwo W ref) (fun _ _ => False)

omit [DecidableEq ι] in
theorem Emissions.start_ok (n : Nat) : (Emissions.start n : Emissions ι).Ok :=
  ⟨.nil, fun _ h => absurd h List.not_mem_nil, fun _ _ h => absurd h List.not_mem_nil⟩

omit [DecidableEq ι] in
theorem numbering_guarantee (W : World) (ref : Nat) :
    GuaranteeAt (fun i : ι => orderly i) relies mayAsk (LevelTwo W ref) (fun _ _ => False) Emissions.Ok fun _ _ _ => True where
  trans i s s₁ s₂ h h' hi := by
    obtain rfl := h hi
    exact h' hi
  refl _ _ _ := rfl
  loc _ _ _ _ _ _ := trivial
  step hI hmay hs := numbered_step hI hmay hs.1
  born := by
    rintro i s p _ ⟨a, hsign, _, rfl⟩
    exact keeps_run hsign none s trivial
  ops _ _ h := h.elim

/-- **Signer numbers are not reused** by an orderly transport: the events it took are numbered apart. -/
theorem signer_numbers_apart {ref n : Nat} {S : Pool ToolQuery (ToolReply W) (Emissions ι)
      (Except ToolRaise Unit × Option (AcceptResponse W)) ι}
    (hrun : Relation.ReflTransGen (Emissions.Step W ref orderly) ⟨.start n, fun _ => none⟩ S) :
    S.shared.taken.Pairwise fun e e' => get e SIGNER_SEQ ≠ get e' SIGNER_SEQ :=
  (pool_ok (numbering_guarantee W ref) (Emissions.start_ok n) hrun).1.apart

/-! ## A number used twice -/

/-- The sample session, signing. -/
def signingSession : AmcpSession :=
  { sampleSession with
    signer := some (lit "tool-1")
    stop_of_signer := fun _ => rfl }

/-- An operation of it. -/
def signingAction (id : Str) : AuditedAction where
  session := signingSession
  id := id
  actionType := lit "write"
  target := ⟨lit "file", lit "a", none⟩
  mutates := true
  egress := false
  disclose := none
  commitHash := none
  saltedHash := none

def FIRST_ID : Str := lit "11111111-1111-4111-8111-111111111111"
def SECOND_ID : Str := lit "33333333-3333-4333-8333-333333333333"

def signedWire (id : Str) (o : Outcome) (r : Option Reason) (n : Nat) : Event :=
  stamp ((signingAction id).wire o r ATTEMPT_TS) (lit "tool-1") n (lit "c2ln")

omit [DecidableEq ι] in
theorem signingAction_builds (i : ι) (s : Emissions ι) {id : Str} (hid : id ∈ [FIRST_ID, SECOND_ID]) {o : Outcome}
    {r : Option Reason} (hor : (o, r) ∈ [(Outcome.attempted, none), (.aborted, some Reason.hostUnavailable)]) (n : Nat)
    (l : Option (AcceptResponse reference)) :
    Runs (orderly i) ((signingAction id).build o (some n) r l) s (.ok (signedWire id o r n), l) s := by
  have hvalid : ∀ id ∈ [FIRST_ID, SECOND_ID], ∀ m ∈ [(Outcome.attempted, none), (.aborted, some Reason.hostUnavailable)],
      validAuditEvent reference (.obj ((signingAction id).wire m.1 m.2 ATTEMPT_TS)) = true := by decide
  refine build_runs rfl (hvalid id hid _ hor) ⟨rfl, False.elim⟩ ⟨⟨rfl, ?_⟩, False.elim⟩
  rintro e' ⟨⟩
  exact get_stamp_signerSeq ..

omit [DecidableEq ι] in
/-- An attempt the transport takes, its action cancelled while it waits for the answer. -/
theorem cancelled_runs {id : Str} (hid : id ∈ [FIRST_ID, SECOND_ID]) (i : ι) {s : Emissions ι} (hfree : s.held = none) :
    Runs (numbered i) ((signingAction id).run (none : Option (AcceptResponse reference))) s (.error .cancelled, none)
      ((s.sent (signedWire id .attempted none s.next)).left none) := by
  have hbuild : Runs (numbered i) ((signingAction id).build .attempted (some s.next) none none) { s with held := some i }
      (.ok (signedWire id .attempted none s.next), (none : Option (AcceptResponse reference))) { s with held := some i } :=
    (signingAction_builds i _ hid (by decide) s.next none).mono fun _ _ _ _ h => h.1
  have htaken : @numbered reference ι i { s with held := some i } (.sendAttempt (signedWire id .attempted none s.next))
      (.error .cancelled) { s.sent (signedWire id .attempted none s.next) with held := some i } := .inr rfl
  have hsend : Runs (numbered i) ((signingAction id).sendAttempt (some s.next) (none : Option (AcceptResponse reference)))
      { s with held := some i } (.error .cancelled, none)
      { s.sent (signedWire id .attempted none s.next) with held := some i } :=
    Act.runs_bind hbuild (.ask htaken (.ret _ _))
  have hsection : Runs (numbered i) (numbering signingSession (signingAction id).sendAttempt none) s
      (.error .cancelled, none) ((s.sent (signedWire id .attempted none s.next)).left none) :=
    numbering_runs rfl (.inl ⟨rfl, hfree, rfl⟩) hsend rfl
  exact Runs.bind (Runs.bind hsection (.ret _ _)) (.ret _ _)

/-- Two different events under one number: the first action is cancelled while it waits for its answer, its
attempt taken, and the next one is given the number again. -/
theorem signer_number_reused : ∃ S, Relation.ReflTransGen (Emissions.Step reference 0 (fun i : Bool => numbered i))
      ⟨.start 0, fun _ => none⟩ S ∧ ∃ e ∈ S.shared.taken, ∃ e' ∈ S.shared.taken, e ≠ e' ∧
        get e SIGNER_SEQ = get e' SIGNER_SEQ ∧ get e SIGNER_SEQ = some (.int 0) := by
  have hfirst : Relation.ReflTransGen (Emissions.Step reference 0 (fun i : Bool => numbered i)) ⟨.start 0, fun _ => none⟩ _ :=
    Pool.born_alone false rfl ⟨signingAction FIRST_ID, rfl, rfl, rfl⟩ (cancelled_runs (by decide) false rfl)
  have hsecond := hfirst.trans (Pool.born_alone true rfl ⟨signingAction SECOND_ID, rfl, rfl, rfl⟩
    (cancelled_runs (by decide) true rfl))
  have hseq : ∀ id, get (signedWire id .attempted none 0) SIGNER_SEQ = some (.int 0) := fun id => get_stamp_signerSeq ..
  refine ⟨_, hsecond, signedWire FIRST_ID .attempted none 0, .head _, signedWire SECOND_ID .attempted none 0,
    .tail _ (.head _), ?_, ?_, hseq _⟩
  · decide
  · rw [hseq, hseq]

/-! ## Numbers of an orderly transport -/

/-- The sections of an action whose attempt the transport took and then failed: the attempt, and the outcome
that records it. -/
def Emissions.faulted (id : Str) (n : Nat) (s : Emissions ι) : Emissions ι :=
  (((s.sent (signedWire id .attempted none n)).left (some (n + 1))).sent
    (signedWire id .aborted (some .hostUnavailable) (n + 1))).left (some (n + 2))

omit [DecidableEq ι] in
theorem faulted_runs {id : Str} (hid : id ∈ [FIRST_ID, SECOND_ID]) (i : ι) {s : Emissions ι} (hfree : s.held = none) :
    Runs (orderly i) ((signingAction id).run (none : Option (AcceptResponse reference))) s
      (.error (.aborted (lit "write") (lit "a") .hostUnavailable), none) (s.faulted id s.next) := by
  have hentered : ∀ s : Emissions ι, s.held = none →
      @orderly reference ι i s (.take 0) (.ok s.next) { s with held := some i } :=
    fun s h => ⟨.inl ⟨rfl, h, rfl⟩, False.elim⟩
  have hsent : @orderly reference ι i { s with held := some i } (.sendAttempt (signedWire id .attempted none s.next))
      (.error .fault) { s.sent (signedWire id .attempted none s.next) with held := some i } :=
    ⟨.inr rfl, by rintro (h | h) <;> cases h⟩
  have hattempt : Runs (orderly i) (numbering signingSession (signingAction id).sendAttempt none) s
      (.ok (signedWire id .attempted none s.next, none), (none : Option (AcceptResponse reference)))
      ((s.sent (signedWire id .attempted none s.next)).left (some (s.next + 1))) :=
    numbering_runs rfl (hentered s hfree)
      (Act.runs_bind (signingAction_builds i _ hid (by decide) s.next none) (.ask hsent (.ret _ _))) ⟨rfl, False.elim⟩
  have hout : @orderly reference ι i
      { (s.sent (signedWire id .attempted none s.next)).left (some (s.next + 1)) with held := some i }
      (.sendOutcome (signedWire id .aborted (some .hostUnavailable) (s.next + 1))) (.ok ())
      { ((s.sent (signedWire id .attempted none s.next)).left (some (s.next + 1))).sent
        (signedWire id .aborted (some .hostUnavailable) (s.next + 1)) with held := some i } :=
    ⟨.inr rfl, by rintro ⟨r, h⟩; cases h⟩
  have hemit : Runs (orderly i) ((signingAction id).emit .aborted (some .hostUnavailable) none)
      ((s.sent (signedWire id .attempted none s.next)).left (some (s.next + 1)))
      (.ok (), (none : Option (AcceptResponse reference))) (s.faulted id s.next) :=
    numbering_runs rfl (hentered _ rfl)
      (Act.runs_bind (signingAction_builds i _ hid (by decide) (s.next + 1) none) (.ask hout (.ret _ _)))
      ⟨rfl, False.elim⟩
  have habort : Runs (orderly i) ((signingAction id).abort .hostUnavailable none)
      ((s.sent (signedWire id .attempted none s.next)).left (some (s.next + 1)))
      (.error (.aborted (lit "write") (lit "a") .hostUnavailable), (none : Option (AcceptResponse reference)))
      (s.faulted id s.next) :=
    Runs.bind (Runs.bind (Runs.bind hemit (.ret _ _)) (.ret _ _)) (.ret _ _)
  exact Runs.bind (Runs.bind hattempt habort) (.ret _ _)

theorem signer_numbers_apart_sample : ∃ S, Relation.ReflTransGen
      (Emissions.Step reference 0 (fun i : Bool => orderly i)) ⟨.start 0, fun _ => none⟩ S ∧
    S.shared.taken.length = 4 ∧ S.shared.taken.Pairwise fun e e' => get e SIGNER_SEQ ≠ get e' SIGNER_SEQ := by
  have hfirst : Relation.ReflTransGen (Emissions.Step reference 0 (fun i : Bool => orderly i)) ⟨.start 0, fun _ => none⟩ _ :=
    Pool.born_alone false rfl ⟨signingAction FIRST_ID, rfl, rfl, rfl⟩ (faulted_runs (by decide) false rfl)
  have hsecond := hfirst.trans (Pool.born_alone true rfl ⟨signingAction SECOND_ID, rfl, rfl, rfl⟩
    (faulted_runs (by decide) true rfl))
  exact ⟨_, hsecond, rfl, signer_numbers_apart hsecond⟩

end AuditableMcp
