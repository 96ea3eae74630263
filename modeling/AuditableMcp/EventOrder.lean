import AuditableMcp.ToolSeam
import Mathlib.Data.List.Range
/-!
# The events of a call go out in order, once (`mcp/seam.py:971-1072`, `:1321-1424`)

What the seam keeps of a call's events (`EventBooks`): those buffered, those sent, the attempts that wait for a round,
and the rounds that are out. `Kept` says that what was sent and what is buffered are together a sublist of what was
emitted, with every outcome in it, and that an attempt in neither has been answered unavailable. Each of the seam's
functions keeps it, under the caller's promise that an attempt's id is fresh (`events_in_order`).
-/
namespace AuditableMcp

open JsonValue

/-- The attempts among the emissions. -/
def attemptsIn (events : List Emission) : List Nat := events.filterMap Emission.attempt

/-- The outcomes among them. -/
def outcomesIn (events : List Emission) : List Emission := events.filter fun e => !isAttempt e.event

@[simp] theorem attemptsIn_append (l m : List Emission) : attemptsIn (l ++ m) = attemptsIn l ++ attemptsIn m :=
  List.filterMap_append

@[simp] theorem outcomesIn_append (l m : List Emission) : outcomesIn (l ++ m) = outcomesIn l ++ outcomesIn m :=
  List.filter_append ..

@[simp] theorem outcomesIn_outcomesIn (l : List Emission) : outcomesIn (outcomesIn l) = outcomesIn l :=
  List.filter_filter .. |>.trans (by simp [outcomesIn])

theorem outcomesIn_sublist (l : List Emission) : (outcomesIn l).Sublist l := List.filter_sublist

/-- What the books have of a call. -/
structure CallEvents where
  modern : Bool
  ended : Bool
  dropped : Bool
  buffered : List Emission
  awaiting : Dict Str Nat
  emitted : List Emission
  sent : List Emission

structure EventBooks (W : World) where
  calls : Nat → CallEvents
  callCount : Nat
  attempts : Nat → PendingAttempt W
  attemptCount : Nat
  rounds : Dict Str (Nat × OpenRound)
  pending : Dict RequestId Nat

/-- The dictionary lists attempts among the events, each under its id. -/
def Awaited (W : World) (awaiting : Dict Str Nat) (events : List Emission) : Prop :=
  ∀ id a, awaiting.get id = some a → ∃ e ∈ events, e.attempt = some a ∧ ToolSeam.idText W e.event = id

theorem awaited_empty {W : World} (events : List Emission) : Awaited W .empty events := by
  intro id a hget
  cases hget

/-- Its sender was told it is unavailable, or will be. -/
def PendingAttempt.Unavailable {W : World} (a : PendingAttempt W) : Prop :=
  a.returned = some .unavailable ∨ a.returned = none ∧ a.response = some .unavailable

/-- Nothing has answered it yet. -/
def PendingAttempt.Unanswered {W : World} (a : PendingAttempt W) : Prop := a.returned = none ∧ a.response = none

namespace EventBooks

variable {W : World} {b : EventBooks W}

/-- What holds of the events of one call. -/
structure CallKept (attempts : Nat → PendingAttempt W) (attemptCount c : Nat) (x : CallEvents) : Prop where
  places : x.emitted.map Emission.place = List.range x.emitted.length
  made : ∀ a ∈ attemptsIn x.emitted, a < attemptCount ∧ (attempts a).call = c ∧ (attempts a).requestId = none
  distinct : (attemptsIn x.emitted).Nodup
  order : (x.sent ++ x.buffered).Sublist x.emitted
  outcomes : outcomesIn (x.sent ++ x.buffered) = outcomesIn x.emitted
  awaiting : ∀ a ∈ x.awaiting.values, a ∈ attemptsIn x.buffered
  flushed : x.modern = true → x.ended = true → x.dropped = false → x.buffered = []
  answered : x.modern = true → ∀ a < attemptCount, (attempts a).call = c →
    a ∈ attemptsIn x.sent ∨ (attempts a).Unavailable ∨ (attempts a).Unanswered ∧ a ∈ x.awaiting.values

structure Kept (b : EventBooks W) : Prop where
  calls : ∀ c, CallKept b.attempts b.attemptCount c (b.calls c)
  round : ∀ token c r, b.rounds.get token = some (c, r) → ∀ a ∈ r.awaiting.values, a ∈ attemptsIn (b.calls c).sent
  pending : ∀ id a, b.pending.get id = some a → a < b.attemptCount ∧ (b.attempts a).requestId = some id
  owner : ∀ a < b.attemptCount, (b.attempts a).call < b.callCount
  unopened : ∀ c, b.callCount ≤ c → (b.calls c).emitted = []

/-- An attempt that was sent waits in no buffer. -/
theorem CallKept.sent_not_awaiting {attempts : Nat → PendingAttempt W} {n c : Nat} {x : CallEvents}
    (h : CallKept attempts n c x) {a : Nat} (hsent : a ∈ attemptsIn x.sent) : a ∉ x.awaiting.values := by
  intro hwaits
  have hnodup : (attemptsIn (x.sent ++ x.buffered)).Nodup := h.distinct.sublist (h.order.filterMap _)
  rw [attemptsIn_append] at hnodup
  exact (List.nodup_append.1 hnodup).2.2 a hsent a (h.awaiting a hwaits) rfl

theorem CallKept.made_sent {attempts : Nat → PendingAttempt W} {n c : Nat} {x : CallEvents}
    (h : CallKept attempts n c x) {a : Nat} (hsent : a ∈ attemptsIn x.sent) : (attempts a).call = c :=
  (h.made a (((List.sublist_append_left _ _).trans h.order).filterMap _ |>.subset hsent)).2.1

theorem CallKept.made_awaiting {attempts : Nat → PendingAttempt W} {n c : Nat} {x : CallEvents}
    (h : CallKept attempts n c x) {a : Nat} (hwaits : a ∈ x.awaiting.values) : (attempts a).requestId = none :=
  (h.made a (((List.sublist_append_right _ _).trans h.order).filterMap _ |>.subset (h.awaiting a hwaits))).2.2

/-- The attempts a call waits for are among those that wait for its next round. -/
def Carries (b : EventBooks W) : Prop := ∀ c, Awaited W (b.calls c).awaiting (b.calls c).buffered

/-! ## Answers -/

/-- Attempts are answered so that none that waits in a buffer hears of more than unavailability. -/
structure Answers (b : EventBooks W) (attempts : Nat → PendingAttempt W) : Prop where
  call : ∀ a, (attempts a).call = (b.attempts a).call
  requestId : ∀ a, (attempts a).requestId = (b.attempts a).requestId
  unavailable : ∀ a, (b.attempts a).Unavailable → (attempts a).Unavailable
  unanswered : ∀ a, a ∈ (b.calls (b.attempts a).call).awaiting.values → (b.attempts a).Unanswered →
    (attempts a).Unavailable ∨ (attempts a).Unanswered

theorem Kept.answer (h : b.Kept) {attempts : Nat → PendingAttempt W} (ha : b.Answers attempts) :
    ({ b with attempts } : EventBooks W).Kept := by
  refine ⟨?_, h.round, ?_, ?_, h.unopened⟩
  · intro c
    have hc := h.calls c
    refine ⟨hc.places, ?_, hc.distinct, hc.order, hc.outcomes, hc.awaiting, hc.flushed, ?_⟩
    · intro a hmem
      rw [ha.call, ha.requestId]
      exact hc.made a hmem
    · intro hmodern a hlt hcall
      have hcall : (b.attempts a).call = c := (ha.call a).symm.trans hcall
      rcases hc.answered hmodern a hlt hcall with hsent | hun | ⟨hun, hwaits⟩
      · exact .inl hsent
      · exact .inr (.inl (ha.unavailable a hun))
      · subst hcall
        rcases ha.unanswered a hwaits hun with hun | hun
        · exact .inr (.inl hun)
        · exact .inr (.inr ⟨hun, hwaits⟩)
  · intro id a hget
    exact ⟨(h.pending id a hget).1, (ha.requestId a).trans (h.pending id a hget).2⟩
  · intro a hlt
    exact (ha.call a).symm ▸ h.owner a hlt

end EventBooks

theorem PendingAttempt.Unavailable.settle {W : World} {a : PendingAttempt W} (h : a.Unavailable)
    (r : AttemptResponse W) : (a.settle r).Unavailable := by
  rcases h with h | ⟨hreturned, hresponse⟩
  · exact .inl ((settle_returned r a).trans h)
  · exact .inr ⟨(settle_returned r a).trans hreturned, by rw [settle_response, hresponse]; rfl⟩

theorem PendingAttempt.Unanswered.settle {W : World} {a : PendingAttempt W} (h : a.Unanswered) :
    (a.settle .unavailable).Unavailable :=
  .inr ⟨(settle_returned _ a).trans h.1, by rw [settle_response, h.2]; rfl⟩

namespace EventBooks

variable {W : World} {b : EventBooks W}

theorem settleAll_call (answers : List (Nat × AttemptResponse W)) (attempts : Nat → PendingAttempt W) (a : Nat) :
    (settleAll answers attempts a).call = (attempts a).call := by
  rw [settleAll_apply]
  cases answers.lookup a <;> simp

theorem settleAll_requestId (answers : List (Nat × AttemptResponse W)) (attempts : Nat → PendingAttempt W) (a : Nat) :
    (settleAll answers attempts a).requestId = (attempts a).requestId := by
  rw [settleAll_apply]
  cases answers.lookup a <;> simp

/-- The answers go to none that waits in a buffer, or say that it is unavailable. -/
theorem Answers.settleAll {answers : List (Nat × AttemptResponse W)}
    (h : ∀ a r, (a, r) ∈ answers → a ∈ (b.calls (b.attempts a).call).awaiting.values → r = .unavailable) :
    b.Answers (settleAll answers b.attempts) := by
  refine ⟨settleAll_call _ _, settleAll_requestId _ _, ?_, ?_⟩
  · intro a hun
    rw [settleAll_apply]
    cases answers.lookup a with
    | none => exact hun
    | some r => exact hun.settle r
  · intro a hwaits hun
    rw [settleAll_apply]
    cases hlookup : answers.lookup a with
    | none => exact .inr hun
    | some r =>
      obtain ⟨before, after, rfl, -⟩ := List.lookup_eq_some_iff.1 hlookup
      obtain rfl := h a r (by simp) hwaits
      exact .inl hun.settle

theorem mem_unanswered {l : List Nat} {a : Nat} {r : AttemptResponse W}
    (h : (a, r) ∈ ToolSeam.unanswered l) : a ∈ l ∧ r = .unavailable := by
  obtain ⟨k, hk, heq⟩ := List.mem_map.1 h
  obtain ⟨rfl, rfl⟩ := Prod.mk.injEq .. ▸ heq
  exact ⟨hk, rfl⟩

theorem lookup_unanswered {l : List Nat} {a : Nat} (h : a ∈ l) :
    (ToolSeam.unanswered l : List (Nat × AttemptResponse W)).lookup a = some .unavailable := by
  induction l with
  | nil => cases h
  | cons k l ih =>
    simp only [ToolSeam.unanswered, List.map_cons, List.lookup_cons]
    by_cases hk : a = k
    · simp [hk]
    · have hka : (a == k) = false := beq_false_of_ne hk
      rw [hka]
      exact ih ((List.mem_cons.1 h).resolve_left hk)

theorem Kept.unavailable (h : b.Kept) (l : List Nat) :
    ({ b with attempts := settleAll (ToolSeam.unanswered l) b.attempts } : EventBooks W).Kept :=
  h.answer (.settleAll fun _ _ ha _ => (mem_unanswered ha).2)

/-- The answers of a round go to the attempts it carried. -/
theorem Kept.round_answers (h : b.Kept) {token : Str} {c : Nat} {r : OpenRound}
    (hround : b.rounds.get token = some (c, r)) (answer : Str → AttemptResponse W) :
    ({ b with attempts := settleAll (r.awaiting.items.map fun e => (e.2, answer e.1)) b.attempts } :
      EventBooks W).Kept := by
  refine h.answer (.settleAll fun a response ha hwaits => absurd hwaits ?_)
  obtain ⟨e, he, heq⟩ := List.mem_map.1 ha
  have hsent : a ∈ attemptsIn (b.calls c).sent := by
    refine h.round token c r hround a (List.mem_map.2 ⟨e, he, ?_⟩)
    exact congrArg Prod.fst heq
  rw [(h.calls c).made_sent hsent]
  exact (h.calls c).sent_not_awaiting hsent

/-- An answer on a request id goes to an attempt that was given one. -/
theorem Kept.pending_answer (h : b.Kept) {id : RequestId} {a : Nat} (hpending : b.pending.get id = some a)
    (r : AttemptResponse W) : ({ b with attempts := settleAll [(a, r)] b.attempts } : EventBooks W).Kept := by
  refine h.answer (.settleAll fun k response hk hwaits => absurd hwaits ?_)
  obtain ⟨rfl, -⟩ := Prod.mk.injEq .. ▸ List.mem_singleton.1 hk
  intro hwaits
  have hnone := ((h.calls _).made_awaiting hwaits).symm.trans (h.pending id k hpending).2
  cases hnone

def setAttempt (a : Nat) (p : PendingAttempt W) (b : EventBooks W) : EventBooks W :=
  { b with attempts := Function.update b.attempts a p }

/-- An attempt whose wait ended is told what answered it, if anything did. -/
theorem Kept.returns (h : b.Kept) {a : Nat} (hwaits : (b.attempts a).returned = none) {place : Nat} :
    (b.setAttempt a
      (((b.attempts a).settle .unavailable).done ((b.attempts a).response.getD .unavailable) place)).Kept := by
  have hother : ∀ k, k ≠ a → Function.update b.attempts a
      (((b.attempts a).settle .unavailable).done ((b.attempts a).response.getD .unavailable) place) k = b.attempts k :=
    fun k hk => Function.update_of_ne hk _ _
  refine h.answer ⟨?_, ?_, ?_, ?_⟩
  · intro k
    by_cases hk : k = a
    · subst hk
      simp [PendingAttempt.done]
    · rw [hother k hk]
  · intro k
    by_cases hk : k = a
    · subst hk
      simp [PendingAttempt.done]
    · rw [hother k hk]
  · intro k hun
    by_cases hk : k = a
    · subst hk
      rw [Function.update_self]
      rcases hun with hun | ⟨-, hun⟩
      · rw [hwaits] at hun
        cases hun
      · exact .inl (by simp [PendingAttempt.done, hun])
    · rw [hother k hk]
      exact hun
  · intro k _ hun
    by_cases hk : k = a
    · subst hk
      rw [Function.update_self]
      exact .inl (.inl (by simp [PendingAttempt.done, hun.2]))
    · rw [hother k hk]
      exact .inr hun

/-- One that could not be sent is told that it is unavailable. -/
theorem Kept.fails (h : b.Kept) {a place : Nat} :
    (b.setAttempt a ((b.attempts a).done .unavailable place)).Kept := by
  have hother : ∀ k, k ≠ a → Function.update b.attempts a ((b.attempts a).done .unavailable place) k = b.attempts k :=
    fun k hk => Function.update_of_ne hk _ _
  refine h.answer ⟨?_, ?_, ?_, ?_⟩
  · intro k
    by_cases hk : k = a
    · subst hk
      simp [PendingAttempt.done]
    · rw [hother k hk]
  · intro k
    by_cases hk : k = a
    · subst hk
      simp [PendingAttempt.done]
    · rw [hother k hk]
  · intro k hun
    by_cases hk : k = a
    · subst hk
      rw [Function.update_self]
      exact .inl rfl
    · rw [hother k hk]
      exact hun
  · intro k _ hun
    by_cases hk : k = a
    · subst hk
      rw [Function.update_self]
      exact .inl (.inl rfl)
    · rw [hother k hk]
      exact .inr hun

/-- Rounds and pending requests go. -/
theorem Kept.forget (h : b.Kept) (rounds : Dict Str (Nat × OpenRound)) (pending : Dict RequestId Nat)
    (hrounds : ∀ token c r, rounds.get token = some (c, r) → b.rounds.get token = some (c, r))
    (hpending : ∀ id a, pending.get id = some a → b.pending.get id = some a) :
    ({ b with rounds, pending } : EventBooks W).Kept :=
  ⟨h.calls, fun token c r hget => h.round token c r (hrounds token c r hget),
    fun id a hget => h.pending id a (hpending id a hget), h.owner, h.unopened⟩

/-! ## Events -/

def setCall (c : Nat) (x : CallEvents) (b : EventBooks W) : EventBooks W :=
  { b with calls := Function.update b.calls c x }

theorem Carries.setCall (h : b.Carries) {c : Nat} {x : CallEvents} (hx : Awaited W x.awaiting x.buffered) :
    (b.setCall c x).Carries := by
  intro d
  by_cases hd : d = c
  · subst hd
    simpa [EventBooks.setCall] using hx
  · simpa [EventBooks.setCall, hd] using h d

theorem setCall_setCall (c : Nat) (x y : CallEvents) : (b.setCall c x).setCall c y = b.setCall c y :=
  congrArg (fun calls => { b with calls }) (Function.update_idem _ _ _)

/-- One call changes; what it sent stays sent. -/
theorem Kept.setCall (h : b.Kept) {c : Nat} {x : CallEvents} (hx : CallKept b.attempts b.attemptCount c x)
    (hsent : ∀ a ∈ attemptsIn (b.calls c).sent, a ∈ attemptsIn x.sent) (hopen : b.callCount ≤ c → x.emitted = []) :
    (b.setCall c x).Kept := by
  refine ⟨?_, ?_, h.pending, h.owner, ?_⟩
  · intro d
    by_cases hd : d = c
    · subst hd
      simpa [EventBooks.setCall] using hx
    · simpa [EventBooks.setCall, hd] using h.calls d
  · intro token d r hget a ha
    have hold := h.round token d r hget a ha
    by_cases hd : d = c
    · subst hd
      simpa [EventBooks.setCall] using hsent a hold
    · simpa [EventBooks.setCall, hd] using hold
  · intro d hd
    by_cases hdc : d = c
    · subst hdc
      simpa [EventBooks.setCall] using hopen hd
    · simpa [EventBooks.setCall, hdc] using h.unopened d hd

/-- No attempt of the call is left without an answer but those it sent. -/
def Flushed (b : EventBooks W) (c : Nat) : Prop :=
  (b.calls c).modern = true → ∀ a < b.attemptCount, (b.attempts a).call = c →
    a ∈ attemptsIn (b.calls c).sent ∨ (b.attempts a).Unavailable

/-- So it is once all that wait in its buffer are answered. -/
theorem Kept.flushed (h : b.Kept) {c : Nat} {l : List Nat} (hl : ∀ a ∈ (b.calls c).awaiting.values, a ∈ l) :
    ({ b with attempts := settleAll (ToolSeam.unanswered l) b.attempts } : EventBooks W).Flushed c := by
  intro hmodern a hlt hcall
  rw [settleAll_call] at hcall
  rcases (h.calls c).answered hmodern a hlt hcall with hsent | hun | ⟨hun, hwaits⟩
  · exact .inl hsent
  · refine .inr ?_
    dsimp only
    rw [settleAll_apply]
    cases (ToolSeam.unanswered l : List (Nat × AttemptResponse W)).lookup a with
    | none => exact hun
    | some r => exact hun.settle r
  · refine .inr ?_
    dsimp only
    rw [settleAll_apply, lookup_unanswered (hl a hwaits)]
    exact hun.settle

/-- The outcomes that are left go with the final result, or wait for a round. -/
theorem CallKept.outcomes_left {attempts : Nat → PendingAttempt W} {n c : Nat} {x : CallEvents}
    (h : CallKept attempts n c x) : (x.sent ++ outcomesIn x.buffered).Sublist x.emitted ∧
      outcomesIn (x.sent ++ outcomesIn x.buffered) = outcomesIn x.emitted := by
  refine ⟨((List.Sublist.refl _).append (outcomesIn_sublist _)).trans h.order, ?_⟩
  rw [← h.outcomes]
  simp

theorem Kept.keepOutcomes (h : b.Kept) {c : Nat} (hflushed : b.Flushed c) :
    (b.setCall c { b.calls c with buffered := outcomesIn (b.calls c).buffered, awaiting := .empty }).Kept := by
  have hc := h.calls c
  obtain ⟨horder, houtcomes⟩ := hc.outcomes_left
  refine h.setCall ⟨hc.places, hc.made, hc.distinct, horder, houtcomes, nofun, ?_, ?_⟩ (fun _ ha => ha) (h.unopened c)
  · intro hmodern hended hdropped
    simp [hc.flushed hmodern hended hdropped, outcomesIn]
  · intro hmodern a hlt hcall
    exact (hflushed hmodern a hlt hcall).imp_right .inl

theorem Kept.conclude (h : b.Kept) {c : Nat} (hflushed : b.Flushed c) :
    (b.setCall c { b.calls c with
      ended := true
      buffered := []
      awaiting := .empty
      sent := (b.calls c).sent ++ outcomesIn (b.calls c).buffered }).Kept := by
  have hc := h.calls c
  obtain ⟨horder, houtcomes⟩ := hc.outcomes_left
  refine h.setCall ⟨hc.places, hc.made, hc.distinct, ?_, ?_, nofun, fun _ _ _ => rfl, ?_⟩ ?_ (h.unopened c)
  · simpa using horder
  · simpa using houtcomes
  · intro hmodern a hlt hcall
    refine (hflushed hmodern a hlt hcall).imp ?_ .inl
    intro hsent
    rw [attemptsIn_append]
    exact List.mem_append_left _ hsent
  · intro a hsent
    rw [attemptsIn_append]
    exact List.mem_append_left _ hsent

theorem Kept.drop (h : b.Kept) {c : Nat} (hflushed : b.Flushed c) :
    (b.setCall c { b.calls c with ended := true, dropped := true, awaiting := .empty }).Kept := by
  have hc := h.calls c
  refine h.setCall ⟨hc.places, hc.made, hc.distinct, hc.order, hc.outcomes, nofun, nofun, ?_⟩ (fun _ ha => ha)
    (h.unopened c)
  intro hmodern a hlt hcall
  exact (hflushed hmodern a hlt hcall).imp_right .inl

/-- A call under the other binding ends. -/
theorem Kept.close (h : b.Kept) {c : Nat} (hlegacy : (b.calls c).modern = false) :
    (b.setCall c { b.calls c with ended := true }).Kept := by
  have hc := h.calls c
  refine h.setCall ⟨hc.places, hc.made, hc.distinct, hc.order, hc.outcomes, hc.awaiting, ?_, hc.answered⟩
    (fun _ ha => ha) (h.unopened c)
  intro hmodern
  rw [hlegacy] at hmodern
  cases hmodern

/-- What is buffered goes out as a round. -/
theorem Kept.sendRound (h : b.Kept) (c : Nat) (token : Str) :
    ({ b.setCall c { b.calls c with
        buffered := []
        awaiting := .empty
        sent := (b.calls c).sent ++ (b.calls c).buffered } with
      rounds := b.rounds.set token (c, ⟨token, (b.calls c).awaiting⟩) } : EventBooks W).Kept := by
  have hc := h.calls c
  have hsent : ∀ a ∈ attemptsIn (b.calls c).sent, a ∈ attemptsIn ((b.calls c).sent ++ (b.calls c).buffered) := by
    intro a ha
    rw [attemptsIn_append]
    exact List.mem_append_left _ ha
  have hwaits : ∀ a ∈ (b.calls c).awaiting.values, a ∈ attemptsIn ((b.calls c).sent ++ (b.calls c).buffered) := by
    intro a ha
    rw [attemptsIn_append]
    exact List.mem_append_right _ (hc.awaiting a ha)
  have hset := h.setCall (x := { b.calls c with
      buffered := []
      awaiting := .empty
      sent := (b.calls c).sent ++ (b.calls c).buffered }) (c := c)
    ⟨hc.places, hc.made, hc.distinct, by simpa using hc.order, by simpa using hc.outcomes, nofun, fun _ _ _ => rfl, ?_⟩
    hsent (h.unopened c)
  · refine ⟨hset.calls, ?_, hset.pending, hset.owner, hset.unopened⟩
    intro other d r hget a ha
    rw [Dict.get_set] at hget
    split at hget
    · obtain ⟨rfl, rfl⟩ := Prod.mk.injEq .. ▸ Option.some.inj hget
      simpa [EventBooks.setCall] using hwaits a ha
    · exact hset.round other d r hget a ha
  · intro hmodern a hlt hcall
    rcases hc.answered hmodern a hlt hcall with ha | hun | ⟨-, ha⟩
    · exact .inl (hsent a ha)
    · exact .inr (.inl hun)
    · exact .inl (hwaits a ha)

/-- The places of the emissions are told apart by one more. -/
theorem places_concat {l : List Emission} (h : l.map Emission.place = List.range l.length) (event : Event)
    (attempt : Option Nat) :
    (l ++ [Emission.mk l.length event attempt]).map Emission.place =
      List.range (l ++ [Emission.mk l.length event attempt]).length := by
  rw [List.map_append, h, List.length_append, List.length_singleton, List.range_succ]
  rfl

theorem Kept.emit (h : b.Kept) {c : Nat} (hc : c < b.callCount) (event : Event)
    (hover : (b.calls c).modern = true → (b.calls c).ended = true → (b.calls c).dropped = true) :
    (b.setCall c { b.calls c with
      buffered := (b.calls c).buffered ++ [⟨(b.calls c).emitted.length, event, none⟩]
      emitted := (b.calls c).emitted ++ [⟨(b.calls c).emitted.length, event, none⟩] }).Kept := by
  have hcall := h.calls c
  have hsame : ∀ l, attemptsIn (l ++ [⟨(b.calls c).emitted.length, event, none⟩]) = attemptsIn l := by
    intro l
    simp [attemptsIn]
  refine h.setCall ⟨places_concat hcall.places event none, ?_, ?_, ?_, ?_, ?_, ?_, hcall.answered⟩ (fun _ ha => ha) ?_
  · intro a ha
    rw [hsame] at ha
    exact hcall.made a ha
  · rw [hsame]
    exact hcall.distinct
  · rw [← List.append_assoc]
    exact hcall.order.append (.refl _)
  · rw [← List.append_assoc, outcomesIn_append, outcomesIn_append _ [_], hcall.outcomes]
  · intro a ha
    rw [hsame]
    exact hcall.awaiting a ha
  · intro hmodern hended hdropped
    have htrue := hover hmodern hended
    rw [hdropped] at htrue
    cases htrue
  · intro hle
    omega

/-- An attempt is made: it is its call's, and another call's is no concern of this one. -/
theorem CallKept.other {n c : Nat} {x : CallEvents} (h : CallKept b.attempts n c x) {p : PendingAttempt W}
    (hp : p.call = c → x.modern = true → p.Unavailable) :
    CallKept (Function.update b.attempts n p) (n + 1) c x := by
  have hold : ∀ a < n, Function.update b.attempts n p a = b.attempts a := fun a ha =>
    Function.update_of_ne (Nat.ne_of_lt ha) _ _
  refine ⟨h.places, ?_, h.distinct, h.order, h.outcomes, h.awaiting, h.flushed, ?_⟩
  · intro a ha
    obtain ⟨hlt, hcall⟩ := h.made a ha
    rw [hold a hlt]
    exact ⟨Nat.lt_succ_of_lt hlt, hcall⟩
  · intro hmodern a hlt hcall
    by_cases ha : a = n
    · subst ha
      rw [Function.update_self] at hcall ⊢
      exact .inr (.inl (hp hcall hmodern))
    · have hlt : a < n := Nat.lt_of_le_of_ne (Nat.le_of_lt_succ hlt) ha
      rw [hold a hlt] at hcall ⊢
      exact h.answered hmodern a hlt hcall

/-- An attempt that joins no buffer. -/
theorem Kept.attempt (h : b.Kept) {p : PendingAttempt W} (hcall : p.call < b.callCount)
    (hp : (b.calls p.call).modern = true → p.Unavailable) {pending : Dict RequestId Nat}
    (hpending : ∀ id a, pending.get id = some a →
      b.pending.get id = some a ∨ a = b.attemptCount ∧ p.requestId = some id) :
    ({ b.setAttempt b.attemptCount p with attemptCount := b.attemptCount + 1, pending } : EventBooks W).Kept := by
  refine ⟨?_, h.round, ?_, ?_, h.unopened⟩
  · intro c
    exact (h.calls c).other fun hc => hc ▸ hp
  · intro id a hget
    rcases hpending id a hget with hold | ⟨rfl, hid⟩
    · obtain ⟨hlt, hold⟩ := h.pending id a hold
      exact ⟨Nat.lt_succ_of_lt hlt, by simpa [setAttempt, Nat.ne_of_lt hlt] using hold⟩
    · exact ⟨Nat.lt_succ_self _, by simpa [setAttempt] using hid⟩
  · intro a hlt
    by_cases ha : a = b.attemptCount
    · subst ha
      simpa [setAttempt] using hcall
    · have hlt : a < b.attemptCount := Nat.lt_of_le_of_ne (Nat.le_of_lt_succ hlt) ha
      simpa [setAttempt, ha] using h.owner a hlt

/-- An attempt joins its call's buffer, under an id that no other waits under. -/
theorem CallKept.ask {n c : Nat} {x : CallEvents} (h : CallKept b.attempts n c x) {p : PendingAttempt W}
    (hp : p.call = c) (hid : p.requestId = none) (hun : p.Unanswered) (event : Event) {id : Str}
    (hfresh : x.awaiting.get id = none) (hover : x.ended = false) :
    CallKept (Function.update b.attempts n p) (n + 1) c { x with
      buffered := x.buffered ++ [⟨x.emitted.length, event, some n⟩]
      awaiting := x.awaiting.set id n
      emitted := x.emitted ++ [⟨x.emitted.length, event, some n⟩] } := by
  have hold : ∀ a < n, Function.update b.attempts n p a = b.attempts a := fun a ha =>
    Function.update_of_ne (Nat.ne_of_lt ha) _ _
  have hadd : ∀ l, attemptsIn (l ++ [⟨x.emitted.length, event, some n⟩]) = attemptsIn l ++ [n] := by
    intro l
    simp [attemptsIn]
  have hnew : n ∉ attemptsIn x.emitted := fun hmem => Nat.lt_irrefl _ (h.made n hmem).1
  -- no entry is replaced, so those that waited still do
  have hset : ∀ a, a ∈ (x.awaiting.set id n).values ↔ a ∈ x.awaiting.values ∨ a = n := by
    intro a
    constructor
    · intro ha
      obtain ⟨e, he, rfl⟩ := List.mem_map.1 ha
      have hget := Dict.get_eq_some.2 he
      rw [Dict.get_set] at hget
      split at hget
      · exact .inr (Option.some.inj hget).symm
      · exact .inl (List.mem_map.2 ⟨e, Dict.get_eq_some.1 hget, rfl⟩)
    · rintro (ha | rfl)
      · obtain ⟨⟨k, a⟩, he, rfl⟩ := List.mem_map.1 ha
        have hget := Dict.get_eq_some.2 he
        have hk : k ≠ id := by
          rintro rfl
          rw [hfresh] at hget
          cases hget
        exact List.mem_map.2 ⟨(k, a), Dict.get_eq_some.1 ((Dict.get_set_ne _ hk _).trans hget), rfl⟩
      · exact List.mem_map.2 ⟨(id, a), Dict.get_eq_some.1 (Dict.get_set_self _ _ _), rfl⟩
  refine ⟨places_concat h.places event (some n), ?_, ?_, ?_, ?_, ?_, ?_, ?_⟩
  · intro a ha
    rw [hadd, List.mem_append, List.mem_singleton] at ha
    rcases ha with ha | rfl
    · obtain ⟨hlt, hcall⟩ := h.made a ha
      rw [hold a hlt]
      exact ⟨Nat.lt_succ_of_lt hlt, hcall⟩
    · rw [Function.update_self]
      exact ⟨Nat.lt_succ_self _, hp, hid⟩
  · rw [hadd]
    refine List.nodup_append.2 ⟨h.distinct, List.nodup_singleton n, ?_⟩
    rintro a ha k hk rfl
    exact hnew (List.mem_singleton.1 hk ▸ ha)
  · rw [← List.append_assoc]
    exact h.order.append (.refl _)
  · rw [← List.append_assoc, outcomesIn_append, outcomesIn_append _ [_], h.outcomes]
  · intro a ha
    rw [hadd, List.mem_append, List.mem_singleton]
    exact ((hset a).1 ha).imp_left (h.awaiting a)
  · intro _ hended
    rw [hover] at hended
    cases hended
  · intro hmodern a hlt hcall
    by_cases ha : a = n
    · subst ha
      rw [Function.update_self]
      exact .inr (.inr ⟨hun, (hset a).2 (.inr rfl)⟩)
    · have hlt : a < n := Nat.lt_of_le_of_ne (Nat.le_of_lt_succ hlt) ha
      rw [hold a hlt] at hcall ⊢
      refine (h.answered hmodern a hlt hcall).imp_right (Or.imp_right ?_)
      exact fun hwaits => ⟨hwaits.1, (hset a).2 (.inl hwaits.2)⟩

theorem Kept.ask (h : b.Kept) {p : PendingAttempt W} (hc : p.call < b.callCount) (hid : p.requestId = none)
    (hun : p.Unanswered) (event : Event) {id : Str} (hfresh : (b.calls p.call).awaiting.get id = none)
    (hover : (b.calls p.call).ended = false) :
    ({ (b.setAttempt b.attemptCount p).setCall p.call { b.calls p.call with
        buffered := (b.calls p.call).buffered ++ [⟨(b.calls p.call).emitted.length, event, some b.attemptCount⟩]
        awaiting := (b.calls p.call).awaiting.set id b.attemptCount
        emitted := (b.calls p.call).emitted ++ [⟨(b.calls p.call).emitted.length, event, some b.attemptCount⟩] } with
      attemptCount := b.attemptCount + 1 } : EventBooks W).Kept := by
  have hold : ∀ a < b.attemptCount, Function.update b.attempts b.attemptCount p a = b.attempts a := fun a ha =>
    Function.update_of_ne (Nat.ne_of_lt ha) _ _
  refine ⟨?_, ?_, ?_, ?_, ?_⟩
  · intro c
    by_cases hcp : c = p.call
    · subst hcp
      simpa [setAttempt, EventBooks.setCall] using (h.calls p.call).ask rfl hid hun event hfresh hover
    · have hother := (h.calls c).other (p := p) fun heq => absurd heq.symm hcp
      simpa [setAttempt, EventBooks.setCall, hcp] using hother
  · intro token c r hget a ha
    have hsent := h.round token c r hget a ha
    by_cases hcp : c = p.call
    · subst hcp
      simpa [setAttempt, EventBooks.setCall] using hsent
    · simpa [setAttempt, EventBooks.setCall, hcp] using hsent
  · intro id a hget
    obtain ⟨hlt, hreq⟩ := h.pending id a hget
    exact ⟨Nat.lt_succ_of_lt hlt, (congrArg _ (hold a hlt)).trans hreq⟩
  · intro a hlt
    by_cases ha : a = b.attemptCount
    · subst ha
      simpa [setAttempt, EventBooks.setCall] using hc
    · have hlt : a < b.attemptCount := Nat.lt_of_le_of_ne (Nat.le_of_lt_succ hlt) ha
      exact (congrArg _ (hold a hlt)).trans_lt (h.owner a hlt)
  · intro c hc'
    have hcp : c ≠ p.call := by
      rintro rfl
      exact Nat.lt_irrefl _ (Nat.lt_of_lt_of_le hc hc')
    simpa [setAttempt, EventBooks.setCall, hcp] using h.unopened c hc'

/-- A call opens. -/
theorem Kept.open (h : b.Kept) (modern : Bool) :
    ({ b.setCall b.callCount ⟨modern, false, false, [], .empty, [], []⟩ with callCount := b.callCount + 1 } :
      EventBooks W).Kept := by
  have hnone : ∀ a < b.attemptCount, (b.attempts a).call ≠ b.callCount := fun a ha =>
    Nat.ne_of_lt (h.owner a ha)
  have hempty : (b.calls b.callCount).sent = [] := by
    have horder := (h.calls b.callCount).order
    rw [h.unopened b.callCount le_rfl, List.sublist_nil, List.append_eq_nil_iff] at horder
    exact horder.1
  have hset := h.setCall (c := b.callCount) (x := ⟨modern, false, false, [], .empty, [], []⟩)
    ⟨rfl, nofun, List.nodup_nil, .refl _, rfl, nofun, nofun, fun _ a ha hc => absurd hc (hnone a ha)⟩
    (by rw [hempty]; exact fun _ ha => ha) fun _ => rfl
  exact ⟨hset.calls, hset.round, hset.pending, fun a ha => Nat.lt_succ_of_lt (h.owner a ha),
    fun c hc => hset.unopened c (Nat.le_of_succ_le hc)⟩

end EventBooks

/-! ## The seam keeps the events -/

def ToolCall.events (call : ToolCall) : CallEvents :=
  ⟨call.modern, call.ended, call.dropped, call.buffered, call.bufferedAwaiting, call.emitted, call.sent⟩

namespace ToolSeam

variable {W : World} {s s' : ToolSeam W} {C : SeamConfig}

def events (s : ToolSeam W) : EventBooks W where
  calls := ToolCall.events ∘ s.calls
  callCount := s.callCount
  attempts := s.attempts
  attemptCount := s.attemptCount
  rounds := s.rounds
  pending := s.pending

theorem events_updateCall (s : ToolSeam W) (c : Nat) (f : ToolCall → ToolCall) :
    (s.updateCall c f).events = s.events.setCall c (f (s.calls c)).events :=
  congrArg (fun calls => { s.events with calls }) (Function.comp_update _ _ _ _)

theorem events_updateCall_same (s : ToolSeam W) (c : Nat) (f : ToolCall → ToolCall)
    (hf : (f (s.calls c)).events = (s.calls c).events) : (s.updateCall c f).events = s.events := by
  rw [events_updateCall, hf]
  exact congrArg (fun calls => { s.events with calls }) (Function.update_eq_self c (ToolCall.events ∘ s.calls))

theorem events_evictIdle (turns : Nat) : (s.evictIdle turns).events = s.events := by
  induction turns generalizing s with
  | zero => rfl
  | succ turns ih =>
    simp only [evictIdle]
    split
    · rfl
    · split
      · exact ih
      · rfl

theorem events_release (final : Bool) (c : Nat) : (s.release final c).events = s.events := by
  unfold release
  split
  · rfl
  · next g _ =>
    have hless : ((s.updateCall c .release).updateSession g fun a => { a with live := a.live - 1 }).events = s.events :=
      events_updateCall_same s c .release rfl
    dsimp only
    split
    · rfl
    · split
      · exact hless
      · split
        · exact hless
        · exact (events_evictIdle _).trans hless

theorem kept_endCall (h : s.events.Kept) (c : Nat) : (s.endCall c).events.Kept := by
  have hwaits : ∀ a ∈ (s.events.calls c).awaiting.values, a ∈ s.awaited c := fun a ha =>
    List.mem_append_right _ (List.mem_append_right _ ha)
  have hdropped := (h.unavailable (s.awaited c)).drop (h.flushed hwaits)
  have hforget := hdropped.forget
    ((s.calls c).round.elim s.rounds fun r => s.rounds.pop r.token)
    (s.pending.popAll ((s.pending.items.filter fun p => (s.attempts p.2).call == c).map Prod.fst)) ?_ ?_
  · unfold endCall
    rw [events_release]
    have hcalls := Function.comp_update ToolCall.events s.calls c (s.calls c).drop
    simp only [events, updateCall, hcalls]
    exact hforget
  · intro token d r hget
    cases hround : (s.calls c).round with
    | none =>
      rw [hround] at hget
      exact hget
    | some out =>
      rw [hround] at hget
      exact Dict.get_of_pop hget
  · intro id a hget
    exact Dict.get_of_popAll hget

theorem kept_evictWaiting (turns : Nat) (h : s.events.Kept) : (s.evictWaiting turns).events.Kept := by
  induction turns generalizing s with
  | zero => exact h
  | succ turns ih =>
    simp only [evictWaiting]
    split
    · exact h
    · split
      · exact ih (kept_endCall h _)
      · exact h

theorem kept_keepWaiting (h : s.events.Kept) (frame : Frame) (c : Nat) : (s.keepWaiting frame c).events.Kept := by
  have hparked : (s.updateCall c (·.park frame)).events = s.events := events_updateCall_same s c (·.park frame) rfl
  refine kept_evictWaiting _ ?_
  exact (hparked ▸ h : (s.updateCall c (·.park frame)).events.Kept)

theorem kept_finalFrame (h : s.events.Kept) (frame : Frame) (c : Nat) : (s.finalFrame frame c).1.events.Kept := by
  have hwaits : ∀ a ∈ (s.events.calls c).awaiting.values, a ∈ (s.calls c).bufferedAwaiting.values := fun _ ha => ha
  have hsettled := h.unavailable (s.calls c).bufferedAwaiting.values
  have hflushed := h.flushed hwaits
  have hconclude : ∀ outcomes, outcomes = outcomesIn (s.calls c).buffered →
      (((s.settle (unanswered (s.calls c).bufferedAwaiting.values)).updateCall c (·.keepOnly [])).concludeWaiting
        outcomes c).events.Kept := by
    rintro _ rfl
    have hevents : ∀ t : ToolSeam W, ((t.updateCall c (·.keepOnly [])).concludeWaiting (outcomesIn (s.calls c).buffered)
        c).events = t.events.setCall c ((t.calls c).keepOnly [] |>.conclude (outcomesIn (s.calls c).buffered)).events := by
      intro t
      refine (events_updateCall _ c (·.conclude (outcomesIn (s.calls c).buffered))).trans ?_
      rw [events_updateCall, EventBooks.setCall_setCall]
      simp [updateCall]
    rw [hevents]
    exact hsettled.conclude hflushed
  unfold finalFrame
  split
  · exact h
  · dsimp only
    split
    · split
      · next hnone => exact hconclude [] (List.isEmpty_iff.1 hnone).symm
      · have hscheduled : ∀ t : ToolSeam W, (t.scheduleRound c).events = t.events := fun t =>
          events_updateCall_same t c .schedule rfl
        rw [hscheduled]
        refine kept_keepWaiting ?_ _ c
        rw [events_updateCall]
        exact hsettled.keepOutcomes hflushed
    · exact hconclude _ rfl
    · exact h

theorem kept_finish (h : s.events.Kept) (frame : Frame) (c : Nat) : (s.finish frame c).1.events.Kept := by
  have hleft : (s.release (!!concludes frame) c).events.Kept := (events_release _ c).symm ▸ h
  unfold finish
  dsimp only
  split
  · next hlegacy =>
    rw [events_updateCall]
    have hmodern : ((s.release (!!concludes frame) c).events.calls c).modern = false := by
      rw [events_release]
      exact (Bool.not_eq_true' _).mp hlegacy
    exact hleft.close hmodern
  · split
    · next r _ => exact kept_keepWaiting (hleft.unavailable r.awaiting.values) frame c
    · exact kept_finalFrame hleft frame c

theorem kept_outbound (h : s.events.Kept) (frame : Frame) : (s.outbound C frame).1.events.Kept := by
  have hanswer : ∀ id, (outbound.answer frame s id).1.events.Kept := by
    intro id
    unfold outbound.answer
    split
    · exact h
    · split
      · next c _ =>
        have hfinished : (s.updateCall c .finish).events = s.events := events_updateCall_same s c .finish rfl
        refine kept_finish ?_ frame c
        exact (hfinished ▸ h : (s.updateCall c .finish).events.Kept)
      · exact h
  unfold outbound
  split
  · split
    · exact h
    · exact hanswer _
  · exact hanswer _
  · exact h

theorem kept_deliverFinal (h : s.events.Kept) (frame : Frame) (c : Nat) : (s.deliverFinal frame c).events.Kept := by
  have hfinal := kept_finalFrame h frame c
  unfold deliverFinal
  split
  · next heq =>
    rw [heq] at hfinal
    exact hfinal
  · next heq =>
    rw [heq] at hfinal
    exact hfinal

theorem kept_retry (h : s.events.Kept) (id : RequestId) (params : Members) (token : Str) :
    (s.retry id params token).events.Kept := by
  unfold retry
  split
  · exact h
  · next c r hround =>
    have hanswered := (h.round_answers hround fun event =>
      ((s.responsesTo params c).lookup event).getD .unavailable).forget (s.rounds.pop token)
        s.pending (fun _ _ _ => Dict.get_of_pop) fun _ _ hget => hget
    have haccepted : ({ s with
        rounds := s.rounds.pop token
        resumed := s.resumed ++ [(token, s.inbox.length)] }.acceptRetry id params c r).events.Kept := by
      unfold acceptRetry
      rw [events_updateCall_same _ c (·.resumeOn id) rfl]
      exact hanswered
    dsimp only
    split
    · exact kept_deliverFinal haccepted _ c
    · exact haccepted

theorem events_joinSession (declared : Option AuditCapability) (name : Str) :
    (s.joinSession declared name).events = s.events := by
  have hfound : (s.findSession declared name).events = s.events := by
    unfold findSession
    cases s.tracked.get name <;> rfl
  unfold joinSession
  dsimp only
  split <;> exact hfound

theorem kept_openCall (h : s.events.Kept) (id : RequestId) (params : Members) (ownSessionId : Str) :
    (s.openCall C id params ownSessionId).events.Kept := by
  have hjoined : ((sessionNamed W params).elim s fun name => s.joinSession (s.declaredBy C params) name).events =
      s.events := by
    cases sessionNamed W params with
    | none => rfl
    | some name => exact events_joinSession _ _
  unfold openCall
  dsimp only
  generalize (sessionNamed W params).elim s (fun name => s.joinSession (s.declaredBy C params) name) = joined at hjoined
  rw [← hjoined] at h
  have hopened := h.open (isModern C.modernVersions params)
  simp only [events, enrol, Function.comp_update]
  exact hopened

theorem kept_takeCall (h : s.events.Kept) (id : RequestId) (method : Str) (params : Option Members)
    (ownSessionId : Str) : (s.takeCall C id method params ownSessionId).1.events.Kept := by
  unfold takeCall
  split
  · exact kept_retry h id _ _
  · exact kept_openCall h id _ ownSessionId

theorem kept_cancel (h : s.events.Kept) (params : Option Members) : (s.cancel params).1.events.Kept := by
  unfold cancel
  dsimp only
  split
  · exact h
  · next c _ =>
    have hdropped : ((s.endCall c).updateCall c (·.cancel s.out.length)).events.Kept := by
      rw [events_updateCall_same _ c (·.cancel s.out.length) rfl]
      exact kept_endCall h c
    split
    · exact hdropped
    · exact hdropped

theorem kept_inbound (h : s.events.Kept) (frame : Frame) (ownSessionId : Str) :
    (s.inbound C frame ownSessionId).1.events.Kept := by
  have hanswer : ∀ id, (s.answerAttempt id frame).1.events.Kept := by
    intro id
    unfold answerAttempt
    split
    · split
      · exact h
      · next a hpending =>
        exact (h.pending_answer hpending (decision frame)).forget _ _ (fun _ _ _ hget => hget) fun _ _ => Dict.get_of_pop
    · exact h
  cases frame with
  | request id method params =>
    simp only [inbound]
    split
    · exact h
    · split
      · exact kept_takeCall h id method params ownSessionId
      · exact h
  | notification method params =>
    simp only [inbound]
    split
    · exact kept_cancel h params
    · exact h
  | response id result => exact hanswer id
  | error id code message =>
    cases id with
    | none => exact h
    | some id => exact hanswer id

/-- The caller's promise: an attempt's id is fresh. -/
def freshId (s : ToolSeam W) : Act → Bool
  | .attempt c event => ((s.calls c).bufferedAwaiting.get (idText W event)).isNone
  | _ => true

theorem kept_sendAttempt (h : s.events.Kept) {event : Event} {c : Nat} (hc : c < s.callCount)
    (hfresh : s.freshId (.attempt c event) = true) : (s.sendAttempt event c).events.Kept := by
  have hfresh : (s.calls c).bufferedAwaiting.get (idText W event) = none := Option.isNone_iff_eq_none.1 hfresh
  unfold sendAttempt
  dsimp only
  split
  · exact h.attempt hc (fun _ => .inl rfl) fun _ _ hget => .inl hget
  · next hover =>
    have hended : (s.calls c).ended = false := by
      rw [ToolCall.isOver, Bool.or_eq_true, not_or] at hover
      exact Bool.eq_false_iff.2 hover.2
    split
    · rw [events_updateCall]
      exact h.ask (p := { call := c, event, requestId := none, since := s.inbox.length }) hc rfl ⟨rfl, rfl⟩ event hfresh
        hended
    · next hlegacy =>
      refine h.attempt (p := { call := c, event, requestId := some (newId s.nextId), since := s.inbox.length }) hc
        (fun hmodern => absurd hmodern hlegacy) ?_
      intro id a hget
      change (s.pending.set _ _).get id = some a at hget
      rw [Dict.get_set] at hget
      split at hget
      · next heq => exact .inr ⟨(Option.some.inj hget).symm, congrArg some (eq_of_beq heq).symm⟩
      · exact .inl hget

theorem events_answered (r : AttemptResponse W) (id : Str) (call : ToolCall) :
    (call.answered r id).events = call.events := by
  unfold ToolCall.answered
  split
  · split <;> rfl
  · rfl

theorem kept_resume (h : s.events.Kept) {a : Nat} (hwaits : (s.attempts a).returned = none) :
    (s.resume a).events.Kept := by
  unfold resume
  dsimp only
  rw [events_updateCall_same _ _ (·.answered _ _) (events_answered _ _ _)]
  refine (h.returns hwaits).forget _ _ (fun _ _ _ hget => hget) ?_
  intro id k hget
  split at hget
  · exact hget
  · cases hid : (s.attempts a).requestId with
    | none =>
      rw [hid] at hget
      exact hget
    | some own =>
      rw [hid] at hget
      exact Dict.get_of_pop hget

theorem kept_sendFails (h : s.events.Kept) (a : Nat) (id : RequestId) : (s.sendFails a id).events.Kept :=
  h.fails.forget _ _ (fun _ _ _ hget => hget) fun _ _ => Dict.get_of_pop

theorem kept_sendOutcome (h : s.events.Kept) (event : Event) {c : Nat} (hc : c < s.callCount) :
    (s.sendOutcome event c).events.Kept := by
  have hleft : (s.updateCall c (·.concluded (idText W event))).events.Kept := by
    rw [events_updateCall_same _ c (·.concluded _) rfl]
    exact h
  unfold sendOutcome
  dsimp only
  split
  · exact hleft
  · next hover =>
    have hended : (s.calls c).ended = false := by
      rw [ToolCall.isOver, Bool.or_eq_true, not_or] at hover
      exact Bool.eq_false_iff.2 hover.2
    split
    · have hemit := h.emit hc event fun _ hend => absurd hend (by simp [events, ToolCall.events, hended])
      rw [events_updateCall, events_updateCall_same _ c (·.concluded _) rfl]
      simpa [updateCall, ToolCall.concluded, ToolCall.emit, events, ToolCall.events] using hemit
    · exact hleft

theorem kept_endRound (h : s.events.Kept) (token : Str) (c : Nat) : (s.endRound token c).events.Kept := by
  have hbegun : (s.updateCall c .beginRound).events = s.events := events_updateCall_same s c .beginRound rfl
  unfold endRound
  dsimp only
  split
  · exact hbegun ▸ h
  · split
    · exact hbegun ▸ h
    · have hround := h.sendRound c token
      have hevents := events_updateCall (s.updateCall c .beginRound) c (·.sendRound token)
      have hcall : (s.updateCall c .beginRound).calls c = (s.calls c).beginRound := Function.update_self _ _ _
      rw [hbegun, hcall] at hevents
      have hsent : ∀ t : ToolSeam W, t.events = s.events.setCall c ((s.calls c).beginRound.sendRound token).events →
          ∀ frame issued, (({ t with
            rounds := s.rounds.set token (c, ⟨token, (s.calls c).bufferedAwaiting⟩)
            issued } : ToolSeam W).sendFrame frame).events.Kept := by
        intro t ht frame issued
        have hcount : ({ t.events with
            rounds := s.rounds.set token (c, ⟨token, (s.calls c).bufferedAwaiting⟩) } : EventBooks W).Kept := by
          rw [ht]
          exact hround
        exact hcount
      exact hsent _ hevents _ _

/-! ## What the frames carry -/

theorem eventsOf_resultMeta (session : Str) (events : List Emission) (others result : Members) :
    eventsOf (Dict.assign META (.obj (Dict.assign EXTENSION_ID (resultMeta session events) others)) result) =
      events.map fun e => .obj e.event := by
  have hmeta : metaOf (Dict.assign META (.obj (Dict.assign EXTENSION_ID (resultMeta session events) others)) result) =
      Dict.assign EXTENSION_ID (resultMeta session events) others := by
    rw [metaOf, get_assign, beq_self_eq_true, if_pos rfl]
  rw [eventsOf, hmeta, get_assign, beq_self_eq_true, if_pos rfl]
  rfl

theorem sent_endCall (k c : Nat) : ((s.endCall k).events.calls c).sent = (s.events.calls c).sent := by
  unfold endCall
  rw [events_release]
  by_cases hc : c = k
  · subst hc
    simp [events, ToolCall.events, ToolCall.drop, updateCall]
  · simp [events, ToolCall.events, updateCall, hc]

theorem sent_keepWaiting (frame : Frame) (k c : Nat) :
    ((s.keepWaiting frame k).events.calls c).sent = (s.events.calls c).sent := by
  have hevict : ∀ (turns : Nat) (t : ToolSeam W), ((t.evictWaiting turns).events.calls c).sent = (t.events.calls c).sent := by
    intro turns
    induction turns with
    | zero => exact fun _ => rfl
    | succ turns ih =>
      intro t
      simp only [evictWaiting]
      split
      · rfl
      · split
        · rw [ih, sent_endCall]
        · rfl
  have hparked : (s.updateCall k (·.park frame)).events = s.events := events_updateCall_same s k (·.park frame) rfl
  refine (hevict _ _).trans ?_
  exact congrArg (fun b => (b.calls c).sent) hparked

/-- A round's frame carries what is added to the events the call has sent. -/
theorem endRound_carries (token : Str) (c : Nat) :
    ∃ (events : List Emission) (frames : List Frame) (rounds : List IssuedRound),
      ((s.endRound token c).calls c).sent = (s.calls c).sent ++ events ∧
        (s.endRound token c).queue = s.queue ++ frames.map (⟨·, false⟩) ∧
          (s.endRound token c).issued = s.issued ++ rounds ∧ rounds.flatMap IssuedRound.carried = events ∧
            frames.flatMap frameEvents = events.map fun e => .obj e.event := by
  have hbegun : ((s.updateCall c .beginRound).calls c).sent = (s.calls c).sent := by
    simp [updateCall, ToolCall.beginRound]
  have hnothing : ((s.updateCall c .beginRound).calls c).sent = (s.calls c).sent ++ [] := by
    rw [hbegun, List.append_nil]
  unfold endRound
  dsimp only
  split
  · exact ⟨[], [], [], hnothing, (List.append_nil _).symm, (List.append_nil _).symm, rfl, rfl⟩
  · next id _ =>
    split
    · exact ⟨[], [], [], hnothing, (List.append_nil _).symm, (List.append_nil _).symm, rfl, rfl⟩
    · refine ⟨(s.calls c).buffered, [_], [_], ?_, rfl, rfl, List.flatMap_singleton .., ?_⟩
      · simp [sendFrame, updateCall, ToolCall.sendRound, ToolCall.beginRound]
      · rw [List.flatMap_singleton]
        exact eventsOf_resultMeta (s.sessionIdOf c) (s.calls c).buffered []
          [(RESULT_TYPE, .str INPUT_REQUIRED), (REQUEST_STATE, .str token)]

/-- So does a call's final frame; where nothing is left to send, it carries what the handler's own result does. -/
theorem finalFrame_carries (frame : Frame) (c : Nat) : ∃ outcomes : List Emission,
    ((s.finalFrame frame c).1.calls c).sent = (s.calls c).sent ++ outcomes ∧
      ((s.finalFrame frame c).2 = none → outcomes = []) ∧
        ∀ f, (s.finalFrame frame c).2 = some f →
          frameEvents f = if outcomes.isEmpty then frameEvents frame else outcomes.map fun e => .obj e.event := by
  have hconclude : ∀ outcomes : List Emission,
      ((((s.settle (unanswered (s.calls c).bufferedAwaiting.values)).updateCall c (·.keepOnly [])).concludeWaiting
        outcomes c).calls c).sent = (s.calls c).sent ++ outcomes := fun outcomes => by
    simp [concludeWaiting, updateCall, settle, ToolCall.conclude, ToolCall.keepOnly]
  unfold finalFrame
  split
  · exact ⟨[], (List.append_nil _).symm, fun _ => rfl, by rintro _ ⟨⟩⟩
  · next id _ =>
    dsimp only
    split
    · split
      · refine ⟨[], hconclude [], fun _ => rfl, ?_⟩
        rintro _ ⟨⟩
        rfl
      · -- a frame that has no place for the outcomes waits for a round to carry them
        refine ⟨[], ?_, fun _ => rfl, by rintro _ ⟨⟩⟩
        have hscheduled : ∀ t : ToolSeam W, ((t.scheduleRound c).calls c).sent = (t.calls c).sent := fun t => by
          simp [scheduleRound, updateCall, ToolCall.schedule]
        rw [hscheduled, List.append_nil]
        refine (sent_keepWaiting _ c c).trans ?_
        simp [events, ToolCall.events, updateCall, settle, ToolCall.keepOnly]
    · next result =>
      refine ⟨_, hconclude _, by rintro ⟨⟩, ?_⟩
      rintro _ ⟨⟩
      by_cases hnone : ((s.calls c).buffered.filter fun e => !isAttempt e.event).isEmpty = true
      · rw [if_pos hnone, if_pos hnone]
        rfl
      · rw [if_neg hnone, if_neg hnone]
        exact eventsOf_resultMeta (s.sessionIdOf c) _ (metaOf result) result
    · exact ⟨[], (List.append_nil _).symm, fun _ => rfl, by rintro _ ⟨⟩⟩

/-! ## What a round waits for -/

theorem carries_updateCall (h : s.events.Carries) {c : Nat} {f : ToolCall → ToolCall}
    (hf : Awaited W (f (s.calls c)).bufferedAwaiting (f (s.calls c)).buffered) : (s.updateCall c f).events.Carries := by
  rw [events_updateCall]
  exact h.setCall hf

theorem carries_endCall (h : s.events.Carries) (c : Nat) : (s.endCall c).events.Carries := by
  have hdropped : (s.updateCall c .drop).events.Carries := carries_updateCall h (awaited_empty _)
  unfold endCall
  rw [events_release]
  exact hdropped

theorem carries_evictWaiting (turns : Nat) (h : s.events.Carries) : (s.evictWaiting turns).events.Carries := by
  induction turns generalizing s with
  | zero => exact h
  | succ turns ih =>
    simp only [evictWaiting]
    split
    · exact h
    · split
      · exact ih (carries_endCall h _)
      · exact h

theorem carries_keepWaiting (h : s.events.Carries) (frame : Frame) (c : Nat) :
    (s.keepWaiting frame c).events.Carries := by
  have hparked : (s.updateCall c (·.park frame)).events.Carries := carries_updateCall h (h c)
  exact carries_evictWaiting _ hparked

theorem carries_finalFrame (h : s.events.Carries) (frame : Frame) (c : Nat) :
    (s.finalFrame frame c).1.events.Carries := by
  have hkept : ∀ events, ((s.settle (unanswered (s.calls c).bufferedAwaiting.values)).updateCall c
      (·.keepOnly events)).events.Carries := fun events =>
    carries_updateCall (s := s.settle _) h (f := (·.keepOnly events)) (awaited_empty _)
  have hconclude : ∀ outcomes, (((s.settle (unanswered (s.calls c).bufferedAwaiting.values)).updateCall c
      (·.keepOnly [])).concludeWaiting outcomes c).events.Carries := fun outcomes =>
    carries_updateCall (hkept []) (f := (·.conclude outcomes)) (hkept [] c)
  unfold finalFrame
  split
  · exact h
  · dsimp only
    split
    · split
      · exact hconclude []
      · exact carries_updateCall (carries_keepWaiting (hkept _) _ c) (f := .schedule) (carries_keepWaiting (hkept _) _ c c)
    · exact hconclude _
    · exact h

theorem carries_finish (h : s.events.Carries) (frame : Frame) (c : Nat) : (s.finish frame c).1.events.Carries := by
  have hleft : (s.release (!!concludes frame) c).events.Carries := (events_release _ c).symm ▸ h
  unfold finish
  dsimp only
  split
  · exact carries_updateCall hleft (hleft c)
  · split
    · next r _ => exact carries_keepWaiting (s := (s.release _ c).settle (unanswered r.awaiting.values)) hleft frame c
    · exact carries_finalFrame hleft frame c

theorem carries_outbound (h : s.events.Carries) (frame : Frame) : (s.outbound C frame).1.events.Carries := by
  have hanswer : ∀ id, (outbound.answer frame s id).1.events.Carries := by
    intro id
    unfold outbound.answer
    split
    · exact h
    · split
      · next c _ =>
        have hfinished : (s.updateCall c .finish).events.Carries := carries_updateCall h (h c)
        exact carries_finish (s := { s.updateCall c .finish with inFlight := s.inFlight.pop id }) hfinished frame c
      · exact h
  unfold outbound
  split
  · split
    · exact h
    · exact hanswer _
  · exact hanswer _
  · exact h

theorem carries_deliverFinal (h : s.events.Carries) (frame : Frame) (c : Nat) :
    (s.deliverFinal frame c).events.Carries := by
  have hfinal := carries_finalFrame h frame c
  unfold deliverFinal
  split
  · next heq =>
    rw [heq] at hfinal
    exact hfinal
  · next heq =>
    rw [heq] at hfinal
    exact hfinal

theorem carries_retry (h : s.events.Carries) (id : RequestId) (params : Members) (token : Str) :
    (s.retry id params token).events.Carries := by
  unfold retry
  split
  · exact h
  · next c r _ =>
    have haccepted : ({ s with
        rounds := s.rounds.pop token
        resumed := s.resumed ++ [(token, s.inbox.length)] }.acceptRetry id params c r).events.Carries := by
      unfold acceptRetry
      refine carries_updateCall (f := (·.resumeOn id)) ?_ ?_
      · exact h
      · exact h c
    dsimp only
    split
    · exact carries_deliverFinal haccepted _ c
    · exact haccepted

theorem carries_openCall (h : s.events.Carries) (id : RequestId) (params : Members) (ownSessionId : Str) :
    (s.openCall C id params ownSessionId).events.Carries := by
  have hjoined : ((sessionNamed W params).elim s fun name => s.joinSession (s.declaredBy C params) name).events =
      s.events := by
    cases sessionNamed W params with
    | none => rfl
    | some name => exact events_joinSession _ _
  unfold openCall
  dsimp only
  generalize (sessionNamed W params).elim s (fun name => s.joinSession (s.declaredBy C params) name) = joined at hjoined
  rw [← hjoined] at h
  simp only [events, enrol, Function.comp_update]
  exact h.setCall (awaited_empty _)

theorem carries_cancel (h : s.events.Carries) (params : Option Members) : (s.cancel params).1.events.Carries := by
  unfold cancel
  dsimp only
  split
  · exact h
  · next c _ =>
    have hended := carries_endCall h c
    have hdropped : ((s.endCall c).updateCall c (·.cancel s.out.length)).events.Carries :=
      carries_updateCall hended (f := (·.cancel s.out.length)) (hended c)
    split
    · exact hdropped
    · exact hdropped

theorem carries_inbound (h : s.events.Carries) (frame : Frame) (ownSessionId : Str) :
    (s.inbound C frame ownSessionId).1.events.Carries := by
  have hanswer : ∀ id, (s.answerAttempt id frame).1.events.Carries := by
    intro id
    unfold answerAttempt
    split
    · split
      · exact h
      · exact h
    · exact h
  cases frame with
  | request id method params =>
    simp only [inbound]
    split
    · exact h
    · split
      · unfold takeCall
        split
        · exact carries_retry h id _ _
        · exact carries_openCall h id _ ownSessionId
      · exact h
  | notification method params =>
    simp only [inbound]
    split
    · exact carries_cancel h params
    · exact h
  | response id result => exact hanswer id
  | error id code message =>
    cases id with
    | none => exact h
    | some id => exact hanswer id

/-- An attempt joins the buffer under its id, with its event. -/
theorem awaited_ask {awaiting : Dict Str Nat} {events : List Emission} (h : Awaited W awaiting events) {event : Event}
    {place a : Nat} :
    Awaited W (awaiting.set (idText W event) a) (events ++ [⟨place, event, some a⟩]) := by
  intro id k hget
  rw [Dict.get_set] at hget
  split at hget
  · next heq =>
    obtain rfl := Option.some.inj hget
    exact ⟨⟨place, event, some a⟩, by simp, rfl, (eq_of_beq heq).symm⟩
  · obtain ⟨e, he, hwaits⟩ := h id k hget
    exact ⟨e, List.mem_append_left _ he, hwaits⟩

theorem carries_sendAttempt (h : s.events.Carries) (event : Event) (c : Nat) :
    (s.sendAttempt event c).events.Carries := by
  unfold sendAttempt
  dsimp only
  split
  · exact h
  · split
    · exact carries_updateCall (s := { s with attempts := _, attemptCount := _ }) h (f := (·.ask event _ _))
        (awaited_ask (h c))
    · exact h

theorem carries_sendOutcome (h : s.events.Carries) (event : Event) (c : Nat) :
    (s.sendOutcome event c).events.Carries := by
  have hleft : (s.updateCall c (·.concluded (idText W event))).events.Carries := carries_updateCall h (h c)
  unfold sendOutcome
  dsimp only
  split
  · exact hleft
  · split
    · refine carries_updateCall hleft (f := (·.emit event none)) fun id a hget => ?_
      obtain ⟨e, he, hwaits⟩ := hleft c id a hget
      exact ⟨e, List.mem_append_left _ he, hwaits⟩
    · exact hleft

theorem carries_endRound (h : s.events.Carries) (token : Str) (c : Nat) : (s.endRound token c).events.Carries := by
  have hbegun : (s.updateCall c .beginRound).events.Carries := carries_updateCall h (h c)
  unfold endRound
  dsimp only
  split
  · exact hbegun
  · split
    · exact hbegun
    · exact carries_updateCall hbegun (f := (·.sendRound token)) (awaited_empty _)

theorem carries_close (h : s.events.Carries) : s.close.events.Carries := by
  have hended : ∀ (cs : List Nat) (t : ToolSeam W), t.events.Carries → (cs.foldl (fun s c => s.endCall c) t).events.Carries := by
    intro cs
    induction cs with
    | nil => exact fun _ ht => ht
    | cons c cs ih => exact fun t ht => ih _ (carries_endCall ht c)
  have hlast := hended (s.inFlight.values ++ s.waiting.values)
    { s.settle (unanswered s.pending.values) with pending := .empty } h
  intro c
  have hc := hlast c
  unfold close
  dsimp only [events, Function.comp]
  split
  · exact hc
  · exact hc

/-- Whatever the act, and whatever the peer sends. -/
theorem carries_step {a : Act} (h : s.events.Carries) (hstep : s.step C a = some s') : s'.events.Carries := by
  cases a with
  | inbound frame ownSessionId =>
    obtain rfl := Option.some.inj hstep
    exact carries_inbound h frame ownSessionId
  | negotiate c offered =>
    obtain ⟨_, hstep⟩ := Option.ite_none_right_eq_some.1 hstep
    obtain ⟨_, hstep⟩ := Option.ite_none_right_eq_some.1 hstep
    obtain rfl := Option.some.inj hstep
    exact carries_updateCall h (f := (·.negotiate offered)) (h c)
  | attempt c event =>
    obtain ⟨_, hstep⟩ := Option.ite_none_right_eq_some.1 hstep
    obtain rfl := Option.some.inj hstep
    exact carries_sendAttempt h event c
  | resume a =>
    obtain ⟨_, hstep⟩ := Option.ite_none_right_eq_some.1 hstep
    obtain rfl := Option.some.inj hstep
    unfold resume
    dsimp only
    rw [events_updateCall_same _ _ (·.answered _ _) (events_answered _ _ _)]
    exact h
  | sendFails a =>
    obtain ⟨_, hstep⟩ := Option.ite_none_right_eq_some.1 hstep
    obtain ⟨id, _, rfl⟩ := Option.map_eq_some_iff.1 hstep
    exact h
  | outcome c event =>
    obtain ⟨_, hstep⟩ := Option.ite_none_right_eq_some.1 hstep
    obtain rfl := Option.some.inj hstep
    exact carries_sendOutcome h event c
  | endRound c secret =>
    obtain ⟨_, hstep⟩ := Option.ite_none_right_eq_some.1 hstep
    obtain rfl := Option.some.inj hstep
    exact carries_endRound h _ c
  | write frame stale =>
    simp only [step] at hstep
    split at hstep
    · obtain rfl := Option.some.inj hstep
      exact h
    · obtain ⟨_, hstep⟩ := Option.ite_none_right_eq_some.1 hstep
      obtain rfl := Option.some.inj hstep
      exact h
  | withdraw place =>
    simp only [step] at hstep
    split at hstep
    · cases hstep
    · obtain rfl := Option.some.inj hstep
      exact h
  | pump =>
    simp only [step, pump] at hstep
    split at hstep
    · cases hstep
    · next q rest _ =>
      split at hstep
      · obtain rfl := Option.some.inj hstep
        exact carries_outbound (s := { s with queue := rest }) h q.frame
      · obtain rfl := Option.some.inj hstep
        exact h
  | forget id =>
    obtain rfl := Option.some.inj hstep
    exact h
  | close =>
    obtain rfl := Option.some.inj hstep
    exact carries_close h

/-! ## Runs -/

theorem kept_step {a : Act} (h : s.events.Kept) (hopen : a.stays = true) (hfresh : s.freshId a = true)
    (hstep : s.step C a = some s') : s'.events.Kept := by
  cases a with
  | inbound frame ownSessionId =>
    obtain rfl := Option.some.inj hstep
    exact kept_inbound h frame ownSessionId
  | negotiate c offered =>
    obtain ⟨_, hstep⟩ := Option.ite_none_right_eq_some.1 hstep
    obtain ⟨_, hstep⟩ := Option.ite_none_right_eq_some.1 hstep
    obtain rfl := Option.some.inj hstep
    rw [events_updateCall_same s c (·.negotiate offered) rfl]
    exact h
  | attempt c event =>
    obtain ⟨hguard, hstep⟩ := Option.ite_none_right_eq_some.1 hstep
    obtain rfl := Option.some.inj hstep
    exact kept_sendAttempt h (of_decide_eq_true (Bool.and_eq_true_iff.1 hguard).1) hfresh
  | resume a =>
    obtain ⟨hguard, hstep⟩ := Option.ite_none_right_eq_some.1 hstep
    obtain rfl := Option.some.inj hstep
    exact kept_resume h (Option.isNone_iff_eq_none.1 (Bool.and_eq_true_iff.1 hguard).2)
  | sendFails a =>
    obtain ⟨_, hstep⟩ := Option.ite_none_right_eq_some.1 hstep
    obtain ⟨id, _, rfl⟩ := Option.map_eq_some_iff.1 hstep
    exact kept_sendFails h a id
  | outcome c event =>
    obtain ⟨hguard, hstep⟩ := Option.ite_none_right_eq_some.1 hstep
    obtain rfl := Option.some.inj hstep
    exact kept_sendOutcome h event (of_decide_eq_true (Bool.and_eq_true_iff.1 hguard).1)
  | endRound c secret =>
    obtain ⟨_, hstep⟩ := Option.ite_none_right_eq_some.1 hstep
    obtain rfl := Option.some.inj hstep
    exact kept_endRound h _ c
  | write frame stale =>
    simp only [step] at hstep
    split at hstep
    · obtain rfl := Option.some.inj hstep
      exact h
    · obtain ⟨_, hstep⟩ := Option.ite_none_right_eq_some.1 hstep
      obtain rfl := Option.some.inj hstep
      exact h
  | withdraw place =>
    simp only [step] at hstep
    split at hstep
    · cases hstep
    · obtain rfl := Option.some.inj hstep
      exact h
  | pump =>
    simp only [step, pump] at hstep
    split at hstep
    · cases hstep
    · next q rest _ =>
      split at hstep
      · obtain rfl := Option.some.inj hstep
        exact kept_outbound (s := { s with queue := rest }) h q.frame
      · obtain rfl := Option.some.inj hstep
        exact h
  | forget id =>
    obtain rfl := Option.some.inj hstep
    exact h
  | close => cases hopen

theorem events_start : (start : ToolSeam W).events.Kept := by
  refine ⟨fun c => ⟨rfl, nofun, List.nodup_nil, .refl _, rfl, nofun, fun _ _ _ => rfl, fun _ _ h => absurd h ?_⟩,
    nofun, nofun, fun _ h => absurd h (Nat.not_lt_zero _), fun _ _ => rfl⟩
  exact Nat.not_lt_zero _

/-- What became of the events of a call. -/
structure InOrder (s : ToolSeam W) (c : Nat) : Prop where
  order : (s.calls c).sent.Sublist (s.calls c).emitted
  once : ((s.calls c).sent.map Emission.place).Nodup
  /-- The final frame went out, after every outcome. -/
  outcomes : (s.calls c).ended = true → (s.calls c).dropped = false →
    outcomesIn (s.calls c).sent = outcomesIn (s.calls c).emitted
  attempts : (s.calls c).ended = true → (s.calls c).dropped = false →
    ∀ a < s.attemptCount, (s.attempts a).call = c → a ∈ attemptsIn (s.calls c).sent ∨ (s.attempts a).Unavailable

/-- **A call's events are sent in the order of their emission, each at most once**; when its final frame has gone out,
every outcome has been sent, and every attempt that has not been is answered unavailable. -/
theorem events_in_order (h : Run C (fun s a => a.stays && s.freshId a) s) :
    ∀ c, (s.calls c).modern = true → s.InOrder c := by
  have hkept : s.events.Kept := by
    induction h with
    | refl => exact events_start
    | tail _ hstep ih =>
      obtain ⟨a, ha, hstep⟩ := hstep
      obtain ⟨hopen, hfresh⟩ := Bool.and_eq_true_iff.1 ha
      exact kept_step ih hopen hfresh hstep
  intro c hmodern
  have hcall : EventBooks.CallKept s.attempts s.attemptCount c (s.calls c).events := hkept.calls c
  have horder : (s.calls c).sent.Sublist (s.calls c).emitted := (List.sublist_append_left _ _).trans hcall.order
  refine ⟨horder, ?_, ?_, ?_⟩
  · have hplaces : ((s.calls c).emitted.map Emission.place).Nodup := hcall.places ▸ List.nodup_range
    exact hplaces.sublist (horder.map _)
  · intro hended hdropped
    have hempty : (s.calls c).buffered = [] := hcall.flushed hmodern hended hdropped
    have houtcomes : outcomesIn ((s.calls c).sent ++ (s.calls c).buffered) = outcomesIn (s.calls c).emitted :=
      hcall.outcomes
    rwa [hempty, List.append_nil] at houtcomes
  · intro hended hdropped a hlt hmine
    have hempty : (s.calls c).buffered = [] := hcall.flushed hmodern hended hdropped
    refine (hcall.answered hmodern a hlt hmine).imp_right (Or.rec (fun hun => hun) fun hwaits => ?_)
    have hnone : a ∈ attemptsIn (s.calls c).buffered := hcall.awaiting a hwaits.2
    rw [hempty] at hnone
    cases hnone

/-- An attempt goes out in a round, and its outcome with the result that answers the retry. -/
def sampleCall : List Act :=
  [sampleOpening 1, .negotiate 0 sampleSeam.declares, .attempt 0 sampleAttempt, .endRound 0 (lit "one"),
    sampleRetry 2 (lit "one") [], .outcome 0 (sampleEvent SPEC_VERSION .success), .write (.response (.int 1) []) false,
    .pump, .pump]

theorem events_in_order_one : ∃ s : ToolSeam reference,
    start.steps sampleSeam (fun s a => a.stays && s.freshId a) sampleCall = some s ∧
      (s.calls 0).sent.length = 2 ∧ (s.calls 0).ended = true ∧ s.InOrder 0 := by
  have hrun : ((start : ToolSeam reference).steps sampleSeam (fun s a => a.stays && s.freshId a) sampleCall).map
      (fun s => ((s.calls 0).sent.length, (s.calls 0).ended, (s.calls 0).modern)) = some (2, true, true) := by
    decide
  obtain ⟨s, hs, hboth⟩ := Option.map_eq_some_iff.1 hrun
  obtain ⟨hsent, hended, hmodern⟩ : (s.calls 0).sent.length = 2 ∧ (s.calls 0).ended = true ∧ (s.calls 0).modern = true := by
    simpa using hboth
  exact ⟨s, hs, hsent, hended, events_in_order (run_of_steps hs) 0 hmodern⟩

end ToolSeam

end AuditableMcp
