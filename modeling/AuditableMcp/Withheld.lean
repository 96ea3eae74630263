import AuditableMcp.CallRegistry
/-!
# The host's caller and the audit of its call

A tool's answer reaches the host's client without this extension's member where the receiver finds its call by the id
it answers on. An answer on an id of the call's that is in no table any more is passed up as it came
(`late_answer_carries`). Every other answer has it removed (`answers_withheld`).
-/
namespace AuditableMcp

open JsonValue

/-- A response whose result's `_meta` carries this extension's member. -/
def Frame.carries : Frame → Bool
  | .response _ result => carriesAudit result
  | _ => false

/-- A frame that a job of the lane is about to deliver carries none of the audit. -/
def Progress.withheld : Progress → Bool
  | .delivering frame => !frame.carries
  | _ => true

namespace Receiver

theorem answerTo_carries (clientId : RequestId) (frame : Frame) : (answerTo clientId frame).carries = false := by
  cases frame with
  | response id result => exact withoutAudit_carries result
  | _ => rfl

/-- The act is no answer that carries the member on an id of an audited call's request that is no call's in flight. -/
def Heeds (s : Receiver) : Act → Prop
  | .inbound (.response id result) _ =>
    carriesAudit result = true → s.auditedIds.contains id = true → (s.calls.get id).isSome = true
  | _ => True

/-- A step whose answer, if it is one, comes while its call is in flight. -/
def HeededStep (s s' : Receiver) : Prop := ∃ a, s.step a = some s' ∧ Heeds s a

structure Withheld (s : Receiver) : Prop where
  delivered : ∀ d ∈ s.delivered, d.audited = true → d.frame.carries = false
  lanes : ∀ r, (s.heap r).lane.running.all Progress.withheld = true
  handshake : ∀ id, s.handshakeId = some id → id ∈ s.clientIds ∧ id ∉ s.auditedIds
  audited : ∀ id ∈ s.auditedIds, id ∈ s.clientIds ∨ id.isSeams = true

theorem withheld_new (capability : Members) : Withheld (new capability) where
  delivered := by rintro _ ⟨⟩
  lanes _ := rfl
  handshake := by rintro _ ⟨⟩
  audited := by rintro _ ⟨⟩

/-! ## The operations -/

/-- What is changed is none of the deliveries. -/
theorem Withheld.of_same {s s' : Receiver} (h : Withheld s) (hb : SameBeside s s')
    (hl : ∀ r, (s'.heap r).lane.running.all Progress.withheld = true) : Withheld s' where
  delivered := hb.delivered ▸ h.delivered
  lanes := hl
  handshake := by
    rw [hb.handshakeId, hb.clientIds, hb.auditedIds]
    exact h.handshake
  audited := by
    rw [hb.clientIds, hb.auditedIds]
    exact h.audited

theorem Withheld.update {s : Receiver} {r : Nat} {f : HostCall → HostCall} (h : Withheld s)
    (hf : (f (s.heap r)).lane.running.all Progress.withheld = true) : Withheld (s.update r f) := by
  refine h.of_same ⟨rfl, rfl, rfl, rfl, rfl⟩ fun k => ?_
  rw [update_heap]
  split
  · exact hf
  · exact h.lanes k

theorem Withheld.dispatch {s : Receiver} {lane : Option Nat} {job : Job} (h : Withheld s) : Withheld (s.dispatch lane job) := by
  cases lane with
  | none => exact ⟨h.1, h.2, h.3, h.4⟩
  | some r =>
    unfold Receiver.dispatch
    dsimp only
    split
    · exact ⟨h.1, h.2, h.3, h.4⟩
    · exact h.update (h.lanes r)

theorem Withheld.detach {s : Receiver} {r : Nat} (h : Withheld s) : Withheld (s.detach r) := by
  have hup : Withheld (s.update r .detached) := h.update (h.lanes r)
  exact ⟨hup.1, hup.2, hup.3, hup.4⟩

theorem Withheld.evict {s : Receiver} {r : Nat} (h : Withheld s) : Withheld (s.evict r) := h.detach.dispatch

theorem Withheld.evicts {s s' : Receiver} (h : Withheld s) (he : Evicts s s') : Withheld s' :=
  h.of_same he.1 fun r => by
    rw [he.running]
    exact h.lanes r

theorem Withheld.deliver {s : Receiver} {frame : Frame} (h : Withheld s)
    (hf : ∀ id result, frame = .response id result → s.auditedIds.contains id = true → carriesAudit result = false) :
    Withheld (s.deliver frame) := by
  refine ⟨fun d hd haudited => ?_, h.lanes, h.handshake, h.audited⟩
  rcases List.mem_append.1 hd with hd | hd
  · exact h.delivered d hd haudited
  · obtain rfl := List.mem_singleton.1 hd
    cases frame with
    | response id result => exact hf id result rfl haudited
    | _ => rfl

/-- A frame that carries none of the audit is delivered. -/
theorem Withheld.deliverClean {s : Receiver} {frame : Frame} (h : Withheld s) (hf : frame.carries = false) :
    Withheld (s.deliver frame) := by
  refine h.deliver fun id result heq _ => ?_
  subst heq
  exact hf

/-- Another id is one of an audited call's, and not the handshake's. -/
theorem Withheld.audits {s : Receiver} {id : RequestId} (h : Withheld s) (hid : s.handshakeId ≠ some id)
    (hin : id ∈ s.clientIds ∨ id.isSeams = true) : Withheld { s with auditedIds := s.auditedIds ++ [id] } := by
  refine ⟨h.1, h.2, fun a ha => ⟨(h.handshake a ha).1, fun hin => ?_⟩, fun a ha => ?_⟩
  · rcases List.mem_append.1 hin with hin | hin
    · exact (h.handshake a ha).2 hin
    · exact hid (List.mem_singleton.1 hin ▸ ha)
  · rcases List.mem_append.1 ha with ha | ha
    · exact h.audited a ha
    · exact List.mem_singleton.1 ha ▸ hin

theorem Withheld.rekey {s : Receiver} {r : Nat} {id : RequestId} (h : Withheld s) (hid : s.handshakeId ≠ some id)
    (hin : id ∈ s.clientIds ∨ id.isSeams = true) : Withheld (s.rekey r id) := by
  have hup : Withheld (s.update r (.keyed id)) := h.update (h.lanes r)
  have hau := hup.audits hid hin
  exact ⟨hau.1, hau.2, hau.3, hau.4⟩

theorem Withheld.await {s : Receiver} {r : Nat} {p : Option Progress} (h : Withheld s)
    (hp : p.all Progress.withheld = true) : Withheld (s.update r (.await p)) := h.update hp

/-! ## The acts -/

theorem Withheld.toolsCall {s : Receiver} {id : RequestId} {params : Members} {session : Str} (h : Withheld s)
    (hid : s.handshakeId ≠ some id) (hin : id ∈ s.clientIds) : Withheld (s.toolsCall id params session).2 := by
  unfold Receiver.toolsCall
  split
  · exact h
  · split
    · next state r responses hround =>
      have hpopped : Withheld { s.update r (.release state) with held := s.held.pop state } := by
        have hup : Withheld (s.update r (.release state)) := h.update (h.lanes r)
        exact ⟨hup.1, hup.2, hup.3, hup.4⟩
      have hkeyed := hpopped.rekey (r := r) hid (.inl hin)
      exact hkeyed.update (f := fun c => { c with clientId := id }) (hkeyed.lanes r)
    · split
      · exact h
      · have hau := h.audits hid (.inl hin)
        refine ⟨hau.1, fun k => ?_, hau.3, hau.4⟩
        change (Function.update s.heap s.allocated _ k).lane.running.all Progress.withheld = true
        rw [Function.update_apply]
        split
        · rfl
        · exact h.lanes k

theorem Withheld.cancel {s : Receiver} {params : Members} (h : Withheld s) : Withheld (s.cancel params).2 := by
  rw [cancel_eq]
  cases s.cancelled params with
  | none => exact h
  | some r => exact h.evict

theorem Withheld.outbound {s : Receiver} {frame : Frame} (h : Withheld s) (session : Str)
    (hnew : s.newToClient frame = true) : Withheld (s.outbound frame session).2 := by
  cases frame with
  | request id method params =>
    simp only [newToClient, Bool.and_eq_true, Bool.not_eq_true', List.contains_eq_mem, decide_eq_false_iff_not] at hnew
    let used : Receiver := { s with clientIds := s.clientIds ++ [id] }
    have hused : Withheld used := by
      refine ⟨h.1, h.2, fun a ha => ?_, fun a ha => ?_⟩
      · exact ⟨List.mem_append_left _ (h.handshake a ha).1, (h.handshake a ha).2⟩
      · exact (h.audited a ha).imp_left (List.mem_append_left _)
    have hin : id ∈ used.clientIds := List.mem_append_right _ List.mem_cons_self
    have hid : s.handshakeId ≠ some id := fun heq => hnew.2 (h.handshake id heq).1
    have hnoted : Withheld { used with handshakeId := some id } := by
      refine ⟨h.1, h.2, fun a ha => ?_, hused.audited⟩
      obtain rfl := Option.some.inj ha
      refine ⟨hin, fun haudited => ?_⟩
      rcases h.audited id haudited with hclient | hown
      · exact hnew.2 hclient
      · exact absurd (hnew.1.symm.trans hown) (by decide)
    unfold Receiver.outbound outboundRequest
    dsimp only
    split
    · split
      · exact hnoted
      · exact hused
    · split
      · next hcall =>
        have hmethod : HANDSHAKE_METHODS.contains method = false := by
          rw [eq_of_beq hcall]
          decide
        rw [hmethod]
        exact hused.toolsCall hid hin
      · split
        · exact hnoted
        · exact hused
  | notification method params =>
    unfold Receiver.outbound
    dsimp only
    split
    · exact h.cancel
    · exact h
  | response id result => exact h
  | error id code message => exact h

theorem Withheld.answered {s : Receiver} {r : Nat} {frame : Frame} (h : Withheld s) : Withheld (s.answered r frame) := by
  have hreceived : Withheld (s.update r fun c => { c with received := c.received ++ outcomesOf (frameEvents frame) }) :=
    h.update (h.lanes r)
  unfold Receiver.answered
  dsimp only
  split
  · exact hreceived.detach.dispatch.deliverClean (answerTo_carries ..)
  · exact hreceived.dispatch

theorem Withheld.inbound {s : Receiver} {frame : Frame} {related : Option RequestId} (h : Withheld s)
    (hheed : Heeds s (.inbound frame related)) : Withheld (s.inbound frame related) := by
  cases frame with
  | request id method params =>
    unfold Receiver.inbound
    dsimp only
    split
    · exact h.dispatch
    · split
      · exact ⟨h.1, h.2, h.3, h.4⟩
      · exact h.deliverClean rfl
  | notification method params =>
    unfold Receiver.inbound
    dsimp only
    split
    · exact h.dispatch
    · split
      · exact h
      · exact h.deliverClean rfl
  | response id result =>
    unfold Receiver.inbound
    dsimp only
    split
    · next hhand =>
      -- The handshake's id is no audited call's.
      have hdel : Withheld (s.deliver (.response id result)) := by
        refine h.deliver fun a res heq haudited => ?_
        cases heq
        exact absurd (List.contains_iff_mem.1 haudited) (h.handshake id (eq_of_beq hhand)).2
      exact ⟨hdel.1, hdel.2, by rintro _ ⟨⟩, hdel.4⟩
    · unfold Receiver.inboundAnswer
      split
      · exact h.answered
      · next hnone =>
        refine h.deliver fun a res heq haudited => ?_
        cases heq
        refine Bool.eq_false_iff.2 fun hcarries => ?_
        have hsome := hheed hcarries haudited
        rw [Option.bind_some] at hnone
        rw [hnone] at hsome
        cases hsome
  | error id code message =>
    unfold Receiver.inbound Receiver.inboundAnswer
    dsimp only
    split
    · exact h.answered
    · exact h.deliverClean rfl

theorem Withheld.follow {s : Receiver} {r : Nat} {frame : Frame} (h : Withheld s) : Withheld (s.follow r frame) := by
  have hcounted : Withheld (s.update r .count) := h.update (h.lanes r)
  rcases follow_cases r frame s with ⟨heq, -⟩ | ⟨-, ⟨result, state, heq⟩ | ⟨message, heq⟩⟩
  · rw [heq]
    exact h.await rfl
  · rw [heq]
    exact hcounted.await rfl
  · rw [heq]
    exact hcounted.detach.await rfl

theorem Withheld.takeUp {s s' : Receiver} {r : Nat} (h : Withheld s) (hs : s.takeUp r = some s') : Withheld s' := by
  unfold Receiver.takeUp at hs
  dsimp only at hs
  split at hs
  · next job rest hnone hqueue =>
    have htaken : Withheld (s.update r (.takeJob job rest)) := h.update (h.lanes r)
    cases job with
    | follow frame =>
      obtain rfl := Option.some.inj hs
      exact htaken.follow
    | _ =>
      obtain rfl := Option.some.inj hs
      exact htaken.await rfl
  · cases hs

theorem Withheld.takeItem {s s' : Receiver} {r : Nat} (h : Withheld s) (hs : s.takeItem r = some s') : Withheld s' := by
  have hhand : ∀ (p : Progress) (events : List Json), p.withheld = true →
      Withheld ((s.proceed r p).update r fun c => { c with handed := c.handed ++ events }) := by
    intro p events hp
    have hproceed : Withheld (s.proceed r p) := h.await (by simpa using hp)
    exact hproceed.update (f := fun c => { c with handed := c.handed ++ events }) (hproceed.lanes r)
  unfold Receiver.takeItem at hs
  dsimp only at hs
  split at hs
  · obtain ⟨⟨after, events⟩, -, rfl⟩ := Option.map_eq_some_iff.1 hs
    exact hhand _ _ rfl
  · obtain ⟨⟨after, events⟩, -, rfl⟩ := Option.map_eq_some_iff.1 hs
    exact hhand _ _ rfl
  · obtain rfl := Option.some.inj hs
    exact hhand _ _ rfl
  · cases hs

theorem Withheld.decided {s s' : Receiver} {r : Nat} {answer : Members} (h : Withheld s)
    (hs : s.decided r answer = some s') : Withheld s' := by
  unfold Receiver.decided at hs
  split at hs
  · obtain ⟨event, -, rfl⟩ := Option.map_eq_some_iff.1 hs
    exact h.await rfl
  · next id hp =>
    obtain rfl := Option.some.inj hs
    have htool : Withheld { s with toTool := s.toTool ++ [.response id answer] } := ⟨h.1, h.2, h.3, h.4⟩
    exact htool.await rfl
  · cases hs

theorem Withheld.queueLeftover {s : Receiver} {r : Nat} {leftover : List Json} (h : Withheld s) :
    Withheld (s.queueLeftover r leftover) := by
  unfold Receiver.queueLeftover
  split
  · exact h
  · exact h.dispatch

theorem Withheld.cutOff {s s' : Receiver} {r : Nat} (h : Withheld s) (hreg : Registered MAX_IDLE_SESSIONS s)
    (hs : s.cutOff r = some s') : Withheld s' := by
  unfold Receiver.cutOff at hs
  dsimp only at hs
  split at hs
  · next result state work hp =>
    split at hs
    · obtain rfl := Option.some.inj hs
      exact h.await rfl
    · next hended =>
      have hended : (s.heap r).ended = false := Bool.eq_false_iff.2 hended
      have hr := hreg.lt_of_running hp
      have hu := (hreg.closes r).inFlight hended
      have hqueued := hreg.queueLeftover hr hu (outcomesOf work.todo)
      have hlive : (s.queueLeftover r (outcomesOf work.todo)).Live r :=
        ⟨(allocated_queueLeftover ..).symm ▸ hr, (queueLeftover_call (hreg.closes r) hu _).2.trans hended⟩
      split at hs
      · obtain ⟨held, hheld, rfl⟩ := Option.map_eq_some_iff.1 hs
        obtain ⟨held', hheld', -, hev⟩ := hqueued.hold state work.answers hlive
        obtain rfl := Option.some.inj (hheld'.symm.trans hheld)
        refine (h.queueLeftover.evicts hev).await ?_
        simp [Progress.withheld, Frame.carries]
      · obtain rfl := Option.some.inj hs
        -- The retry's id is minted, and the handshake's is a client's.
        have hq : Withheld (s.queueLeftover r (outcomesOf work.todo)) := h.queueLeftover
        have hid : (s.queueLeftover r (outcomesOf work.todo)).handshakeId ≠
            some (newId (s.queueLeftover r (outcomesOf work.todo)).nextId) := fun heq => by
          have hown := hqueued.indexed.clients _ (hq.handshake _ heq).1
          rw [newId_isSeams] at hown
          cases hown
        have hkeyed := hq.rekey (r := r) hid (.inr (newId_isSeams _))
        have hminted : Withheld { (s.queueLeftover r (outcomesOf work.todo)).rekey r
            (newId (s.queueLeftover r (outcomesOf work.todo)).nextId) with
          nextId := (s.queueLeftover r (outcomesOf work.todo)).nextId + 1 } :=
          ⟨hkeyed.1, hkeyed.2, hkeyed.3, hkeyed.4⟩
        exact hminted.await rfl
  · next message work hp =>
    obtain rfl := Option.some.inj hs
    exact h.queueLeftover.dispatch.await rfl
  · cases hs

theorem Withheld.unsent {s s' : Receiver} {r : Nat} (h : Withheld s) (hs : s.unsent r = some s') : Withheld s' := by
  unfold Receiver.unsent at hs
  dsimp only at hs
  split at hs
  · split at hs
    · obtain rfl := Option.some.inj hs
      exact h.await rfl
    · obtain rfl := Option.some.inj hs
      exact h.evict.await rfl
  · cases hs

theorem Withheld.finish {s s' : Receiver} {r : Nat} (h : Withheld s) (hs : s.finish r = some s') : Withheld s' := by
  unfold Receiver.finish at hs
  split at hs
  · obtain rfl := Option.some.inj hs
    exact h.await rfl
  · obtain rfl := Option.some.inj hs
    exact h.await rfl
  · next frame hp =>
    obtain rfl := Option.some.inj hs
    have hclean := h.lanes r
    rw [hp] at hclean
    exact (h.deliverClean (by simpa [Progress.withheld] using hclean)).await rfl
  · next frame hp =>
    obtain rfl := Option.some.inj hs
    have htool : Withheld { s with toTool := s.toTool ++ [frame] } := ⟨h.1, h.2, h.3, h.4⟩
    exact htool.await rfl
  · obtain rfl := Option.some.inj hs
    have hclosed : Withheld (s.update r fun c => { c with lane := { c.lane with closed := true } }) := h.update (h.lanes r)
    exact hclosed.await rfl
  · obtain rfl := Option.some.inj hs
    exact h.await rfl
  · cases hs

/-! ## Whole runs -/

theorem Withheld.step {s s' : Receiver} (h : Withheld s) (hreg : Registered MAX_IDLE_SESSIONS s) (hs : HeededStep s s') :
    Withheld s' := by
  obtain ⟨a, hs, hheed⟩ := hs
  cases a with
  | outbound frame session =>
    simp only [Receiver.step] at hs
    split at hs
    · next hnew =>
      obtain rfl := Option.some.inj hs
      have hout := h.outbound session hnew
      exact ⟨hout.1, hout.2, hout.3, hout.4⟩
    · cases hs
  | inbound frame related =>
    obtain rfl := Option.some.inj hs
    exact h.inbound hheed
  | takeUp r => exact h.takeUp hs
  | takeItem r => exact h.takeItem hs
  | decided r answer => exact h.decided hs
  | cutOff r => exact h.cutOff hreg hs
  | unsent r => exact h.unsent hs
  | finish r => exact h.finish hs

/-- **What the client is given of an audited call carries none of its audit**, in a run whose answers come while their
call is in flight. -/
theorem answers_withheld {capability : Members} {s : Receiver}
    (hr : Relation.ReflTransGen HeededStep (new capability) s) :
    ∀ d ∈ s.delivered, d.audited = true → d.frame.carries = false := by
  have hboth : Registered MAX_IDLE_SESSIONS s ∧ Withheld s := by
    induction hr with
    | refl => exact ⟨registered_new capability, withheld_new capability⟩
    | tail _ h ih =>
      obtain ⟨a, hs, -⟩ := id h
      exact ⟨ih.1.step ⟨a, hs⟩, ih.2.step ih.1 h⟩
  exact hboth.2.delivered

/-- An answer with one event of its call. -/
def auditedAnswer : Members :=
  [(lit "content", .arr []), (META, .obj [(EXTENSION_ID, .obj [(EVENTS, .arr [.obj [(OUTCOME, .str (lit "success"))]])])])]

def callSample : Act := .outbound (.request (.int 1) TOOLS_CALL_METHOD (some [])) (lit "session-1")

def answerSample : Act := .inbound (.response (.int 1) auditedAnswer) none

/-- The call's answer is delivered, without its event. -/
theorem answers_withheld_once : ∃ s, (new []).steps [callSample, answerSample] = some s ∧
    s.delivered = [⟨.response (.int 1) [(lit "content", .arr [])], true⟩] ∧
      ∀ d ∈ s.delivered, d.audited = true → d.frame.carries = false := by
  have hdelivered : ((new []).steps [callSample, answerSample]).map Receiver.delivered =
      some [⟨.response (.int 1) [(lit "content", .arr [])], true⟩] := by decide
  have hcalled : ((new []).step callSample).all (fun s => (s.calls.get (.int 1)).isSome) = true := by decide
  obtain ⟨s, hs, hdelivered⟩ := Option.map_eq_some_iff.1 hdelivered
  refine ⟨s, hs, hdelivered, ?_⟩
  obtain ⟨called, hcall, hs⟩ := Option.bind_eq_some_iff.1 hs
  obtain ⟨answered, hanswer, hs⟩ := Option.bind_eq_some_iff.1 hs
  obtain rfl := Option.some.inj hs
  rw [hcall] at hcalled
  exact answers_withheld (.tail (.single ⟨callSample, hcall, trivial⟩) ⟨answerSample, hanswer, fun _ _ => hcalled⟩)

/-- The client cancels its call while the tool's answer is on its way: the answer is passed up as it came. -/
theorem late_answer_carries : ¬ ∀ (capability : Members) (s : Receiver),
    Relation.ReflTransGen Step (new capability) s → ∀ d ∈ s.delivered, d.audited = true → d.frame.carries = false := by
  intro h
  have hlate : ((new []).steps [callSample, .outbound (.notification CANCELLED_METHOD (some [(REQUEST_ID, .int 1)])) [],
      answerSample]).any (fun s => s.delivered.any fun d => d.audited && d.frame.carries) = true := by decide
  obtain ⟨s, hs, hlate⟩ := (Option.any_eq_true _ _).1 hlate
  obtain ⟨d, hd, hboth⟩ := List.any_eq_true.1 hlate
  obtain ⟨haudited, hcarries⟩ := Bool.and_eq_true_iff.1 hboth
  exact absurd hcarries (by rw [h [] s (reachable_steps hs) d hd haudited]; decide)

end Receiver

end AuditableMcp
