import Mathlib.Logic.Relation
import AuditableMcp.CallTables
/-!
# The host's registry of calls

Each act of the receiver keeps its tables (`Registered.step`), so every state a run reaches is consistent
(`call_registry`): what is held is of calls in flight, the calls in flight stand under the ids their tools answer on,
and a call that ended is given one close, behind all the work its lane was given.
-/
namespace AuditableMcp

open JsonValue

namespace Receiver

variable {n : Nat}

/-! ## One act -/

/-- What is none of the registry's may change. -/
theorem Registered.of_eq {s s' : Receiver} (h : Registered n s) (hheap : s'.heap = s.heap) (halloc : s'.allocated = s.allocated)
    (hcalls : s'.calls = s.calls) (hheld : s'.held = s.held) (hnext : s'.nextId = s.nextId)
    (hclients : s'.clientIds = s.clientIds) : Registered n s' := by
  refine ⟨h.indexed.of_same ⟨halloc, hcalls, fun _ => by rw [hheld], hnext, hclients, ?_, ?_, ?_⟩, ?_, ?_, hheld ▸ h.bounded⟩
  · simp [hheap]
  · simp [hheap]
  · simp [hheap]
  · simpa [hheap] using h.closes
  · simpa [hheap, halloc] using h.unused

/-- The job in progress goes on, or is done. -/
theorem Registered.await {s : Receiver} {r : Nat} {p : Option Progress} (h : Registered n s) (hr : r < s.allocated)
    (hab : p.any Progress.isAbandoning = (s.heap r).abandoning)
    (hcl : ∀ q, p = some q → q.isClosing = true → ∃ j ∈ (s.heap r).lane.taken, j.closes = true) :
    Registered n (s.update r (.await p)) :=
  h.update hr rfl rfl rfl ((h.closes r).await hab hcl)

/-- A job in progress that is no round to abandon goes on, and not to its session's close. -/
theorem Registered.goesOn {s : Receiver} {r : Nat} {p : Progress} {q : Option Progress} (h : Registered n s)
    (hp : (s.heap r).lane.running = some p) (hp' : p.isAbandoning = false) (hq : q.any Progress.isAbandoning = false)
    (hq' : q.any Progress.isClosing = false) : Registered n (s.update r (.await q)) := by
  refine h.await (h.lt_of_running hp) ?_ fun p heq hcl => ?_
  · simp [HostCall.abandoning, hp, hp', hq]
  · subst heq
    exact absurd (hq'.symm.trans hcl) (by decide)

/-- An id the client has not used is no call's. -/
theorem Indexed.fresh {s : Receiver} {id : RequestId} (hi : Indexed s) (hown : id.isSeams = false)
    (hnew : id ∉ s.clientIds) : s.calls.get id = none := by
  refine hi.calls.get_eq_none fun r hr => ?_
  obtain ⟨hlive, rfl⟩ := hr
  rcases hi.issued r hlive with hin | ⟨n, -, hid⟩
  · exact hnew hin
  · rw [hid, newId_isSeams] at hown
    cases hown

/-- An id the seam mints is no call's yet. -/
theorem Indexed.minted {s : Receiver} (hi : Indexed s) : s.calls.get (newId s.nextId) = none := by
  refine hi.calls.get_eq_none fun r hr => ?_
  obtain ⟨hlive, hid⟩ := hr
  rcases hi.issued r hlive with hin | ⟨n, hlt, hid'⟩
  · have hown := hi.clients _ hin
    rw [hid, newId_isSeams] at hown
    cases hown
  · rw [hid] at hid'
    exact Nat.lt_irrefl _ (newId_inj hid' ▸ hlt)

theorem Registered.rekey {s : Receiver} {r : Nat} {id : RequestId} (h : Registered n s) (hr : s.Live r)
    (hfree : s.calls.get id = none) (hid : id ∈ s.clientIds ∨ ∃ n < s.nextId, id = newId n) : Registered n (s.rekey r id) := by
  refine ⟨h.indexed.rekey hr hfree hid, fun k => ?_, fun k hk => ?_, h.bounded⟩
  · rw [rekey_heap]
    split
    · have hc := h.closes r
      exact ⟨hc.1, hc.2, hc.3, hc.4⟩
    · exact h.closes k
  · have hne : k ≠ r := fun heq => Nat.not_le_of_lt hr.1 (heq ▸ hk)
    rw [rekey_heap, if_neg hne]
    exact h.unused k hk

theorem Registered.retryHeld {s : Receiver} {id : RequestId} {params : Members} {state : Str} {r : Nat}
    {responses : Members} (h : Registered n s) (hr : s.Holds r state) (hfree : s.calls.get id = none)
    (hid : id ∈ s.clientIds) : Registered n (s.retryHeld id params state r responses).2 := by
  let popped : Receiver := { s.update r (.release state) with held := s.held.pop state }
  have hc := h.closes r
  have hheap : ∀ k, popped.heap k = if k = r then (s.heap r).release state else s.heap k := fun k => update_heap ..
  have hpopped : Registered n popped := by
    refine ⟨h.indexed.release hr, fun k => ?_, fun k hk => ?_, (Dict.length_pop_le ..).trans h.bounded⟩
    · rw [hheap]
      split
      · exact ⟨hc.1, hc.2, hc.3, hc.4⟩
      · exact h.closes k
    · have hne : k ≠ r := fun heq => Nat.not_le_of_lt hr.1.1 (heq ▸ hk)
      rw [hheap, if_neg hne]
      exact h.unused k hk
  have hlive : popped.Live r := by
    refine ⟨hr.1.1, ?_⟩
    rw [hheap, if_pos rfl]
    exact hr.1.2
  have hkeyed := hpopped.rekey hlive hfree (.inl hid)
  have hck := hkeyed.closes r
  exact hkeyed.update (f := fun c => { c with clientId := id }) hr.1.1 rfl rfl rfl ⟨hck.1, hck.2, hck.3, hck.4⟩

theorem Registered.openCall {s : Receiver} {id : RequestId} {params : Members} {session : Str} (h : Registered n s)
    (hfree : s.calls.get id = none) (hid : id ∈ s.clientIds) : Registered n (s.openCall id params session).2 := by
  refine ⟨h.indexed.openCall hfree hid, fun k => ?_, fun k hk => ?_, h.bounded⟩
  · change (Function.update s.heap s.allocated _ k).Closes
    rw [Function.update_apply]
    split
    · refine ⟨fun _ j hj => ?_, fun hended => ?_, fun hab => ?_, fun hc => ?_⟩
      · cases hj
      · cases hended
      · cases hab
      · rcases hc with ⟨_, hp, -⟩ | hc
        · cases hp
        · cases hc
    · exact h.closes k
  · change s.allocated + 1 ≤ k at hk
    change (Function.update s.heap s.allocated _ k).lane = _
    rw [Function.update_of_ne (by omega)]
    exact h.unused k (by omega)

theorem Registered.toolsCall {s : Receiver} {id : RequestId} {params : Members} {session : Str} (h : Registered n s)
    (hfree : s.calls.get id = none) (hid : id ∈ s.clientIds) : Registered n (s.toolsCall id params session).2 := by
  unfold Receiver.toolsCall
  split
  · exact h
  · split
    · next state r responses hround =>
      have hget : s.held.get state = some (r, responses) := by
        unfold heldRound at hround
        split at hround
        · obtain ⟨entry, hentry, heq⟩ := Option.map_eq_some_iff.1 hround
          cases heq
          exact hentry
        · cases hround
      exact h.retryHeld (h.indexed.holds_of_get hget) hfree hid
    · split
      · exact h
      · exact h.openCall hfree hid

/-- A cancellation names a call in flight, or none. -/
theorem Indexed.cancelled {s : Receiver} {params : Members} {r : Nat} (hi : Indexed s) (h : s.cancelled params = some r) :
    s.Live r := by
  obtain ⟨target, -, hfind⟩ := Option.bind_eq_some_iff.1 h
  obtain ⟨⟨id, r'⟩, hin, rfl⟩ := List.mem_map.1 (List.mem_of_find?_eq_some hfind)
  exact ((hi.calls r' id).2 ⟨r', Dict.get_eq_some.2 hin, rfl⟩).1

/-- A cancellation evicts the call it names. -/
theorem cancel_eq (s : Receiver) (params : Members) :
    (s.cancel params).2 = match s.cancelled params with
      | some r => s.evict r
      | none => s := by
  unfold cancel
  cases s.cancelled params with
  | none => rfl
  | some r =>
    dsimp only
    split <;> rfl

theorem Registered.cancel {s : Receiver} {params : Members} (h : Registered n s) : Registered n (s.cancel params).2 := by
  rw [cancel_eq]
  cases hr : s.cancelled params with
  | none => exact h
  | some r => exact h.evict (h.indexed.cancelled hr)

theorem Registered.outbound {s : Receiver} {frame : Frame} {session : Str} (h : Registered n s)
    (hnew : s.newToClient frame = true) : Registered n (s.outbound frame session).2 := by
  cases frame with
  | request id method params =>
    simp only [newToClient, Bool.and_eq_true, Bool.not_eq_true', List.contains_eq_mem, decide_eq_false_iff_not] at hnew
    have hfree : s.calls.get id = none := h.indexed.fresh hnew.1 hnew.2
    let noted : Receiver := { s with clientIds := s.clientIds ++ [id] }
    have hnoted : Registered n noted := by
      refine ⟨⟨h.indexed.calls, h.indexed.held, h.indexed.cleared, fun r hr => ?_, fun a ha => ?_⟩, h.closes, h.unused,
        h.bounded⟩
      · exact (h.indexed.issued r hr).imp_left (List.mem_append_left _)
      · rcases List.mem_append.1 ha with ha | ha
        · exact h.indexed.clients a ha
        · exact List.mem_singleton.1 ha ▸ hnew.1
    have hid : id ∈ noted.clientIds := List.mem_append_right _ List.mem_cons_self
    unfold Receiver.outbound outboundRequest
    dsimp only
    split
    · split <;> exact hnoted.of_eq rfl rfl rfl rfl rfl rfl
    · split
      · split
        · have hshook : Registered n { noted with handshakeId := some id } := hnoted.of_eq rfl rfl rfl rfl rfl rfl
          exact hshook.toolsCall hfree hid
        · exact hnoted.toolsCall hfree hid
      · split <;> exact hnoted.of_eq rfl rfl rfl rfl rfl rfl
  | notification method params =>
    unfold Receiver.outbound
    dsimp only
    split
    · exact h.cancel
    · exact h
  | response id result => exact h
  | error id code message => exact h

/-- The call an event arrived on is in flight. -/
theorem Indexed.route {s : Receiver} {params : Option Members} {related : Option RequestId} {r : Nat} (hi : Indexed s)
    (h : s.route params related = some r) : s.Live r := by
  unfold Receiver.route at h
  split at h
  · next r' hget =>
    cases h
    obtain ⟨id, -, hget⟩ := Option.bind_eq_some_iff.1 hget
    exact ((hi.calls r id).2 ⟨r, hget, rfl⟩).1
  · obtain ⟨⟨id, r'⟩, hin, rfl⟩ := List.mem_map.1 (List.mem_of_find?_eq_some h)
    exact ((hi.calls r' id).2 ⟨r', Dict.get_eq_some.2 hin, rfl⟩).1

theorem Registered.route {s : Receiver} {params : Option Members} {related : Option RequestId} {job : Job}
    (h : Registered n s) (hj : job.closes = false) : Registered n (s.dispatch (s.route params related) job) := by
  refine h.dispatch (fun r hr => ?_) hj
  have hlive := h.indexed.route hr
  exact ⟨hlive.1, (h.closes r).inFlight hlive.2⟩

theorem Registered.deliver {s : Receiver} {frame : Frame} (h : Registered n s) : Registered n (s.deliver frame) :=
  h.of_eq rfl rfl rfl rfl rfl rfl

theorem Registered.answered {s : Receiver} {r : Nat} {frame : Frame} (h : Registered n s) (hr : s.Live r) :
    Registered n (s.answered r frame) := by
  have hc := h.closes r
  let receive (c : HostCall) : HostCall := { c with received := c.received ++ outcomesOf (frameEvents frame) }
  have hreceived : Registered n (s.update r receive) := h.update hr.1 rfl rfl rfl ⟨hc.1, hc.2, hc.3, hc.4⟩
  have hlive : (s.update r receive).Live r := by
    refine ⟨hr.1, ?_⟩
    rw [update_heap_self]
    exact hr.2
  unfold Receiver.answered
  dsimp only
  split
  · exact (hreceived.end hlive rfl).deliver
  · refine hreceived.dispatch (fun k hk => ?_) rfl
    obtain rfl := Option.some.inj hk
    exact ⟨hlive.1, (hreceived.closes r).inFlight hlive.2⟩

theorem Registered.inboundAnswer {s : Receiver} {id : Option RequestId} {frame : Frame} (h : Registered n s) :
    Registered n (s.inboundAnswer id frame) := by
  unfold Receiver.inboundAnswer
  split
  · next r hget =>
    obtain ⟨id, -, hget⟩ := Option.bind_eq_some_iff.1 hget
    exact h.answered ((h.indexed.calls r id).2 ⟨r, hget, rfl⟩).1
  · exact h.deliver

theorem Registered.inbound {s : Receiver} {frame : Frame} {related : Option RequestId} (h : Registered n s) :
    Registered n (s.inbound frame related) := by
  cases frame with
  | request id method params =>
    unfold Receiver.inbound
    dsimp only
    split
    · exact h.route rfl
    · split
      · exact h.of_eq rfl rfl rfl rfl rfl rfl
      · exact h.deliver
  | notification method params =>
    unfold Receiver.inbound
    dsimp only
    split
    · exact h.route rfl
    · split
      · exact h
      · exact h.deliver
  | response id result =>
    unfold Receiver.inbound
    dsimp only
    split
    · exact h.of_eq rfl rfl rfl rfl rfl rfl
    · exact h.inboundAnswer
  | error id code message => exact h.inboundAnswer

/-- A lane whose job is done abandons no round. -/
theorem abandoning_of_none {c : HostCall} (h : c.lane.running = none) : c.abandoning = false := by
  simp [HostCall.abandoning, h]

theorem Registered.follow {s : Receiver} {r : Nat} {frame : Frame} (h : Registered n s) (hr : r < s.allocated)
    (hnone : (s.heap r).lane.running = none) : Registered n (s.follow r frame) := by
  have hc := h.closes r
  have hcounted : Registered n (s.update r .count) := h.update hr rfl rfl rfl ⟨hc.1, hc.2, hc.3, hc.4⟩
  have hheap : (s.update r .count).heap r = (s.heap r).count := update_heap_self ..
  rcases follow_cases r frame s with ⟨heq, -⟩ | ⟨hlive, ⟨result, state, heq⟩ | ⟨message, heq⟩⟩
  · rw [heq]
    exact h.await hr (by rw [abandoning_of_none hnone]; rfl) (by rintro _ ⟨⟩)
  · rw [heq]
    refine hcounted.await hr ?_ ?_
    · rw [hheap]
      exact (abandoning_of_none (c := s.heap r) hnone).symm
    · rintro _ ⟨⟩ ⟨⟩
  · rw [heq]
    exact hcounted.abandon ⟨hr, hheap ▸ hlive⟩

theorem Registered.takeUp {s s' : Receiver} {r : Nat} (h : Registered n s) (hs : s.takeUp r = some s') :
    Registered n s' := by
  unfold Receiver.takeUp at hs
  dsimp only at hs
  split at hs
  · next job rest hnone hqueue =>
    have hr := h.lt_of_queue hqueue
    have htaken : Registered n (s.update r (.takeJob job rest)) := h.update hr rfl rfl rfl ((h.closes r).take hqueue)
    have hheap : (s.update r (.takeJob job rest)).heap r = (s.heap r).takeJob job rest := update_heap_self ..
    have hgoes : ∀ p : Progress, p.isAbandoning = false → (p.isClosing = true → job.closes = true) →
        Registered n ((s.update r (.takeJob job rest)).proceed r p) := by
      refine fun p hp hcl => htaken.await hr ?_ fun q hq hclosing => ⟨job, ?_, ?_⟩
      · rw [hheap]
        exact hp.trans (abandoning_of_none (c := s.heap r) hnone).symm
      · rw [hheap]
        exact List.mem_append_right _ List.mem_cons_self
      · obtain rfl := Option.some.inj hq
        exact hcl hclosing
    cases job with
    | follow frame =>
      obtain rfl := Option.some.inj hs
      exact htaken.follow hr (by rw [hheap]; exact hnone)
    | conclude frame =>
      obtain rfl := Option.some.inj hs
      exact hgoes _ rfl fun _ => rfl
    | sealAll events =>
      obtain rfl := Option.some.inj hs
      exact hgoes _ rfl (by rintro ⟨⟩)
    | close =>
      obtain rfl := Option.some.inj hs
      exact hgoes _ rfl fun _ => rfl
    | answerAttempt id =>
      obtain rfl := Option.some.inj hs
      exact hgoes _ rfl (by rintro ⟨⟩)
    | sealOutcome params =>
      obtain rfl := Option.some.inj hs
      exact hgoes _ rfl (by rintro ⟨⟩)
  · cases hs

/-- The job in progress takes up items. -/
theorem Registered.handed {s : Receiver} {r : Nat} {p q : Progress} {events : List Json} (h : Registered n s)
    (hp : (s.heap r).lane.running = some p) (hab : q.isAbandoning = p.isAbandoning) (hcl : q.isClosing = p.isClosing) :
    Registered n ((s.proceed r q).update r fun c => { c with handed := c.handed ++ events }) := by
  have hr := h.lt_of_running hp
  have hproceed : Registered n (s.proceed r q) := by
    refine h.await hr ?_ fun q' hq' hclosing => (h.closes r).closing (.inl ⟨p, hp, ?_⟩)
    · simp [HostCall.abandoning, hp, hab]
    · obtain rfl := Option.some.inj hq'
      exact hcl ▸ hclosing
  have hc := hproceed.closes r
  exact hproceed.update (f := fun c => { c with handed := c.handed ++ events }) hr rfl rfl rfl ⟨hc.1, hc.2, hc.3, hc.4⟩

theorem Registered.takeItem {s s' : Receiver} {r : Nat} (h : Registered n s) (hs : s.takeItem r = some s') :
    Registered n s' := by
  unfold Receiver.takeItem at hs
  dsimp only at hs
  split at hs
  · next result state work hp =>
    obtain ⟨⟨after, events⟩, -, rfl⟩ := Option.map_eq_some_iff.1 hs
    exact h.handed hp rfl rfl
  · next message work hp =>
    obtain ⟨⟨after, events⟩, -, rfl⟩ := Option.map_eq_some_iff.1 hs
    exact h.handed hp rfl rfl
  · next event events closes hp =>
    obtain rfl := Option.some.inj hs
    exact h.handed hp rfl (by cases closes <;> rfl)
  · cases hs

theorem Registered.decided {s s' : Receiver} {r : Nat} {answer : Members} (h : Registered n s)
    (hs : s.decided r answer = some s') : Registered n s' := by
  unfold Receiver.decided at hs
  split at hs
  · next result state work hp =>
    obtain ⟨event, -, rfl⟩ := Option.map_eq_some_iff.1 hs
    exact h.goesOn hp rfl rfl rfl
  · next id hp =>
    obtain rfl := Option.some.inj hs
    have htool : Registered n { s with toTool := s.toTool ++ [.response id answer] } := h.of_eq rfl rfl rfl rfl rfl rfl
    exact htool.goesOn hp rfl rfl rfl
  · cases hs

/-- A round's leftover joins the lane of a call that was given no close. -/
theorem Registered.queueLeftover {s : Receiver} {r : Nat} (h : Registered n s) (hr : r < s.allocated)
    (hu : (s.heap r).Unclosed) (leftover : List Json) : Registered n (s.queueLeftover r leftover) := by
  unfold Receiver.queueLeftover
  split
  · exact h
  · refine h.dispatch (fun k hk => ?_) rfl
    obtain rfl := Option.some.inj hk
    exact ⟨hr, hu⟩

theorem update_update (s : Receiver) (r : Nat) (f g : HostCall → HostCall) :
    (s.update r f).update r g = s.update r fun c => g (f c) := by
  simp [Receiver.update, Function.update_idem]

/-- A job for a lane changes of its call the queue alone. -/
theorem queueLeftover_call {s : Receiver} {r : Nat} (h : (s.heap r).Closes) (hu : (s.heap r).Unclosed)
    (leftover : List Json) : ((s.queueLeftover r leftover).heap r).lane.running = (s.heap r).lane.running ∧
      ((s.queueLeftover r leftover).heap r).ended = (s.heap r).ended := by
  unfold Receiver.queueLeftover
  split
  · exact ⟨rfl, rfl⟩
  · rw [dispatch_isOpen (h.isOpen hu), update_heap_self]
    exact ⟨rfl, rfl⟩

theorem allocated_queueLeftover (s : Receiver) (r : Nat) (leftover : List Json) :
    (s.queueLeftover r leftover).allocated = s.allocated := by
  unfold Receiver.queueLeftover
  split
  · rfl
  · exact (sameBeside_dispatch ..).allocated

theorem Evicts.running {s s' : Receiver} (h : Evicts s s') (k : Nat) :
    (s'.heap k).lane.running = (s.heap k).lane.running := by
  rcases h.2 k with ⟨held, heq⟩ | ⟨-, held, heq⟩
  · rw [heq]
  · rw [heq]
    rfl

theorem Registered.retry {s : Receiver} {r : Nat} {state : Str} {responses : Members} {p : Progress} (h : Registered n s)
    (hr : s.Live r) (hp : (s.heap r).lane.running = some p) (hp' : p.isAbandoning = false) :
    Registered n (s.retry r state responses) := by
  let minted : Receiver := { s with nextId := s.nextId + 1 }
  have hminted : Registered n minted := by
    refine ⟨⟨h.indexed.calls, h.indexed.held, h.indexed.cleared, fun k hk => ?_, h.indexed.clients⟩, h.closes, h.unused,
      h.bounded⟩
    refine (h.indexed.issued k hk).imp_right ?_
    rintro ⟨m, hlt, hid⟩
    exact ⟨m, Nat.lt_succ_of_lt hlt, hid⟩
  have hkeyed : Registered n (minted.rekey r (newId s.nextId)) :=
    hminted.rekey hr h.indexed.minted (.inr ⟨s.nextId, Nat.lt_succ_self _, rfl⟩)
  refine hkeyed.goesOn (p := p) ?_ hp' rfl rfl
  rw [rekey_heap, if_pos rfl]
  exact hp

theorem Registered.cutOff {s s' : Receiver} {r : Nat} (h : Registered MAX_IDLE_SESSIONS s) (hs : s.cutOff r = some s') :
    Registered MAX_IDLE_SESSIONS s' := by
  unfold Receiver.cutOff at hs
  dsimp only at hs
  split at hs
  · next result state work hp =>
    have hr := h.lt_of_running hp
    split at hs
    · obtain rfl := Option.some.inj hs
      exact h.goesOn hp rfl rfl rfl
    · next hended =>
      have hended : (s.heap r).ended = false := Bool.eq_false_iff.2 hended
      have hu := (h.closes r).inFlight hended
      have hqueued := h.queueLeftover hr hu (outcomesOf work.todo)
      obtain ⟨hrun, hend⟩ := queueLeftover_call (h.closes r) hu (outcomesOf work.todo)
      have hlive : (s.queueLeftover r (outcomesOf work.todo)).Live r :=
        ⟨(allocated_queueLeftover ..).symm ▸ hr, hend.trans hended⟩
      split at hs
      · obtain ⟨held, hheld, rfl⟩ := Option.map_eq_some_iff.1 hs
        obtain ⟨held', hheld', hreg, hev⟩ := hqueued.hold state work.answers hlive
        obtain rfl := Option.some.inj (hheld'.symm.trans hheld)
        exact hreg.goesOn (((hev.running r).trans hrun).trans hp) rfl rfl rfl
      · obtain rfl := Option.some.inj hs
        exact hqueued.retry hlive (hrun.trans hp) rfl
  · next message work hp =>
    obtain rfl := Option.some.inj hs
    have hr := h.lt_of_running hp
    have hab : (s.heap r).abandoning = true := by simp [HostCall.abandoning, hp, Progress.isAbandoning]
    have hu := ((h.closes r).abandoning hab).2
    have hqueued := h.queueLeftover hr hu (outcomesOf work.todo)
    obtain ⟨hrun, -⟩ := queueLeftover_call (h.closes r) hu (outcomesOf work.todo)
    have hab' : ((s.queueLeftover r (outcomesOf work.todo)).heap r).abandoning = true := by
      rw [HostCall.abandoning, hrun]
      exact hab
    have hu' := ((hqueued.closes r).abandoning hab').2
    rw [dispatch_isOpen ((hqueued.closes r).isOpen hu'), proceed, update_update]
    exact hqueued.update (f := fun c => (c.queueJob .close).await (some (.delivering _)))
      ((allocated_queueLeftover ..).symm ▸ hr) rfl rfl rfl ((hqueued.closes r).abandoned hab' rfl rfl)
  · cases hs

theorem Registered.unsent {s s' : Receiver} {r : Nat} (h : Registered n s) (hs : s.unsent r = some s') :
    Registered n s' := by
  unfold Receiver.unsent at hs
  dsimp only at hs
  split at hs
  · next frame hp =>
    split at hs
    · obtain rfl := Option.some.inj hs
      exact h.goesOn hp rfl rfl rfl
    · next hended =>
      obtain rfl := Option.some.inj hs
      have hlive : s.Live r := ⟨h.lt_of_running hp, Bool.eq_false_iff.2 hended⟩
      exact (h.evict hlive).goesOn (((evicts_evict (h.closes r) hlive).running r).trans hp) rfl rfl rfl
  · cases hs

theorem Registered.finish {s s' : Receiver} {r : Nat} (h : Registered n s) (hs : s.finish r = some s') :
    Registered n s' := by
  unfold Receiver.finish at hs
  split at hs
  · next hp =>
    obtain rfl := Option.some.inj hs
    exact h.goesOn hp rfl rfl rfl
  · next hp =>
    obtain rfl := Option.some.inj hs
    refine h.await (h.lt_of_running hp) (by simp [HostCall.abandoning, hp, Progress.isAbandoning]) fun _ _ _ => ?_
    exact (h.closes r).closing (.inl ⟨_, hp, rfl⟩)
  · next frame hp =>
    obtain rfl := Option.some.inj hs
    exact h.deliver.goesOn hp rfl rfl rfl
  · next frame hp =>
    obtain rfl := Option.some.inj hs
    have htool : Registered n { s with toTool := s.toTool ++ [frame] } := h.of_eq rfl rfl rfl rfl rfl rfl
    exact htool.goesOn hp rfl rfl rfl
  · next hp =>
    obtain rfl := Option.some.inj hs
    rw [endJob, update_update]
    exact h.update (f := fun c => { c with lane := { c.lane with closed := true, running := none } })
      (h.lt_of_running hp) rfl rfl rfl ((h.closes r).closeLane hp)
  · next params hp =>
    obtain rfl := Option.some.inj hs
    exact h.goesOn hp rfl rfl rfl
  · cases hs

/-! ## Whole runs -/

theorem Registered.step {s s' : Receiver} (h : Registered MAX_IDLE_SESSIONS s) (hs : Step s s') :
    Registered MAX_IDLE_SESSIONS s' := by
  obtain ⟨a, hs⟩ := hs
  cases a with
  | outbound frame session =>
    simp only [Receiver.step] at hs
    split at hs
    · next hnew =>
      obtain rfl := Option.some.inj hs
      exact (h.outbound hnew).of_eq rfl rfl rfl rfl rfl rfl
    · cases hs
  | inbound frame related =>
    obtain rfl := Option.some.inj hs
    exact h.inbound
  | takeUp r => exact h.takeUp hs
  | takeItem r => exact h.takeItem hs
  | decided r answer => exact h.decided hs
  | cutOff r => exact h.cutOff hs
  | unsent r => exact h.unsent hs
  | finish r => exact h.finish hs

theorem registered_new (capability : Members) : Registered MAX_IDLE_SESSIONS (new capability) where
  indexed := by
    have hnone : ∀ r, ¬ (new capability).Live r := fun r h => Nat.not_lt_zero r h.1
    refine ⟨fun r id => ?_, fun r state => ?_, fun _ _ => rfl, fun r h => absurd h (hnone r), by rintro _ ⟨⟩⟩
    · exact iff_of_false (fun h => hnone r h.1) (by rintro ⟨_, ⟨⟩, -⟩)
    · exact iff_of_false (fun h => hnone r h.1) (by rintro ⟨_, ⟨⟩, -⟩)
  closes r := by
    refine ⟨fun _ => by rintro _ ⟨⟩, by rintro ⟨⟩, by rintro ⟨⟩, ?_⟩
    rintro (⟨_, ⟨⟩, -⟩ | ⟨⟨⟩⟩)
  unused _ _ := rfl
  bounded := Nat.zero_le _

theorem registered_run {capability : Members} {s : Receiver} (hr : Relation.ReflTransGen Step (new capability) s) :
    Registered MAX_IDLE_SESSIONS s := by
  induction hr with
  | refl => exact registered_new capability
  | tail _ h ih => exact ih.step h

/-- A run that acts in turn. -/
theorem reachable_steps {s s' : Receiver} {acts : List Act} (h : s.steps acts = some s') :
    Relation.ReflTransGen Step s s' := by
  induction acts generalizing s with
  | nil =>
    obtain rfl := Option.some.inj h
    exact .refl
  | cons a acts ih =>
    obtain ⟨after, ha, h⟩ := Option.bind_eq_some_iff.1 h
    exact .head ⟨a, ha⟩ (ih h)

/-- The round that is abandoned comes to its end, and the close is queued behind what is left of it. -/
theorem Registered.abandoning_ends {s : Receiver} {r : Nat} (h : Registered MAX_IDLE_SESSIONS s)
    (hab : (s.heap r).abandoning = true) : ∃ s', s.cutOff r = some s' ∧ (s'.heap r).ClosesLast := by
  obtain ⟨message, work, hp⟩ : ∃ message work, (s.heap r).lane.running = some (.abandoning message work) := by
    unfold HostCall.abandoning at hab
    cases hp : (s.heap r).lane.running with
    | none => simp [hp] at hab
    | some p =>
      rw [hp] at hab
      cases p with
      | abandoning message work => exact ⟨message, work, rfl⟩
      | _ => cases hab
  obtain ⟨hended, hu⟩ := (h.closes r).abandoning hab
  have hcut : s.cutOff r = some (((s.queueLeftover r (outcomesOf work.todo)).dispatch (some r) .close).proceed r
      (.delivering (.error (some (s.heap r).clientId) INTERNAL_ERROR message))) := by
    simp only [Receiver.cutOff, hp]
  refine ⟨_, hcut, ((h.cutOff hcut).closes r).ended ?_ ?_⟩
  · rw [proceed, update_heap_self]
    change ((Receiver.dispatch _ _ _).heap r).ended = true
    rw [(sameTables_dispatch ..).ended, (queueLeftover_call (h.closes r) hu _).2, hended]
  · rw [proceed, update_heap_self]
    rfl

/-- What stands for the calls of a connection. -/
structure Consistent (s : Receiver) : Prop where
  heldInFlight : ∀ state r responses, s.held.get state = some (r, responses) → s.Live r ∧ state ∈ (s.heap r).held
  heldIndexed : ∀ r state, r < s.allocated → state ∈ (s.heap r).held → ∃ responses, s.held.get state = some (r, responses)
  inFlight : ∀ r, s.Live r → ∀ id, s.calls.get id = some r ↔ id = (s.heap r).currentId
  ended : ∀ r, (s.heap r).ended = true → (∀ id, s.calls.get id ≠ some r) ∧
    ∀ state responses, s.held.get state ≠ some (r, responses)
  bounded : s.held.items.length ≤ MAX_IDLE_SESSIONS
  holds : ∀ r state responses, s.Live r → (s.hold r state responses).isSome = true
  unclosed : ∀ r, s.Live r → (s.heap r).Unclosed
  closed : ∀ r, (s.heap r).ended = true → (s.heap r).ClosesLast ∨
    (s.heap r).Unclosed ∧ ∃ s', s.cutOff r = some s' ∧ (s'.heap r).ClosesLast

/-- **The registry is consistent in every state a run reaches.** -/
theorem call_registry {capability : Members} {s : Receiver} (hr : Relation.ReflTransGen Step (new capability) s) :
    Consistent s := by
  have h := registered_run hr
  refine ⟨fun state r responses hget => h.indexed.holds_of_get hget, fun r state hlt hin => ?_, fun r hlive id => ?_,
    fun r hended => ⟨fun id hget => ?_, fun state responses hget => ?_⟩, h.bounded, fun r state responses hlive => ?_,
    fun r hlive => (h.closes r).inFlight hlive.2, fun r hended => ?_⟩
  · have hlive : (s.heap r).ended = false := by
      refine Bool.eq_false_iff.2 fun hended => ?_
      rw [h.indexed.cleared r hended] at hin
      cases hin
    obtain ⟨⟨_, responses⟩, hget, rfl⟩ := (h.indexed.held r state).1 ⟨⟨hlt, hlive⟩, hin⟩
    exact ⟨responses, hget⟩
  · constructor
    · intro hget
      exact ((h.indexed.calls r id).2 ⟨r, hget, rfl⟩).2.symm
    · rintro rfl
      obtain ⟨_, hget, rfl⟩ := (h.indexed.calls r _).1 ⟨hlive, rfl⟩
      exact hget
  · have hlive := ((h.indexed.calls r id).2 ⟨r, hget, rfl⟩).1.2
    exact Bool.false_ne_true (hlive.symm.trans hended)
  · have hlive := (h.indexed.holds_of_get hget).1.2
    exact Bool.false_ne_true (hlive.symm.trans hended)
  · obtain ⟨s', hs', -⟩ := h.hold state responses hlive
    rw [hs']
    rfl
  · cases hab : (s.heap r).abandoning with
    | false => exact .inl ((h.closes r).ended hended hab)
    | true => exact .inr ⟨((h.closes r).abandoning hab).2, h.abandoning_ends hab⟩

/-- The tool asks the client of its call for input: the round is held for its retry. -/
def heldSample : Option Receiver :=
  let asked : Members := [(RESULT_TYPE, .str INPUT_REQUIRED), (REQUEST_STATE, .str (lit "round-1")), (INPUT_REQUESTS, .obj [(lit "name", .null)])]
  (new []).steps [
    .outbound (.request (.int 1) TOOLS_CALL_METHOD (some [])) (lit "session-1"),
    .inbound (.response (.int 1) asked) none,
    .takeUp 0,
    .cutOff 0]

/-- It holds one round of a call in flight. -/
theorem call_registry_held : ∃ s, heldSample = some s ∧ (s.held.get (lit "round-1")).map Prod.fst = some 0 ∧ Consistent s := by
  have hround : (heldSample.bind fun s => s.held.get (lit "round-1")).map Prod.fst = some 0 := by decide
  obtain ⟨⟨_, responses⟩, hbind, hround⟩ := Option.map_eq_some_iff.1 hround
  obtain ⟨s, hs, hget⟩ := Option.bind_eq_some_iff.1 hbind
  refine ⟨s, hs, ?_, call_registry (reachable_steps hs)⟩
  rw [hget]
  exact congrArg some hround

end Receiver

end AuditableMcp
