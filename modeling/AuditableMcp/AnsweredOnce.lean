import AuditableMcp.OwnAnswers
/-!
# The ids a tool answers

The peer puts an id on every request of its own and the session answers a request it was given once at most, which
`assumes` says. The seam re-addresses what the session answers: over the ids of a call's rounds, to the retry a final
frame waits for, or to nobody where the call was cancelled. Each id is answered once at most and none of a call's after
its cancellation (`AnsweredOnce`), where the seam still knew of the call when its answer came (`heeds`): it forgets a
cancellation when the bound has passed (`_forget_cancelled`) and every call at the close, and an answer that comes then
goes out as the session wrote it. Nor does it take back a frame of its own that is queued when the cancellation comes.

`AnswerDesk` is what of a seam this is about. What the session may still answer is on an id that nothing was said on and whose
call is over, on that of a call in flight, on that of one it knows was cancelled, or on one it forgot (`Kept.pending`).
-/
namespace AuditableMcp

open JsonValue
open ToolSeam (answerId)

/-- The id a request asks an answer on. -/
def askedId : Frame → Option RequestId
  | .request id _ _ => some id
  | _ => none

/-- The ids of a call, and where it stands. -/
structure AnswerCall where
  originalId : RequestId
  modern : Bool
  currentId : Option RequestId
  ids : List RequestId
  round : Option OpenRound
  /-- Nothing is buffered. -/
  idle : Bool
  parked : Bool
  finished : Bool
  ended : Bool
  cancelledAt : Option Nat

structure AnswerDesk where
  calls : Nat → AnswerCall
  callCount : Nat
  handshakeId : Option RequestId
  inFlight : Dict RequestId Nat
  rounds : Dict Str (Nat × OpenRound)
  waiting : Dict RequestId Nat
  cancelled : Dict RequestId Nat
  out : List Frame
  /-- The ids the seam's own frames on the queue answer, and those the session's do. -/
  own : List RequestId
  hooked : List RequestId
  /-- The ids of the requests that came in, and of those the session was given. -/
  asked : List RequestId
  given : List RequestId
  written : List RequestId
  forgotten : List RequestId

namespace AnswerDesk

/-- The ids an answer went out on, or is about to. -/
def answered (b : AnswerDesk) : List RequestId := b.out.filterMap answerId ++ b.own

/-- The session has yet to answer this id, or its answer is on the queue. -/
def Awaits (b : AnswerDesk) (id : RequestId) : Prop := id ∈ b.given ∧ (id ∉ b.written ∨ id ∈ b.hooked)

/-- Nothing was said on this id, and nobody withholds what may be. -/
structure Unsaid (b : AnswerDesk) (id : RequestId) : Prop where
  silent : id ∉ b.answered
  left : ∀ c, id ∈ (b.calls c).ids → (b.calls c).ended = true ∧ (b.calls c).cancelledAt = none

/-- A request that has only just come in. -/
structure Fresh (b : AnswerDesk) (id : RequestId) : Prop where
  asked : id ∈ b.asked
  silent : id ∉ b.answered
  ids : ∀ c, id ∉ (b.calls c).ids
  given : id ∉ b.given
  handshake : b.handshakeId ≠ some id

/-- An answer may go out on this id. -/
structure Sayable (b : AnswerDesk) (id : RequestId) : Prop where
  asked : id ∈ b.asked
  silent : id ∉ b.answered
  current : ∀ c, (b.calls c).currentId = some id → (b.calls c).ended = true
  cancelled : ∀ c, (b.calls c).cancelledAt ≠ none → id ∉ (b.calls c).ids
  awaited : b.Awaits id → ¬ b.Unsaid id

/-- The session's answer on this id is off the queue, and it is known what becomes of it. -/
structure Due (b : AnswerDesk) (id : RequestId) : Prop where
  asked : id ∈ b.asked
  taken : ¬ b.Awaits id
  known : b.Unsaid id ∨ (b.inFlight.get id).isSome ∨ (b.cancelled.get id).isSome

structure Kept (b : AnswerDesk) : Prop where
  once : b.answered.Nodup
  known : ∀ id ∈ b.answered, id ∈ b.asked
  open_ : ∀ c id, (b.calls c).ended = false → (b.calls c).currentId = some id → id ∉ b.answered
  ids : ∀ c, ∀ id ∈ (b.calls c).ids, id ∈ b.asked
  current : ∀ c id, (b.calls c).currentId = some id → id ∈ (b.calls c).ids
  original : ∀ c, (b.calls c).ids ≠ [] → (b.calls c).originalId ∈ (b.calls c).ids
  apart : ∀ c d id, id ∈ (b.calls c).ids → id ∈ (b.calls d).ids → c = d
  unopened : ∀ c, b.callCount ≤ c → (b.calls c).ids = [] ∧ (b.calls c).ended = true
  begun : ∀ c, (b.calls c).ended = false → (b.calls c).ids ≠ []
  legacy : ∀ c, (b.calls c).modern = false → (b.calls c).ended = false →
    (b.calls c).currentId = some (b.calls c).originalId ∧ (b.calls c).round = none ∧ (b.calls c).idle = true
  parked : ∀ c, (b.calls c).parked = true → (b.calls c).finished = true
  inFlight : ∀ id c, b.inFlight.get id = some c →
    (b.calls c).originalId = id ∧ (b.calls c).finished = false ∧ (b.calls c).ended = false
  waiting : ∀ id c, b.waiting.get id = some c →
    (b.calls c).originalId = id ∧ (b.calls c).finished = true ∧ (b.calls c).ended = false
  round : ∀ token c r, b.rounds.get token = some (c, r) →
    (b.calls c).round = some r ∧ r.token = token ∧ (b.calls c).ended = false
  cancelled : ∀ id c, b.cancelled.get id = some c → ∃ d, id ∈ (b.calls d).ids
  handshake : ∀ id, b.handshakeId = some id → id ∈ b.asked ∧ ∀ c, id ∉ (b.calls c).ids
  queued : b.hooked.Nodup
  heard : ∀ id ∈ b.hooked, id ∈ b.written ∧ id ∈ b.given
  given : ∀ id ∈ b.given, id ∈ b.asked ∧ ∀ c, id ∈ (b.calls c).ids → (b.calls c).originalId = id
  concluded : ∀ c, (b.calls c).finished = true → (b.calls c).ended = false → ¬ b.Awaits (b.calls c).originalId
  pending : ∀ id, b.Awaits id →
    b.Unsaid id ∨ (b.inFlight.get id).isSome ∨ (b.cancelled.get id).isSome ∨ id ∈ b.forgotten
  gone : ∀ c place, (b.calls c).cancelledAt = some place → (b.calls c).ended = true ∧ place ≤ b.out.length ∧
    ∀ id ∈ (b.out.drop place).filterMap answerId ++ b.own, id ∉ (b.calls c).ids

variable {b : AnswerDesk}

/-! ## What is said -/

theorem Unsaid.sayable (h : b.Kept) {id : RequestId} (hid : b.Unsaid id) (hasked : id ∈ b.asked)
    (hawaits : ¬ b.Awaits id) : b.Sayable id where
  asked := hasked
  silent := hid.silent
  current := fun c hc => (hid.left c (h.current c id hc)).1
  cancelled := fun c hc hmem => hc (hid.left c hmem).2
  awaited := fun ha => absurd ha hawaits

theorem Fresh.sayable (h : b.Kept) {id : RequestId} (hid : b.Fresh id) : b.Sayable id where
  asked := hid.asked
  silent := hid.silent
  current := fun c hc => absurd (h.current c id hc) (hid.ids c)
  cancelled := fun c _ => hid.ids c
  awaited := fun ha => absurd ha.1 hid.given

/-- The answers move on, and one is added to them at most. -/
theorem Kept.answers (h : b.Kept) (said : Option RequestId) (hsaid : ∀ id ∈ said, b.Sayable id) (out : List Frame)
    (own : List RequestId) (honce : (out.filterMap answerId ++ own).Nodup)
    (hmem : ∀ id ∈ out.filterMap answerId ++ own, id ∈ said ∨ id ∈ b.answered) (hlen : b.out.length ≤ out.length)
    (hlate : ∀ place ≤ b.out.length, ∀ id ∈ (out.drop place).filterMap answerId ++ own,
      id ∈ said ∨ id ∈ (b.out.drop place).filterMap answerId ++ b.own) :
    ({ b with out, own } : AnswerDesk).Kept := by
  refine { h with once := honce, known := ?_, open_ := ?_, pending := ?_, gone := ?_ }
  · intro id hid
    rcases hmem id hid with hsome | hold
    · exact (hsaid id hsome).asked
    · exact h.known id hold
  · intro c id hended hcurrent hid
    rcases hmem id hid with hsome | hold
    · have htrue := (hsaid id hsome).current c hcurrent
      rw [hended] at htrue
      cases htrue
    · exact h.open_ c id hended hcurrent hold
  · intro id hawaits
    rcases h.pending id hawaits with hunsaid | hrest
    · refine .inl ⟨fun hid => ?_, hunsaid.left⟩
      rcases hmem id hid with hsome | hold
      · exact (hsaid id hsome).awaited hawaits hunsaid
      · exact hunsaid.silent hold
    · exact .inr hrest
  · intro c place hplace
    obtain ⟨hended, hle, hnone⟩ := h.gone c place hplace
    refine ⟨hended, hle.trans hlen, fun id hid => ?_⟩
    rcases hlate place hle id hid with hsome | hold
    · exact (hsaid id hsome).cancelled c fun hno => Option.some_ne_none place (hplace.symm.trans hno)
    · exact hnone id hold

/-- A frame goes out. -/
theorem Kept.pass (h : b.Kept) {f : Frame} (hf : ∀ id, answerId f = some id → b.Sayable id) :
    ({ b with out := b.out ++ [f] } : AnswerDesk).Kept := by
  have hperm : ((b.out ++ [f]).filterMap answerId ++ b.own).Perm ((answerId f).toList ++ b.answered) := by
    rw [List.filterMap_append, answered, ← List.append_assoc]
    have hone : [f].filterMap answerId = (answerId f).toList := by
      cases hanswer : answerId f <;> simp [hanswer]
    rw [hone]
    exact List.perm_append_comm.append_right _
  have hdrop : ∀ place ≤ b.out.length, ∀ id ∈ ((b.out ++ [f]).drop place).filterMap answerId ++ b.own,
      id ∈ answerId f ∨ id ∈ (b.out.drop place).filterMap answerId ++ b.own := by
    intro place hle id hid
    rw [List.drop_append_of_le_length hle, List.filterMap_append] at hid
    rcases List.mem_append.1 hid with hid | hid
    · rcases List.mem_append.1 hid with hid | hid
      · exact .inr (List.mem_append_left _ hid)
      · obtain ⟨g, hg, hgid⟩ := List.mem_filterMap.1 hid
        exact .inl (List.mem_singleton.1 hg ▸ hgid)
    · exact .inr (List.mem_append_right _ hid)
  refine h.answers _ hf _ _ (hperm.nodup_iff.2 ?_) (fun id hid => ?_) (by simp) hdrop
  · cases hanswer : answerId f with
    | none => exact h.once
    | some id => exact List.nodup_cons.2 ⟨(hf id hanswer).silent, h.once⟩
  · simpa using hperm.mem_iff.1 hid

/-- The seam queues an answer of its own. -/
theorem Kept.say (h : b.Kept) {id : RequestId} (hid : b.Sayable id) :
    ({ b with own := b.own ++ [id] } : AnswerDesk).Kept := by
  have hsplit : ∀ (l : List RequestId) (i : RequestId), i ∈ l ++ (b.own ++ [id]) → i ∈ some id ∨ i ∈ l ++ b.own := by
    intro l i hi
    rw [← List.append_assoc] at hi
    rcases List.mem_append.1 hi with hi | hi
    · exact .inr hi
    · exact .inl (by simp [List.mem_singleton.1 hi])
  refine h.answers (some id) (fun i hi => Option.some.inj hi ▸ hid) _ _ ?_ (hsplit _) le_rfl fun place _ => hsplit _
  rw [← List.append_assoc]
  refine List.nodup_append.2 ⟨h.once, List.nodup_singleton id, ?_⟩
  rintro i hi j hj rfl
  exact hid.silent (List.mem_singleton.1 hj ▸ hi)

/-- What the seam queued goes out. -/
theorem Kept.post (h : b.Kept) {f : Frame} {rest : List RequestId} (hown : b.own = (answerId f).toList ++ rest) :
    ({ b with out := b.out ++ [f], own := rest } : AnswerDesk).Kept := by
  have hone : [f].filterMap answerId = (answerId f).toList := by
    cases hanswer : answerId f <;> simp [hanswer]
  have hsame : (b.out ++ [f]).filterMap answerId ++ rest = b.answered := by
    rw [List.filterMap_append, hone, List.append_assoc, ← hown]
    rfl
  refine h.answers none nofun _ _ (hsame ▸ h.once) (fun id hid => .inr (hsame ▸ hid)) (by simp) ?_
  intro place hle id hid
  rw [List.drop_append_of_le_length hle, List.filterMap_append, hone, List.append_assoc, ← hown] at hid
  exact .inr hid

/-- Some of what was queued is taken back. -/
theorem Kept.withdraw (h : b.Kept) {own hooked : List RequestId} (hown : own.Sublist b.own)
    (hhooked : hooked.Sublist b.hooked) : ({ b with own, hooked } : AnswerDesk).Kept := by
  have hless := h.answers none nofun b.out own (h.once.sublist (hown.append_left _))
    (fun id hid => .inr ((hown.append_left _).subset hid)) le_rfl
    fun place _ id hid => .inr ((hown.append_left _).subset hid)
  have hawaits : ∀ id, ({ b with own, hooked } : AnswerDesk).Awaits id → ({ b with own } : AnswerDesk).Awaits id := fun id hid =>
    ⟨hid.1, hid.2.imp_right fun hmem => hhooked.subset hmem⟩
  refine { hless with
    queued := h.queued.sublist hhooked
    heard := fun id hid => h.heard id (hhooked.subset hid)
    concluded := fun c hfinished hended hid => hless.concluded c hfinished hended (hawaits _ hid)
    pending := fun id hid => ?_ }
  rcases hless.pending id (hawaits id hid) with hunsaid | hrest
  · exact .inl ⟨hunsaid.silent, hunsaid.left⟩
  · exact .inr hrest

/-! ## What becomes of a call -/

/-- What a call may become, on the ids it has. -/
structure Later (old x : AnswerCall) : Prop where
  originalId : x.originalId = old.originalId
  modern : x.modern = old.modern
  ids : x.ids = old.ids
  current : ∀ id, x.currentId = some id → old.currentId = some id
  ended : old.ended = true → x.ended = true
  mark : old.ended = true → x.cancelledAt = old.cancelledAt
  parked : x.parked = true → x.finished = true
  legacy : x.modern = false → x.ended = false →
    x.currentId = some x.originalId ∧ x.round = none ∧ x.idle = true

def setCall (b : AnswerDesk) (c : Nat) (x : AnswerCall) : AnswerDesk := { b with calls := Function.update b.calls c x }

theorem Unsaid.advance {c : Nat} {x : AnswerCall} (hx : Later (b.calls c) x) {id : RequestId} (hid : b.Unsaid id) :
    (b.setCall c x).Unsaid id := by
  refine ⟨hid.silent, fun d hd => ?_⟩
  by_cases hdc : d = c
  · subst hdc
    simp only [setCall, Function.update_self] at hd ⊢
    rw [hx.ids] at hd
    obtain ⟨hended, hmark⟩ := hid.left d hd
    exact ⟨hx.ended hended, (hx.mark hended).trans hmark⟩
  · simp only [setCall, Function.update_of_ne hdc] at hd ⊢
    exact hid.left d hd

/-- A call moves on, and the tables with it. -/
theorem Kept.advance (h : b.Kept) {c : Nat} {x : AnswerCall} (hx : Later (b.calls c) x)
    {inFlight waiting : Dict RequestId Nat} {rounds : Dict Str (Nat × OpenRound)}
    (hinFlight : ∀ id d, inFlight.get id = some d →
      b.inFlight.get id = some d ∧ (d = c → x.finished = false ∧ x.ended = false))
    (hwaiting : ∀ id d, waiting.get id = some d → d ≠ c ∧ b.waiting.get id = some d ∨
      d = c ∧ x.originalId = id ∧ x.finished = true ∧ x.ended = false)
    (hrounds : ∀ token d r, rounds.get token = some (d, r) → d ≠ c ∧ b.rounds.get token = some (d, r) ∨
      d = c ∧ x.round = some r ∧ r.token = token ∧ x.ended = false)
    (hconcluded : x.finished = true → x.ended = false → ¬ b.Awaits x.originalId)
    (hpending : ∀ id, b.Awaits id → (b.inFlight.get id).isSome → (b.setCall c x).Unsaid id ∨
      (inFlight.get id).isSome ∨ (b.cancelled.get id).isSome ∨ id ∈ b.forgotten)
    (hgone : ∀ place, x.cancelledAt = some place → (b.calls c).cancelledAt = some place ∨
      place = b.out.length ∧ x.ended = true ∧ ∀ id ∈ b.own, id ∉ x.ids) :
    ({ b.setCall c x with inFlight, waiting, rounds } : AnswerDesk).Kept := by
  have hself : Function.update b.calls c x c = x := Function.update_self _ _ _
  have hother : ∀ d, d ≠ c → Function.update b.calls c x d = b.calls d := fun d hd => Function.update_of_ne hd _ _
  have hids : ∀ d, (Function.update b.calls c x d).ids = (b.calls d).ids := by
    intro d
    by_cases hd : d = c
    · rw [hd, hself, hx.ids]
    · rw [hother d hd]
  have horiginal : ∀ d, (Function.update b.calls c x d).originalId = (b.calls d).originalId := by
    intro d
    by_cases hd : d = c
    · rw [hd, hself, hx.originalId]
    · rw [hother d hd]
  have hended : ∀ d, (Function.update b.calls c x d).ended = false → (b.calls d).ended = false := by
    intro d hlive
    by_cases hd : d = c
    · subst hd
      rw [hself] at hlive
      cases hold : (b.calls d).ended with
      | false => rfl
      | true => exact absurd (hx.ended hold) (by simp [hlive])
    · rwa [hother d hd] at hlive
  have hcurrent : ∀ d id, (Function.update b.calls c x d).currentId = some id → (b.calls d).currentId = some id := by
    intro d id hid
    by_cases hd : d = c
    · subst hd
      rw [hself] at hid
      exact hx.current id hid
    · rwa [hother d hd] at hid
  refine {
    once := h.once
    known := h.known
    open_ := fun d id hlive hid => h.open_ d id (hended d hlive) (hcurrent d id hid)
    ids := fun d id hid => h.ids d id (hids d ▸ hid)
    current := fun d id hid => (hids d).symm ▸ h.current d id (hcurrent d id hid)
    original := fun d hd => ?_
    apart := fun d e id hd he => h.apart d e id (hids d ▸ hd) (hids e ▸ he)
    unopened := fun d hd => ⟨(hids d).trans (h.unopened d hd).1, ?_⟩
    begun := fun d hlive => (hids d).symm ▸ h.begun d (hended d hlive)
    legacy := fun d => ?_
    parked := fun d => ?_
    inFlight := fun id d hget => ?_
    waiting := fun id d hget => ?_
    round := fun token d r hget => ?_
    cancelled := fun id d hget => ?_
    handshake := fun id hid => ⟨(h.handshake id hid).1, fun d => (hids d).symm ▸ (h.handshake id hid).2 d⟩
    queued := h.queued
    heard := h.heard
    given := fun id hid => ⟨(h.given id hid).1, fun d hd => (horiginal d).trans ((h.given id hid).2 d (hids d ▸ hd))⟩
    concluded := fun d => ?_
    pending := fun id hawaits => ?_
    gone := fun d place => ?_ }
  · change (Function.update b.calls c x d).originalId ∈ (Function.update b.calls c x d).ids
    rw [hids, horiginal]
    exact h.original d (hids d ▸ hd)
  · cases hlive : (Function.update b.calls c x d).ended with
    | true => exact hlive
    | false => exact absurd (h.unopened d hd).2 (by simp [hended d hlive])
  · by_cases hd : d = c
    · subst hd
      simpa [setCall] using hx.legacy
    · simpa [setCall, hd] using h.legacy d
  · by_cases hd : d = c
    · subst hd
      simpa [setCall] using hx.parked
    · simpa [setCall, hd] using h.parked d
  · obtain ⟨hold, hc⟩ := hinFlight id d hget
    obtain ⟨hid, hfinished, hlive⟩ := h.inFlight id d hold
    by_cases hd : d = c
    · subst hd
      simpa [setCall, hx.originalId, hid] using hc rfl
    · simpa [setCall, hd] using ⟨hid, hfinished, hlive⟩
  · rcases hwaiting id d hget with ⟨hd, hold⟩ | ⟨rfl, hnew⟩
    · simpa [setCall, hd] using h.waiting id d hold
    · simpa [setCall] using hnew
  · rcases hrounds token d r hget with ⟨hd, hold⟩ | ⟨rfl, hnew⟩
    · simpa [setCall, hd] using h.round token d r hold
    · simpa [setCall] using hnew
  · obtain ⟨e, he⟩ := h.cancelled id d hget
    exact ⟨e, (hids e).symm ▸ he⟩
  · by_cases hd : d = c
    · subst hd
      simpa [setCall, Awaits] using hconcluded
    · simpa [setCall, hd, Awaits] using h.concluded d
  · rcases h.pending id hawaits with hunsaid | hflying | hrest
    · have hnow := hunsaid.advance hx
      exact .inl ⟨hnow.silent, hnow.left⟩
    · rcases hpending id hawaits hflying with hnow | hrest
      · exact .inl ⟨hnow.silent, hnow.left⟩
      · exact .inr hrest
    · exact .inr (.inr hrest)
  · by_cases hd : d = c
    · subst hd
      intro hplace
      simp only [setCall, Function.update_self] at hplace ⊢
      rcases hgone place hplace with hold | ⟨rfl, hover, hown⟩
      · obtain ⟨hover, hle, hnone⟩ := h.gone d place hold
        exact ⟨hx.ended hover, hle, hx.ids.symm ▸ hnone⟩
      · exact ⟨hover, le_rfl, by simpa using hown⟩
    · simpa [setCall, hd] using h.gone d place

theorem Kept.unmarked (h : b.Kept) {c : Nat} (hlive : (b.calls c).ended = false) : (b.calls c).cancelledAt = none := by
  cases hmark : (b.calls c).cancelledAt with
  | none => rfl
  | some place => exact absurd (h.gone c place hmark).1 (by simp [hlive])

/-- The answer on the id a call stands at, where the call leaves that id. -/
theorem Sayable.readdress (h : b.Kept) {c : Nat} {x : AnswerCall} {id : RequestId}
    (hcurrent : (b.calls c).currentId = some id) (hlive : (b.calls c).ended = false)
    (hleaves : x.ended = true ∨ x.currentId ≠ some id) (hids : x.ids = (b.calls c).ids) (hmark : x.cancelledAt = none)
    (hawaits : b.Awaits id → x.ended = false) (inFlight waiting : Dict RequestId Nat)
    (rounds : Dict Str (Nat × OpenRound)) : ({ b.setCall c x with inFlight, waiting, rounds } : AnswerDesk).Sayable id := by
  have hmem : id ∈ (b.calls c).ids := h.current c id hcurrent
  have hself : Function.update b.calls c x c = x := Function.update_self _ _ _
  refine ⟨h.ids c id hmem, h.open_ c id hlive hcurrent, fun d hd => ?_, fun d hd hdmem => ?_, fun ha hunsaid => ?_⟩
  · by_cases hdc : d = c
    · subst hdc
      simp only [setCall, Function.update_self] at hd ⊢
      rcases hleaves with hover | hne
      · exact hover
      · exact absurd hd hne
    · simp only [setCall, Function.update_of_ne hdc] at hd
      exact absurd (h.apart d c id (h.current d id hd) hmem) hdc
  · by_cases hdc : d = c
    · subst hdc
      simp only [setCall, Function.update_self] at hd
      exact hd hmark
    · simp only [setCall, Function.update_of_ne hdc] at hdmem
      exact hdc (h.apart d c id hdmem hmem)
  · have hover := (hunsaid.left c (by simpa [setCall, hids] using hmem)).1
    simp [setCall, hawaits ha] at hover

/-- A call is over, and in no table any more. -/
theorem Kept.endCall (h : b.Kept) {c : Nat} {x : AnswerCall} (hx : Later (b.calls c) x) (hover : x.ended = true)
    (hmem : (b.calls c).originalId ∈ (b.calls c).ids)
    (hknown : (b.calls c).finished = true ∨ (b.calls c).currentId = some (b.calls c).originalId ∨
      (b.cancelled.get (b.calls c).originalId).isSome ∨ (b.calls c).originalId ∈ b.forgotten)
    (hgone : ∀ place, x.cancelledAt = some place → (b.calls c).cancelledAt = some place ∨
      place = b.out.length ∧ ∀ id ∈ b.own, id ∉ x.ids)
    (hmark : (b.calls c).ended = false → x.cancelledAt ≠ none → (b.cancelled.get (b.calls c).originalId).isSome ∨
      (b.calls c).finished = true) :
    ({ b.setCall c x with
      inFlight := b.inFlight.pop (b.calls c).originalId
      waiting := b.waiting.pop (b.calls c).originalId
      rounds := (b.calls c).round.elim b.rounds fun r => b.rounds.pop r.token } : AnswerDesk).Kept := by
  refine h.advance hx ?_ ?_ ?_ (by simp [hover]) ?_ fun place hplace => (hgone place hplace).imp_right fun hnew =>
    ⟨hnew.1, hover, hnew.2⟩
  · intro id d hget
    rw [Dict.get_pop] at hget
    split at hget
    · cases hget
    · next hne =>
      refine ⟨hget, ?_⟩
      rintro rfl
      exact absurd (h.inFlight id d hget).1 fun heq => hne (by simp [heq])
  · intro id d hget
    rw [Dict.get_pop] at hget
    split at hget
    · cases hget
    · next hne =>
      refine .inl ⟨?_, hget⟩
      rintro rfl
      exact hne (by simp [(h.waiting id d hget).1])
  · intro token d r hget
    refine .inl ?_
    cases hround : (b.calls c).round with
    | none =>
      rw [hround] at hget
      refine ⟨?_, hget⟩
      rintro rfl
      exact absurd (hround.symm.trans (h.round token d r hget).1) (by simp)
    | some q =>
      rw [hround] at hget
      have hold := Dict.get_of_pop hget
      refine ⟨?_, hold⟩
      rintro rfl
      obtain ⟨hq, htoken, -⟩ := h.round token d r hold
      obtain rfl := Option.some.inj (hround.symm.trans hq)
      rw [Option.elim_some, htoken, Dict.get_pop_self] at hget
      cases hget
  · intro id hawaits hflying
    obtain ⟨d, hget⟩ := Option.isSome_iff_exists.1 hflying
    obtain ⟨hid, hfinished, hlive⟩ := h.inFlight id d hget
    by_cases hne : id = (b.calls c).originalId
    · subst hne
      have hdc : d = c := h.apart d c _ (hid ▸ h.original d (h.begun d hlive)) hmem
      subst hdc
      rcases hknown with hfin | hcurrent | hcancelled | hforgotten
      · exact absurd hfin (by simp [hfinished])
      · cases hx' : x.cancelledAt with
        | none =>
          refine .inl ⟨h.open_ d _ hlive hcurrent, fun e he => ?_⟩
          by_cases hed : e = d
          · subst hed
            simpa [setCall] using ⟨hover, hx'⟩
          · simp only [setCall, Function.update_of_ne hed] at he
            exact absurd (h.apart e d _ he hmem) hed
        | some place =>
          rcases hmark hlive (by simp [hx']) with hcancelled | hfin
          · exact .inr (.inr (.inl hcancelled))
          · exact absurd hfin (by simp [hfinished])
      · exact .inr (.inr (.inl hcancelled))
      · exact .inr (.inr (.inr hforgotten))
    · exact .inr (.inl (by rw [Dict.get_pop_ne _ hne]; exact hflying))

/-- What concerns no table: only what the call buffers, its answer and its handler. -/
theorem Kept.mend (h : b.Kept) {c : Nat} {x : AnswerCall} (hx : Later (b.calls c) x)
    (hfinished : x.finished = (b.calls c).finished) (hended : x.ended = (b.calls c).ended)
    (hround : x.round = (b.calls c).round) (hmark : x.cancelledAt = (b.calls c).cancelledAt) :
    (b.setCall c x).Kept := by
  refine h.advance hx ?_ ?_ ?_ ?_ (fun id _ hflying => .inr (.inl hflying)) fun place hplace => .inl (hmark ▸ hplace)
  · intro id d hget
    refine ⟨hget, ?_⟩
    rintro rfl
    rw [hfinished, hended]
    exact (h.inFlight id d hget).2
  · intro id d hget
    by_cases hd : d = c
    · subst hd
      refine .inr ⟨rfl, ?_⟩
      rw [hx.originalId, hfinished, hended]
      exact h.waiting id d hget
    · exact .inl ⟨hd, hget⟩
  · intro token d r hget
    by_cases hd : d = c
    · subst hd
      refine .inr ⟨rfl, ?_⟩
      rw [hround, hended]
      exact h.round token d r hget
    · exact .inl ⟨hd, hget⟩
  · rw [hfinished, hended, hx.originalId]
    exact h.concluded c

/-- Its handler has concluded: the session's answer to its request is off the queue. -/
theorem Kept.finish (h : b.Kept) {id : RequestId} {c : Nat} (hget : b.inFlight.get id = some c)
    (hawaits : ¬ b.Awaits id) : ({ b.setCall c { b.calls c with finished := true } with
      inFlight := b.inFlight.pop id } : AnswerDesk).Kept := by
  obtain ⟨rfl, hfinished, hlive⟩ := h.inFlight id c hget
  have hx : Later (b.calls c) { b.calls c with finished := true } :=
    ⟨rfl, rfl, rfl, fun _ hid => hid, fun hover => hover, fun _ => rfl, fun _ => rfl, h.legacy c⟩
  refine h.advance hx ?_ ?_ ?_ (fun _ _ => hawaits) ?_ fun place hplace => .inl hplace
  · intro id d hd
    rw [Dict.get_pop] at hd
    split at hd
    · cases hd
    · next hne =>
      refine ⟨hd, ?_⟩
      rintro rfl
      exact absurd (h.inFlight id d hd).1 fun heq => hne (by simp [heq])
  · intro id d hd
    refine .inl ⟨?_, hd⟩
    rintro rfl
    exact absurd (h.waiting id d hd).2.1 (by simp [hfinished])
  · intro token d r hd
    by_cases hdc : d = c
    · subst hdc
      exact .inr ⟨rfl, h.round token d r hd⟩
    · exact .inl ⟨hdc, hd⟩
  · intro id ha hflying
    by_cases hid : id = (b.calls c).originalId
    · exact absurd (hid ▸ ha) hawaits
    · exact .inr (.inl (by rw [Dict.get_pop_ne _ hid]; exact hflying))

/-- Its final frame waits for a retry. -/
theorem Kept.park (h : b.Kept) {c : Nat} (hfinished : (b.calls c).finished = true) (hlive : (b.calls c).ended = false) :
    ({ b.setCall c { b.calls c with parked := true } with
      waiting := (b.waiting.pop (b.calls c).originalId).set (b.calls c).originalId c } : AnswerDesk).Kept := by
  have hx : Later (b.calls c) { b.calls c with parked := true } :=
    ⟨rfl, rfl, rfl, fun _ hid => hid, fun hover => hover, fun _ => rfl, fun _ => hfinished, h.legacy c⟩
  refine h.advance hx ?_ ?_ ?_ (fun _ _ => h.concluded c hfinished hlive) (fun id _ hflying => .inr (.inl hflying))
    fun place hplace => .inl hplace
  · intro id d hd
    refine ⟨hd, ?_⟩
    rintro rfl
    exact (h.inFlight id d hd).2
  · intro id d hd
    rw [Dict.get_set] at hd
    split at hd
    · next heq =>
      obtain rfl := Option.some.inj hd
      exact .inr ⟨rfl, (eq_of_beq heq).symm, hfinished, hlive⟩
    · have hold := Dict.get_of_pop hd
      by_cases hdc : d = c
      · subst hdc
        exact .inr ⟨rfl, (h.waiting id d hold).1, hfinished, hlive⟩
      · exact .inl ⟨hdc, hold⟩
  · intro token d r hd
    by_cases hdc : d = c
    · subst hdc
      exact .inr ⟨rfl, h.round token d r hd⟩
    · exact .inl ⟨hdc, hd⟩

/-- Its final frame is on its way, on the id it stands at. -/
theorem Kept.conclude (h : b.Kept) {c : Nat} {id : RequestId} (hfinished : (b.calls c).finished = true)
    (hlive : (b.calls c).ended = false) (hround : (b.calls c).round = none) (hcurrent : (b.calls c).currentId = some id)
    (x : AnswerCall) (hx : Later (b.calls c) x) (hover : x.ended = true)
    (hmark : x.cancelledAt = (b.calls c).cancelledAt) (waiting : Dict RequestId Nat)
    (hwaiting : ∀ id d, waiting.get id = some d → d ≠ c ∧ b.waiting.get id = some d) :
    ({ b.setCall c x with waiting } : AnswerDesk).Kept ∧ ({ b.setCall c x with waiting } : AnswerDesk).Sayable id := by
  refine ⟨h.advance hx ?_ (fun id d hd => .inl (hwaiting id d hd)) ?_ (by simp [hover])
    (fun id _ hflying => .inr (.inl hflying)) fun place hplace => .inl (hmark ▸ hplace), ?_⟩
  · intro id d hd
    refine ⟨hd, ?_⟩
    rintro rfl
    exact absurd (h.inFlight id d hd).2.1 (by simp [hfinished])
  · intro token d r hd
    refine .inl ⟨?_, hd⟩
    rintro rfl
    exact absurd (hround.symm.trans (h.round token d r hd).1) (by simp)
  · refine Sayable.readdress h hcurrent hlive (.inl hover) hx.ids (hmark.trans (h.unmarked hlive)) ?_ _ _ _
    intro hawaits
    have horiginal := (h.given id hawaits.1).2 c (h.current c id hcurrent)
    exact absurd (horiginal ▸ hawaits) (h.concluded c hfinished hlive)

/-- It answers a round on the id it stands at. -/
theorem Kept.sendRound (h : b.Kept) {c : Nat} {id : RequestId} (token : Str) (awaiting : Dict Str Nat)
    (hlive : (b.calls c).ended = false) (hmodern : (b.calls c).modern = true)
    (hround : (b.calls c).round = none) (hcurrent : (b.calls c).currentId = some id) :
    let x := { b.calls c with idle := true, round := some ⟨token, awaiting⟩, currentId := none }
    let sent : AnswerDesk := { b.setCall c x with rounds := b.rounds.set token (c, ⟨token, awaiting⟩) }
    sent.Kept ∧ sent.Sayable id := by
  intro x sent
  have hx : Later (b.calls c) x :=
    ⟨rfl, rfl, rfl, nofun, fun hover => hover, fun _ => rfl, h.parked c,
      fun hlegacy => absurd (hmodern.symm.trans hlegacy) (by simp)⟩
  refine ⟨h.advance hx ?_ ?_ ?_ (fun hfinished _ => h.concluded c hfinished hlive)
    (fun id _ hflying => .inr (.inl hflying)) fun place hplace => .inl hplace,
    Sayable.readdress (x := x) h hcurrent hlive (.inr nofun) rfl (h.unmarked hlive) (fun _ => hlive) _ _ _⟩
  · intro id d hd
    refine ⟨hd, ?_⟩
    rintro rfl
    exact (h.inFlight id d hd).2
  · intro id d hd
    by_cases hdc : d = c
    · subst hdc
      exact .inr ⟨rfl, h.waiting id d hd⟩
    · exact .inl ⟨hdc, hd⟩
  · intro other d r hd
    rw [Dict.get_set] at hd
    split at hd
    · next heq =>
      obtain ⟨rfl, rfl⟩ := Prod.mk.injEq .. ▸ Option.some.inj hd
      exact .inr ⟨rfl, rfl, (eq_of_beq heq).symm, hlive⟩
    · refine .inl ⟨?_, hd⟩
      rintro rfl
      exact absurd (hround.symm.trans (h.round other d r hd).1) (by simp)

/-! ## What comes in -/

/-- A request comes in. -/
theorem Kept.hear (h : b.Kept) {id : RequestId} (hnew : id ∉ b.asked) :
    ({ b with asked := b.asked ++ [id] } : AnswerDesk).Kept ∧ ({ b with asked := b.asked ++ [id] } : AnswerDesk).Fresh id := by
  have hold : ∀ i ∈ b.asked, i ∈ b.asked ++ [id] := fun i hi => List.mem_append_left _ hi
  refine ⟨{ h with
    known := fun i hi => hold i (h.known i hi)
    ids := fun c i hi => hold i (h.ids c i hi)
    handshake := fun i hi => ⟨hold i (h.handshake i hi).1, (h.handshake i hi).2⟩
    given := fun i hi => ⟨hold i (h.given i hi).1, (h.given i hi).2⟩
    pending := fun i hi => ?_ }, by simp, fun hi => hnew (h.known id hi), fun c hi => hnew (h.ids c id hi),
    fun hi => hnew (h.given id hi).1, fun hi => hnew (h.handshake id hi).1⟩
  rcases h.pending i hi with hunsaid | hrest
  · exact .inl ⟨hunsaid.silent, hunsaid.left⟩
  · exact .inr hrest

/-- A request that is given to the session is one more it may answer. -/
theorem Kept.given' (h : b.Kept) {id : RequestId} (hasked : id ∈ b.asked)
    (hcall : ∀ c, id ∈ (b.calls c).ids → (b.calls c).originalId = id)
    (hconcluded : ∀ c, (b.calls c).finished = true → (b.calls c).ended = false → (b.calls c).originalId ≠ id)
    (hpending : b.Unsaid id ∨ (b.inFlight.get id).isSome) : ({ b with given := b.given ++ [id] } : AnswerDesk).Kept := by
  have hsplit : ∀ i, ({ b with given := b.given ++ [id] } : AnswerDesk).Awaits i → b.Awaits i ∨ i = id := by
    intro i hi
    rcases List.mem_append.1 hi.1 with hold | hnew
    · exact .inl ⟨hold, hi.2⟩
    · exact .inr (List.mem_singleton.1 hnew)
  refine { h with
    heard := fun i hi => ⟨(h.heard i hi).1, List.mem_append_left _ (h.heard i hi).2⟩
    given := fun i hi => ?_
    concluded := fun c hfinished hlive hi => ?_
    pending := fun i hi => ?_ }
  · rcases List.mem_append.1 hi with hold | hnew
    · exact h.given i hold
    · obtain rfl := List.mem_singleton.1 hnew
      exact ⟨hasked, hcall⟩
  · rcases hsplit _ hi with hold | hnew
    · exact h.concluded c hfinished hlive hold
    · exact hconcluded c hfinished hlive hnew
  · have hall : b.Unsaid i ∨ (b.inFlight.get i).isSome ∨ (b.cancelled.get i).isSome ∨ i ∈ b.forgotten := by
      rcases hsplit i hi with hold | rfl
      · exact h.pending i hold
      · exact hpending.imp_right .inl
    rcases hall with hunsaid | hrest
    · exact .inl ⟨hunsaid.silent, hunsaid.left⟩
    · exact .inr hrest

theorem Kept.give (h : b.Kept) {id : RequestId} (hid : b.Fresh id) : ({ b with given := b.given ++ [id] } : AnswerDesk).Kept :=
  h.given' hid.asked (fun c hmem => absurd hmem (hid.ids c))
    (fun c _ hlive heq => hid.ids c (heq ▸ h.original c (h.begun c hlive)))
    (.inl ⟨hid.silent, fun c hmem => absurd hmem (hid.ids c)⟩)

/-- A handshake comes in. -/
theorem Kept.greet (h : b.Kept) {id : RequestId} (hid : b.Fresh id) :
    ({ b with handshakeId := some id, given := b.given ++ [id] } : AnswerDesk).Kept := by
  refine { h.give hid with
    handshake := fun i hi => Option.some.inj hi ▸ ⟨hid.asked, hid.ids⟩
    pending := fun i hi => ?_ }
  rcases (h.give hid).pending i hi with hunsaid | hrest
  · exact .inl ⟨hunsaid.silent, hunsaid.left⟩
  · exact .inr hrest

/-- What a call is when it opens. -/
def opened (id : RequestId) (modern : Bool) : AnswerCall where
  originalId := id
  modern
  currentId := some id
  ids := [id]
  round := none
  idle := true
  parked := false
  finished := false
  ended := false
  cancelledAt := none

theorem Kept.open (h : b.Kept) {id : RequestId} (hid : b.Fresh id) (modern : Bool) :
    ({ b.setCall b.callCount (opened id modern) with
      callCount := b.callCount + 1
      inFlight := b.inFlight.set id b.callCount
      given := b.given ++ [id] } : AnswerDesk).Kept := by
  have hcalls : ∀ c, c ≠ b.callCount → Function.update b.calls b.callCount (opened id modern) c = b.calls c :=
    fun c hc => Function.update_of_ne hc _ _
  have hself : Function.update b.calls b.callCount (opened id modern) b.callCount = opened id modern :=
    Function.update_self _ _ _
  have hlt : ∀ {c}, (b.calls c).ended = false → c ≠ b.callCount := by
    rintro c hlive rfl
    simp [(h.unopened _ le_rfl).2] at hlive
  have hcases : ∀ c, Function.update b.calls b.callCount (opened id modern) c = opened id modern ∨
      Function.update b.calls b.callCount (opened id modern) c = b.calls c := by
    intro c
    by_cases hc : c = b.callCount
    · exact .inl (hc ▸ hself)
    · exact .inr (hcalls c hc)
  have hopen : ({ b.setCall b.callCount (opened id modern) with
      callCount := b.callCount + 1
      inFlight := b.inFlight.set id b.callCount } : AnswerDesk).Kept := by
    refine { h with
      open_ := ?_, ids := ?_, current := ?_, original := ?_, apart := ?_, unopened := ?_, begun := ?_, legacy := ?_
      parked := ?_, inFlight := ?_, waiting := ?_, round := ?_, cancelled := ?_, handshake := ?_, given := ?_
      concluded := ?_, pending := ?_, gone := ?_ }
    · intro c
      rcases hcases c with hc | hc <;> simp only [setCall, hc]
      · exact fun i _ hi => Option.some.inj hi ▸ hid.silent
      · exact h.open_ c
    · intro c
      rcases hcases c with hc | hc <;> simp only [setCall, hc]
      · exact fun i hi => List.mem_singleton.1 hi ▸ hid.asked
      · exact h.ids c
    · intro c
      rcases hcases c with hc | hc <;> simp only [setCall, hc]
      · exact fun i hi => List.mem_singleton.2 (Option.some.inj hi).symm
      · exact h.current c
    · intro c
      rcases hcases c with hc | hc <;> simp only [setCall, hc]
      · exact fun _ => List.mem_singleton_self id
      · exact h.original c
    · intro c d i hc hd
      by_cases hcn : c = b.callCount
      · by_cases hdn : d = b.callCount
        · rw [hcn, hdn]
        · simp only [setCall, hcn, hcalls d hdn, hself] at hc hd
          exact absurd (List.mem_singleton.1 hc ▸ hd) (hid.ids d)
      · by_cases hdn : d = b.callCount
        · simp only [setCall, hdn, hcalls c hcn, hself] at hc hd
          exact absurd (List.mem_singleton.1 hd ▸ hc) (hid.ids c)
        · simp only [setCall, hcalls c hcn, hcalls d hdn] at hc hd
          exact h.apart c d i hc hd
    · intro c hc
      simp only [setCall, hcalls c (Nat.ne_of_gt hc)]
      exact h.unopened c (Nat.le_of_succ_le hc)
    · intro c
      rcases hcases c with hc | hc <;> simp only [setCall, hc]
      · exact fun _ => List.cons_ne_nil _ _
      · exact h.begun c
    · intro c
      rcases hcases c with hc | hc <;> simp only [setCall, hc]
      · exact fun _ _ => ⟨rfl, rfl, rfl⟩
      · exact h.legacy c
    · intro c
      rcases hcases c with hc | hc <;> simp only [setCall, hc]
      · exact fun hp => by cases hp
      · exact h.parked c
    · intro i c hget
      rw [Dict.get_set] at hget
      split at hget
      · next heq =>
        obtain rfl := Option.some.inj hget
        simp only [setCall, hself]
        exact ⟨(eq_of_beq heq).symm, rfl, rfl⟩
      · have hold := h.inFlight i c hget
        simp only [setCall, hcalls c (hlt hold.2.2)]
        exact hold
    · intro i c hget
      have hold := h.waiting i c hget
      simp only [setCall, hcalls c (hlt hold.2.2)]
      exact hold
    · intro token c r hget
      have hold := h.round token c r hget
      simp only [setCall, hcalls c (hlt hold.2.2)]
      exact hold
    · intro i c hget
      obtain ⟨d, hd⟩ := h.cancelled i c hget
      have hdn : d ≠ b.callCount := by
        rintro rfl
        simp [(h.unopened _ le_rfl).1] at hd
      exact ⟨d, by simpa only [setCall, hcalls d hdn] using hd⟩
    · intro i hi
      refine ⟨(h.handshake i hi).1, fun c => ?_⟩
      rcases hcases c with hc | hc <;> simp only [setCall, hc]
      · exact fun hmem => hid.handshake (List.mem_singleton.1 hmem ▸ hi)
      · exact (h.handshake i hi).2 c
    · intro i hi
      refine ⟨(h.given i hi).1, fun c => ?_⟩
      rcases hcases c with hc | hc <;> simp only [setCall, hc]
      · exact fun hmem => (List.mem_singleton.1 hmem).symm
      · exact (h.given i hi).2 c
    · intro c
      rcases hcases c with hc | hc <;> simp only [setCall, hc]
      · exact fun hf => by cases hf
      · exact h.concluded c
    · intro i hi
      rcases h.pending i hi with hunsaid | hflying | hrest
      · refine .inl ⟨hunsaid.silent, fun c => ?_⟩
        rcases hcases c with hc | hc <;> simp only [setCall, hc]
        · exact fun hmem => absurd (List.mem_singleton.1 hmem ▸ hi.1) hid.given
        · exact hunsaid.left c
      · refine .inr (.inl ?_)
        rw [Dict.get_set]
        split
        · rfl
        · exact hflying
      · exact .inr (.inr hrest)
    · intro c
      rcases hcases c with hc | hc <;> simp only [setCall, hc]
      · exact fun _ hplace => by cases hplace
      · exact h.gone c
  refine hopen.given' hid.asked ?_ ?_ (.inr (by simp))
  · intro c
    rcases hcases c with hc | hc <;> simp only [setCall, hc]
    · exact fun _ => rfl
    · exact fun hmem => absurd hmem (hid.ids c)
  · intro c
    rcases hcases c with hc | hc <;> simp only [setCall, hc]
    · exact fun hf => by cases hf
    · exact fun _ hlive heq => hid.ids c (heq ▸ h.original c (h.begun c hlive))

/-- A retry is the request its call stands at now. -/
theorem Kept.resumeOn (h : b.Kept) {id : RequestId} (hid : b.Fresh id) {token : Str} {c : Nat} {r : OpenRound}
    (hround : b.rounds.get token = some (c, r)) :
    ({ b.setCall c { b.calls c with round := none, currentId := some id, ids := (b.calls c).ids.insert id } with
      rounds := b.rounds.pop token } : AnswerDesk).Kept := by
  obtain ⟨hr, htoken, hlive⟩ := h.round token c r hround
  let x : AnswerCall := { b.calls c with round := none, currentId := some id, ids := (b.calls c).ids.insert id }
  have hcases : ∀ d, d = c ∧ Function.update b.calls c x d = x ∨ d ≠ c ∧ Function.update b.calls c x d = b.calls d := by
    intro d
    by_cases hd : d = c
    · exact .inl ⟨hd, hd ▸ Function.update_self _ _ _⟩
    · exact .inr ⟨hd, Function.update_of_ne hd _ _⟩
  have hmem : ∀ d i, i ∈ (Function.update b.calls c x d).ids → i ∈ (b.calls d).ids ∨ d = c ∧ i = id := by
    intro d i hi
    rcases hcases d with ⟨rfl, hd⟩ | ⟨-, hd⟩
    · rw [hd] at hi
      exact ((List.mem_insert_iff.1 hi).symm).imp_right fun heq => ⟨rfl, heq⟩
    · exact .inl (hd ▸ hi)
  have hgrow : ∀ d i, i ∈ (b.calls d).ids → i ∈ (Function.update b.calls c x d).ids := by
    intro d i hi
    rcases hcases d with ⟨rfl, hd⟩ | ⟨-, hd⟩
    · rw [hd]
      exact List.mem_insert_of_mem hi
    · rw [hd]
      exact hi
  have hsame : ∀ d, (Function.update b.calls c x d).originalId = (b.calls d).originalId ∧
      (Function.update b.calls c x d).finished = (b.calls d).finished ∧
      (Function.update b.calls c x d).ended = (b.calls d).ended ∧
      (Function.update b.calls c x d).parked = (b.calls d).parked ∧
      (Function.update b.calls c x d).cancelledAt = (b.calls d).cancelledAt := by
    intro d
    rcases hcases d with ⟨rfl, hd⟩ | ⟨-, hd⟩ <;> rw [hd]
    · exact ⟨rfl, rfl, rfl, rfl, rfl⟩
    · exact ⟨rfl, rfl, rfl, rfl, rfl⟩
  have hkept : ({ b.setCall c x with rounds := b.rounds.pop token } : AnswerDesk).Kept := by
    refine { h with
      open_ := fun d i hopen hi => ?_
      ids := fun d i hi => ?_
      current := fun d i hi => ?_
      original := fun d _ => ?_
      apart := fun d e i hd he => ?_
      unopened := fun d hd => ?_
      begun := fun d hopen => ?_
      legacy := fun d => ?_
      parked := fun d hp => ?_
      inFlight := fun i d hget => ?_
      waiting := fun i d hget => ?_
      round := fun other d q hget => ?_
      cancelled := fun i d hget => ?_
      handshake := fun i hi => ⟨(h.handshake i hi).1, fun d hd => ?_⟩
      given := fun i hi => ⟨(h.given i hi).1, fun d hd => ?_⟩
      concluded := fun d hf hopen => ?_
      pending := fun i hi => ?_
      gone := fun d place hplace => ?_ }
    · rcases hcases d with ⟨rfl, hd⟩ | ⟨-, hd⟩ <;> simp only [setCall, hd] at hopen hi
      · exact Option.some.inj hi ▸ hid.silent
      · exact h.open_ d i hopen hi
    · rcases hmem d i hi with hold | ⟨-, rfl⟩
      · exact h.ids d i hold
      · exact hid.asked
    · rcases hcases d with ⟨rfl, hd⟩ | ⟨-, hd⟩ <;> simp only [setCall, hd] at hi ⊢
      · exact Option.some.inj hi ▸ List.mem_insert_self
      · exact h.current d i hi
    · by_cases hne : (b.calls d).ids = []
      · rcases hcases d with ⟨rfl, -⟩ | ⟨-, hd⟩
        · exact absurd hne (h.begun d hlive)
        · rename_i hids
          exact absurd (by simp only [setCall, hd, hne]) hids
      · exact (hsame d).1.symm ▸ hgrow d _ (h.original d hne)
    · rcases hmem d i hd with hold | ⟨rfl, rfl⟩
      · rcases hmem e i he with hold' | ⟨-, rfl⟩
        · exact h.apart d e i hold hold'
        · exact absurd hold (hid.ids d)
      · rcases hmem e i he with hold' | ⟨rfl, -⟩
        · exact absurd hold' (hid.ids e)
        · rfl
    · rcases hcases d with ⟨rfl, -⟩ | ⟨-, hdc⟩
      · exact absurd (h.unopened d hd).2 (by simp [hlive])
      · simp only [setCall, hdc]
        exact h.unopened d hd
    · intro hnil
      have hold := h.begun d ((hsame d).2.2.1 ▸ hopen)
      obtain ⟨i, hi⟩ := List.exists_mem_of_ne_nil _ hold
      exact List.not_mem_nil (hnil ▸ hgrow d i hi)
    · rcases hcases d with ⟨rfl, hd⟩ | ⟨-, hd⟩ <;> simp only [setCall, hd]
      · intro hlegacy
        exact absurd (hr.symm.trans (h.legacy d hlegacy hlive).2.1) (by simp)
      · exact h.legacy d
    · exact (hsame d).2.1.symm ▸ h.parked d ((hsame d).2.2.2.1 ▸ hp)
    · simp only [setCall, hsame d]
      exact h.inFlight i d hget
    · simp only [setCall, hsame d]
      exact h.waiting i d hget
    · have hold := Dict.get_of_pop hget
      rcases hcases d with ⟨rfl, -⟩ | ⟨-, hd⟩
      · obtain ⟨hq, hother, -⟩ := h.round other d q hold
        obtain rfl := Option.some.inj (hr.symm.trans hq)
        rw [← hother, htoken, Dict.get_pop_self] at hget
        cases hget
      · simp only [setCall, hd]
        exact h.round other d q hold
    · obtain ⟨e, he⟩ := h.cancelled i d hget
      exact ⟨e, hgrow e i he⟩
    · rcases hmem d i hd with hold | ⟨-, rfl⟩
      · exact (h.handshake i hi).2 d hold
      · exact hid.handshake hi
    · rcases hmem d i hd with hold | ⟨-, rfl⟩
      · exact (hsame d).1.trans ((h.given i hi).2 d hold)
      · exact absurd hi hid.given
    · have hnot := h.concluded d ((hsame d).2.1 ▸ hf) ((hsame d).2.2.1 ▸ hopen)
      exact (hsame d).1.symm ▸ hnot
    · rcases h.pending i hi with hunsaid | hrest
      · refine .inl ⟨hunsaid.silent, fun d hd => ?_⟩
        rcases hmem d i hd with hold | ⟨-, rfl⟩
        · simp only [setCall, hsame d]
          exact hunsaid.left d hold
        · exact absurd hi.1 hid.given
      · exact .inr hrest
    · have hmark := (hsame d).2.2.2.2.symm.trans hplace
      obtain ⟨hover, hle, hnone⟩ := h.gone d place hmark
      refine ⟨(hsame d).2.2.1.trans hover, hle, fun i hi hmem' => ?_⟩
      rcases hmem d i hmem' with hold | ⟨rfl, -⟩
      · exact hnone i hi hold
      · exact absurd hover (by simp [hlive])
  exact hkept

/-! ## What the session answers -/

/-- The session answers a request it was given. -/
theorem Kept.write (h : b.Kept) {id : RequestId} (hid : id ∈ b.given) (hnew : id ∉ b.written) :
    ({ b with written := b.written ++ [id], hooked := b.hooked ++ [id] } : AnswerDesk).Kept := by
  have hawaits : ∀ i, ({ b with written := b.written ++ [id], hooked := b.hooked ++ [id] } : AnswerDesk).Awaits i →
      b.Awaits i := by
    rintro i ⟨hi, hstill⟩
    refine ⟨hi, ?_⟩
    by_cases heq : i = id
    · exact .inl (heq ▸ hnew)
    · simpa [heq] using hstill
  refine { h with
    queued := List.nodup_append.2 ⟨h.queued, List.nodup_singleton id, ?_⟩
    heard := fun i hi => ?_
    concluded := fun c hf hlive hi => h.concluded c hf hlive (hawaits _ hi)
    pending := fun i hi => ?_ }
  · rintro i hi j hj rfl
    exact hnew (List.mem_singleton.1 hj ▸ (h.heard i hi).1)
  · rcases List.mem_append.1 hi with hold | hlast
    · exact ⟨List.mem_append_left _ (h.heard i hold).1, (h.heard i hold).2⟩
    · obtain rfl := List.mem_singleton.1 hlast
      exact ⟨List.mem_append_right _ hlast, hid⟩
  · rcases h.pending i (hawaits i hi) with hunsaid | hrest
    · exact .inl ⟨hunsaid.silent, hunsaid.left⟩
    · exact .inr hrest

/-- The memory of a cancellation goes. -/
theorem Kept.forget (h : b.Kept) (id : RequestId) {forgotten : List RequestId} (hgrow : ∀ i ∈ b.forgotten, i ∈ forgotten)
    (hid : b.Awaits id → (b.cancelled.get id).isSome → id ∈ forgotten) :
    ({ b with cancelled := b.cancelled.pop id, forgotten } : AnswerDesk).Kept := by
  refine { h with cancelled := fun i c hget => h.cancelled i c (Dict.get_of_pop hget), pending := fun i hi => ?_ }
  rcases h.pending i hi with hunsaid | hflying | hcancelled | hforgotten
  · exact .inl ⟨hunsaid.silent, hunsaid.left⟩
  · exact .inr (.inl hflying)
  · by_cases heq : i = id
    · subst heq
      exact .inr (.inr (.inr (hid hi hcancelled)))
    · exact .inr (.inr (.inl (by rw [Dict.get_pop_ne _ heq]; exact hcancelled)))
  · exact .inr (.inr (.inr (hgrow i hforgotten)))

/-- The seam knows of one more that was cancelled. -/
theorem Kept.remember (h : b.Kept) {id : RequestId} {c : Nat} (hid : id ∈ (b.calls c).ids) :
    ({ b with cancelled := b.cancelled.set id c } : AnswerDesk).Kept := by
  refine { h with cancelled := fun i d hget => ?_, pending := fun i hi => ?_ }
  · rw [Dict.get_set] at hget
    split at hget
    · next heq => exact ⟨c, (eq_of_beq heq).symm ▸ hid⟩
    · exact h.cancelled i d hget
  · rcases h.pending i hi with hunsaid | hflying | hcancelled | hforgotten
    · exact .inl ⟨hunsaid.silent, hunsaid.left⟩
    · exact .inr (.inl hflying)
    · refine .inr (.inr (.inl ?_))
      rw [Dict.get_set]
      split
      · rfl
      · exact hcancelled
    · exact .inr (.inr (.inr hforgotten))

/-- The tables are empty and these calls are over. -/
theorem Kept.shut (h : b.Kept) (closes : Nat → Bool) (hinFlight : ∀ id, b.inFlight.get id = none)
    (hwaiting : ∀ id, b.waiting.get id = none) (hcancelled : ∀ id c, b.cancelled.get id = some c → id ∈ b.forgotten) :
    ({ b with
      calls := fun c => if closes c then { b.calls c with ended := true } else b.calls c
      rounds := .empty
      cancelled := .empty } : AnswerDesk).Kept := by
  let calls : Nat → AnswerCall := fun c => if closes c then { b.calls c with ended := true } else b.calls c
  have hsame : ∀ c, (calls c).originalId = (b.calls c).originalId ∧ (calls c).modern = (b.calls c).modern ∧
      (calls c).currentId = (b.calls c).currentId ∧ (calls c).ids = (b.calls c).ids ∧
      (calls c).round = (b.calls c).round ∧ (calls c).idle = (b.calls c).idle ∧
      (calls c).parked = (b.calls c).parked ∧ (calls c).finished = (b.calls c).finished ∧
      (calls c).cancelledAt = (b.calls c).cancelledAt := by
    intro c
    simp only [calls]
    split <;> simp
  have hended : ∀ c, (b.calls c).ended = true → (calls c).ended = true := by
    intro c hover
    simp only [calls]
    split
    · rfl
    · exact hover
  have hlive : ∀ c, (calls c).ended = false → (b.calls c).ended = false := by
    intro c hopen
    by_contra hover
    exact absurd (hended c (by simpa using hover)) (by simp [hopen])
  have hkept : ({ b with calls, rounds := .empty, cancelled := .empty } : AnswerDesk).Kept := by
    refine { h with
      open_ := fun c id hopen hid => h.open_ c id (hlive c hopen) ((hsame c).2.2.1 ▸ hid)
      ids := fun c id hid => h.ids c id ((hsame c).2.2.2.1 ▸ hid)
      current := fun c id hid => ?_
      original := fun c hne => ?_
      apart := fun c d id hc hd => h.apart c d id ((hsame c).2.2.2.1 ▸ hc) ((hsame d).2.2.2.1 ▸ hd)
      unopened := fun c hc => ⟨(hsame c).2.2.2.1.trans (h.unopened c hc).1, hended c (h.unopened c hc).2⟩
      begun := fun c hopen => (hsame c).2.2.2.1.symm ▸ h.begun c (hlive c hopen)
      legacy := fun c => ?_
      parked := fun c => ?_
      inFlight := fun id c hget => by cases (hinFlight id).symm.trans hget
      waiting := fun id c hget => by cases (hwaiting id).symm.trans hget
      round := fun token c r hget => by cases hget
      cancelled := fun id c hget => by cases hget
      handshake := fun id hid => ⟨(h.handshake id hid).1, fun c => (hsame c).2.2.2.1.symm ▸ (h.handshake id hid).2 c⟩
      given := fun id hid => ⟨(h.given id hid).1, fun c hc => ?_⟩
      concluded := fun c hf hopen => ?_
      pending := fun id hid => ?_
      gone := fun c place hplace => ?_ }
    · simp only [hsame c] at hid ⊢
      exact h.current c id hid
    · simp only [hsame c] at hne ⊢
      exact h.original c hne
    · intro hlegacy hopen
      simp only [hsame c] at hlegacy ⊢
      exact h.legacy c hlegacy (hlive c hopen)
    · simp only [hsame c]
      exact h.parked c
    · simp only [hsame c] at hc ⊢
      exact (h.given id hid).2 c hc
    · simp only [hsame c] at hf ⊢
      exact h.concluded c hf (hlive c hopen)
    · rcases h.pending id hid with hunsaid | hflying | hknown | hforgotten
      · refine .inl ⟨hunsaid.silent, fun c hc => ?_⟩
        simp only [hsame c] at hc ⊢
        exact ⟨hended c (hunsaid.left c hc).1, (hunsaid.left c hc).2⟩
      · simp [hinFlight id] at hflying
      · obtain ⟨c, hc⟩ := Option.isSome_iff_exists.1 hknown
        exact .inr (.inr (.inr (hcancelled id c hc)))
      · exact .inr (.inr (.inr hforgotten))
    · simp only [hsame c] at hplace ⊢
      obtain ⟨hover, hrest⟩ := h.gone c place hplace
      exact ⟨hended c hover, hrest⟩
  exact hkept

end AnswerDesk

/-! ## The seam's desk -/

def ToolCall.desk (call : ToolCall) : AnswerCall where
  originalId := call.originalId
  modern := call.modern
  currentId := call.currentId
  ids := call.ids
  round := call.round
  idle := call.buffered.isEmpty
  parked := call.final.isSome
  finished := call.finished
  ended := call.ended
  cancelledAt := call.cancelledAt

namespace ToolSeam

variable {W : World} {s s' : ToolSeam W} {C : SeamConfig} {asked given forgotten : List RequestId}

/-- The ids that frames on the queue answer: the seam's own, and the session's. -/
def queuedIds (hooked : Bool) (queue : List QueuedFrame) : List RequestId :=
  (queue.filter (·.hooked == hooked)).filterMap fun q => answerId q.frame

def deskOf (s : ToolSeam W) (asked given forgotten : List RequestId) : AnswerDesk where
  calls := ToolCall.desk ∘ s.calls
  callCount := s.callCount
  handshakeId := s.handshakeId
  inFlight := s.inFlight
  rounds := s.rounds
  waiting := s.waiting
  cancelled := s.cancelled
  out := s.out
  own := queuedIds false s.queue
  hooked := queuedIds true s.queue
  asked
  given
  written := s.written
  forgotten

theorem desk_updateCall (s : ToolSeam W) (c : Nat) (f : ToolCall → ToolCall) :
    (s.updateCall c f).deskOf asked given forgotten =
      (s.deskOf asked given forgotten).setCall c (f (s.calls c)).desk :=
  congrArg (fun calls => { s.deskOf asked given forgotten with calls }) (Function.comp_update _ _ _ _)

theorem desk_updateCall_same (s : ToolSeam W) (c : Nat) (f : ToolCall → ToolCall)
    (hf : (f (s.calls c)).desk = (s.calls c).desk) :
    (s.updateCall c f).deskOf asked given forgotten = s.deskOf asked given forgotten := by
  rw [desk_updateCall, hf]
  exact congrArg (fun calls => { s.deskOf asked given forgotten with calls })
    (Function.update_eq_self c (ToolCall.desk ∘ s.calls))

theorem desk_evictIdle (turns : Nat) :
    (s.evictIdle turns).deskOf asked given forgotten = s.deskOf asked given forgotten := by
  induction turns generalizing s with
  | zero => rfl
  | succ turns ih =>
    simp only [evictIdle]
    split
    · rfl
    · split
      · exact ih
      · rfl

theorem desk_release (final : Bool) (c : Nat) :
    (s.release final c).deskOf asked given forgotten = s.deskOf asked given forgotten := by
  unfold release
  split
  · rfl
  · next g _ =>
    have hless : ((s.updateCall c .release).updateSession g fun a => { a with live := a.live - 1 }).deskOf
        asked given forgotten = s.deskOf asked given forgotten := desk_updateCall_same s c .release rfl
    dsimp only
    split
    · rfl
    · split
      · exact hless
      · split
        · exact hless
        · exact (desk_evictIdle _).trans hless

theorem desk_sendFrame (frame : Frame) : (s.sendFrame frame).deskOf asked given forgotten =
    { s.deskOf asked given forgotten with own := queuedIds false s.queue ++ (answerId frame).toList } := by
  have hone : queuedIds false [⟨frame, false⟩] = (answerId frame).toList := by
    cases hanswer : answerId frame <;> simp [queuedIds, hanswer]
  have hown : queuedIds false (s.queue ++ [⟨frame, false⟩]) = queuedIds false s.queue ++ (answerId frame).toList := by
    rw [← hone, queuedIds, List.filter_append, List.filterMap_append]
    rfl
  have hhooked : queuedIds true (s.queue ++ [⟨frame, false⟩]) = queuedIds true s.queue := by
    simp [queuedIds]
  simp only [sendFrame, deskOf, hown, hhooked]

theorem desk_endCall (c : Nat) : (s.endCall c).deskOf asked given forgotten =
    { (s.deskOf asked given forgotten).setCall c (s.calls c).drop.desk with
      inFlight := s.inFlight.pop (s.calls c).originalId
      waiting := s.waiting.pop (s.calls c).originalId
      rounds := (s.calls c).round.elim s.rounds fun r => s.rounds.pop r.token } := by
  have hcalls := Function.comp_update ToolCall.desk s.calls c (s.calls c).drop
  unfold endCall
  rw [desk_release]
  simp only [deskOf, updateCall, AnswerDesk.setCall, hcalls]

theorem later_drop (c : Nat) :
    AnswerDesk.Later ((s.deskOf asked given forgotten).calls c) (s.calls c).drop.desk :=
  ⟨rfl, rfl, rfl, fun _ hid => hid, fun _ => rfl, fun _ => rfl, nofun, nofun⟩

/-- A call that is concluded, or whose late answer is known not to matter, is dropped. -/
theorem desked_endCall (h : (s.deskOf asked given forgotten).Kept) {c : Nat}
    (hmem : (s.calls c).originalId ∈ (s.calls c).ids)
    (hknown : (s.calls c).finished = true ∨ (s.calls c).currentId = some (s.calls c).originalId ∨
      (s.calls c).originalId ∈ forgotten) : ((s.endCall c).deskOf asked given forgotten).Kept := by
  rw [desk_endCall]
  refine h.endCall (later_drop c) rfl hmem (hknown.imp_right fun hrest => hrest.imp_right .inr)
    (fun place hplace => .inl hplace) ?_
  intro hlive hmark
  exact absurd (h.unmarked hlive) hmark

theorem desked_evictWaiting (h : (s.deskOf asked given forgotten).Kept) (turns : Nat) :
    ((s.evictWaiting turns).deskOf asked given forgotten).Kept := by
  induction turns generalizing s with
  | zero => exact h
  | succ turns ih =>
    simp only [evictWaiting]
    split
    · exact h
    · split
      · next id evicted rest hitems =>
        have hget : s.waiting.get id = some evicted := Dict.get_eq_some.2 (by simp [hitems])
        obtain ⟨-, hfinished, hlive⟩ := h.waiting id evicted hget
        exact ih (desked_endCall h (h.original evicted (h.begun evicted hlive)) (.inl hfinished))
      · exact h

theorem desked_keepWaiting (h : (s.deskOf asked given forgotten).Kept) {c : Nat} (frame : Frame)
    (hfinished : (s.calls c).finished = true) (hlive : (s.calls c).ended = false) :
    ((s.keepWaiting frame c).deskOf asked given forgotten).Kept := by
  have hpark := h.park (c := c) hfinished hlive
  refine desked_evictWaiting ?_ _
  have hcalls := Function.comp_update ToolCall.desk s.calls c ((s.calls c).park frame)
  simp only [deskOf, updateCall, hcalls]
  exact hpark

theorem desked_keepOnly (h : (s.deskOf asked given forgotten).Kept) {c : Nat} (hmodern : (s.calls c).modern = true)
    (l : List (Nat × AttemptResponse W)) (events : List Emission) :
    (((s.settle l).updateCall c (·.keepOnly events)).deskOf asked given forgotten).Kept := by
  rw [desk_updateCall]
  refine h.mend ⟨rfl, rfl, rfl, fun _ hid => hid, fun hover => hover, fun _ => rfl, h.parked c, ?_⟩ rfl rfl rfl rfl
  intro hlegacy
  exact absurd (hmodern.symm.trans hlegacy) (by simp)

/-- What a concluded call says last goes out on the id that is open, or a round does first. -/
theorem desked_finalFrame (h : (s.deskOf asked given forgotten).Kept) {c : Nat} (hmodern : (s.calls c).modern = true)
    (hfinished : (s.calls c).finished = true) (hlive : (s.calls c).ended = false) (hround : (s.calls c).round = none)
    (frame : Frame) : ((s.finalFrame frame c).1.deskOf asked given forgotten).Kept ∧
      ∀ f ∈ (s.finalFrame frame c).2, ∀ id, answerId f = some id →
        ((s.finalFrame frame c).1.deskOf asked given forgotten).Sayable id := by
  have hconclude : ∀ id, (s.calls c).currentId = some id → ∀ l outcomes,
      ((((s.settle l).updateCall c (·.keepOnly [])).concludeWaiting outcomes c).deskOf asked given forgotten).Kept ∧
      ((((s.settle l).updateCall c (·.keepOnly [])).concludeWaiting outcomes c).deskOf asked given forgotten).Sayable
        id := by
    intro id hcurrent l outcomes
    have hx : AnswerDesk.Later ((s.deskOf asked given forgotten).calls c) (((s.calls c).keepOnly []).conclude outcomes).desk :=
      ⟨rfl, rfl, rfl, fun _ hid => hid, fun _ => rfl, fun _ => rfl, (fun hp => by cases hp), fun _ hlive => by cases hlive⟩
    have hdesk : (((s.settle l).updateCall c (·.keepOnly [])).concludeWaiting outcomes c).deskOf asked given forgotten =
        { (s.deskOf asked given forgotten).setCall c (((s.calls c).keepOnly []).conclude outcomes).desk with
          waiting := s.waiting.pop (s.calls c).originalId } := by
      have hcalls := Function.comp_update ToolCall.desk s.calls c (((s.calls c).keepOnly []).conclude outcomes)
      simp only [concludeWaiting, deskOf, updateCall, settle, AnswerDesk.setCall, Function.update_idem, Function.update_self,
        hcalls]
      rfl
    rw [hdesk]
    refine h.conclude hfinished hlive hround hcurrent _ hx rfl rfl _ ?_
    intro i d hget
    rw [Dict.get_pop] at hget
    split at hget
    · cases hget
    · next hne =>
      refine ⟨?_, hget⟩
      rintro rfl
      exact hne (beq_iff_eq.2 (h.waiting i d hget).1.symm)
  unfold finalFrame
  split
  · exact ⟨h, fun f hf => by cases hf⟩
  · next id hcurrent =>
    dsimp only
    split
    · split
      · obtain ⟨hkept, hsay⟩ := hconclude id hcurrent (unanswered (s.calls c).bufferedAwaiting.values) []
        refine ⟨hkept, fun f hf i hi => ?_⟩
        obtain rfl := Option.some.inj hf
        obtain rfl := Option.some.inj hi
        exact hsay
      · refine ⟨?_, fun f hf => by cases hf⟩
        rw [scheduleRound, desk_updateCall_same _ c .schedule rfl]
        refine desked_keepWaiting (desked_keepOnly h hmodern _ _) _ ?_ ?_
        · simpa [updateCall, ToolCall.keepOnly, settle] using hfinished
        · simpa [updateCall, ToolCall.keepOnly, settle] using hlive
    · next result =>
      obtain ⟨hkept, hsay⟩ := hconclude id hcurrent (unanswered (s.calls c).bufferedAwaiting.values)
        ((s.calls c).buffered.filter fun e => !isAttempt e.event)
      refine ⟨hkept, fun f hf i hi => ?_⟩
      obtain rfl := Option.some.inj hf
      obtain rfl := Option.some.inj hi
      exact hsay
    · exact ⟨h, fun f hf => by cases hf⟩

/-! ## What goes out -/

/-- The answer of the session to a call in flight is off the queue: the call's last frame goes out, or waits. -/
theorem desked_finish (h : (s.deskOf asked given forgotten).Kept) {c : Nat} {id : RequestId} {frame : Frame}
    (hanswer : answerId frame = some id) (horiginal : (s.calls c).originalId = id)
    (hfinished : (s.calls c).finished = true) (hlive : (s.calls c).ended = false)
    (hwaiting : ∀ i, s.waiting.get i ≠ some c) : ((s.finish frame c).1.deskOf asked given forgotten).Kept ∧
      ∀ f ∈ (s.finish frame c).2, ∀ i, answerId f = some i →
        ((s.finish frame c).1.deskOf asked given forgotten).Sayable i := by
  unfold finish
  dsimp only
  have hleft : (s.release (!!concludes frame) c).deskOf asked given forgotten = s.deskOf asked given forgotten :=
    desk_release _ c
  generalize s.release (!!concludes frame) c = left at hleft ⊢
  have hkept : (left.deskOf asked given forgotten).Kept := hleft.symm ▸ h
  have hcall : (left.calls c).desk = (s.calls c).desk := congrArg (fun b : AnswerDesk => b.calls c) hleft
  have htable : left.waiting = s.waiting := congrArg AnswerDesk.waiting hleft
  have hwaits : ∀ i, left.waiting.get i ≠ some c := htable.symm ▸ hwaiting
  have hmodern : (left.calls c).modern = (s.calls c).modern := congrArg AnswerCall.modern hcall
  have hround : (left.calls c).round = (s.calls c).round := congrArg AnswerCall.round hcall
  have horiginal : (left.calls c).originalId = id := (congrArg AnswerCall.originalId hcall).trans horiginal
  have hfinished : (left.calls c).finished = true := (congrArg AnswerCall.finished hcall).trans hfinished
  have hlive : (left.calls c).ended = false := (congrArg AnswerCall.ended hcall).trans hlive
  split
  · next hlegacy =>
    have hlegacy : (left.calls c).modern = false := hmodern.trans (by simpa using hlegacy)
    obtain ⟨hcurrent, hnone, -⟩ := hkept.legacy c hlegacy hlive
    have hx : AnswerDesk.Later ((left.deskOf asked given forgotten).calls c) (left.calls c).close.desk :=
      ⟨rfl, rfl, rfl, fun _ hid => hid, fun _ => rfl, fun _ => rfl, hkept.parked c, nofun⟩
    obtain ⟨hclosed, hsay⟩ := hkept.conclude hfinished hlive hnone hcurrent _ hx rfl rfl left.waiting
      fun i d hget => ⟨fun hd => hwaits i (hd ▸ hget), hget⟩
    rw [desk_updateCall]
    refine ⟨hclosed, fun f hf i hi => ?_⟩
    obtain rfl := Option.some.inj hf
    obtain rfl := Option.some.inj (hanswer.symm.trans hi)
    exact horiginal ▸ hsay
  · next hnot =>
    have hnot : (left.calls c).modern = true := hmodern.trans (by simpa using hnot)
    split
    · next r _ =>
      have hsettled : ((left.settle (unanswered r.awaiting.values)).deskOf asked given forgotten).Kept := hkept
      exact ⟨desked_keepWaiting hsettled frame hfinished hlive, nofun⟩
    · next hnone => exact desked_finalFrame hkept hnot hfinished hlive (hround.trans hnone) frame

/-- What the session answers goes out on the id that is open, waits, or is withheld. -/
theorem desked_answer (h : (s.deskOf asked given forgotten).Kept) {id : RequestId} {frame : Frame}
    (hanswer : answerId frame = some id) (hdue : AnswerDesk.Due (s.deskOf asked given forgotten) id) :
    ((outbound.answer frame s id).1.deskOf asked given forgotten).Kept ∧
      ∀ f ∈ (outbound.answer frame s id).2, ∀ i, answerId f = some i →
        ((outbound.answer frame s id).1.deskOf asked given forgotten).Sayable i := by
  unfold outbound.answer
  split
  · exact ⟨h.forget _ (fun _ hi => hi) fun hawaits => absurd hawaits hdue.taken, nofun⟩
  · next hcancelled =>
    split
    · next c hget =>
      obtain ⟨horiginal, hfinished, hlive⟩ := h.inFlight id c hget
      have hfinish := h.finish hget hdue.taken
      have hdesk : ({ s.updateCall c .finish with inFlight := s.inFlight.pop id } : ToolSeam W).deskOf asked given
          forgotten = { (s.deskOf asked given forgotten).setCall c (s.calls c).finish.desk with
            inFlight := s.inFlight.pop id } := by
        have hcalls := Function.comp_update ToolCall.desk s.calls c (s.calls c).finish
        simp only [deskOf, updateCall, AnswerDesk.setCall, hcalls]
      refine desked_finish (hdesk.symm ▸ hfinish) hanswer ?_ ?_ ?_ fun i hi => ?_
      · exact (congrArg ToolCall.originalId (Function.update_self c _ s.calls)).trans horiginal
      · exact congrArg ToolCall.finished (Function.update_self c _ s.calls)
      · exact (congrArg ToolCall.ended (Function.update_self c _ s.calls)).trans hlive
      · exact absurd (h.waiting i c hi).2.1 (by simp [hfinished])
    · next hget =>
      refine ⟨h, fun f hf i hi => ?_⟩
      obtain rfl := Option.some.inj hf
      obtain rfl := Option.some.inj (hanswer.symm.trans hi)
      rcases hdue.known with hunsaid | hflying | hknown
      · exact hunsaid.sayable h hdue.asked hdue.taken
      · change (s.inFlight.get id).isSome = true at hflying
        simp [hget] at hflying
      · exact absurd hknown hcancelled

theorem desked_outbound (h : (s.deskOf asked given forgotten).Kept) (frame : Frame)
    (hdue : ∀ id, answerId frame = some id → AnswerDesk.Due (s.deskOf asked given forgotten) id) :
    ((s.outbound C frame).1.deskOf asked given forgotten).Kept ∧ ∀ f ∈ (s.outbound C frame).2, ∀ id, answerId f = some id →
      ((s.outbound C frame).1.deskOf asked given forgotten).Sayable id := by
  have hpass : answerId frame = none → ∀ f ∈ some frame, ∀ id, answerId f = some id →
      (s.deskOf asked given forgotten).Sayable id := by
    intro hnone f hf id hid
    obtain rfl := Option.some.inj hf
    cases hnone.symm.trans hid
  unfold outbound
  split
  · next id result =>
    split
    · next hhandshake =>
      refine ⟨h, fun f hf i hi => ?_⟩
      obtain rfl := Option.some.inj hf
      obtain rfl := Option.some.inj hi
      have hnone := (h.handshake id hhandshake).2
      obtain ⟨hasked, htaken, hunsaid | hflying | hknown⟩ := hdue id rfl
      · exact hunsaid.sayable h hasked htaken
      · obtain ⟨c, hc⟩ := Option.isSome_iff_exists.1 hflying
        obtain ⟨horiginal, -, hlive⟩ := h.inFlight id c hc
        exact absurd (horiginal ▸ h.original c (h.begun c hlive)) (hnone c)
      · obtain ⟨c, hc⟩ := Option.isSome_iff_exists.1 hknown
        obtain ⟨d, hd⟩ := h.cancelled id c hc
        exact absurd hd (hnone d)
    · exact desked_answer h rfl (hdue id rfl)
  · next id code message => exact desked_answer h rfl (hdue id rfl)
  · next hnot hnot' =>
    refine ⟨h, hpass ?_⟩
    cases frame with
    | request id method params => rfl
    | notification method params => rfl
    | response id result => exact absurd rfl (hnot id result)
    | error id code message =>
      cases id with
      | none => rfl
      | some id => exact absurd rfl (hnot' id code message)

theorem desked_pass {r : ToolSeam W × Option Frame} (h : (r.1.deskOf asked given forgotten).Kept)
    (hsay : ∀ f ∈ r.2, ∀ id, answerId f = some id → (r.1.deskOf asked given forgotten).Sayable id) :
    (({ r.1 with out := r.1.out ++ r.2.toList } : ToolSeam W).deskOf asked given forgotten).Kept := by
  obtain ⟨after, sent⟩ := r
  cases sent with
  | none => simpa [deskOf] using h
  | some f => exact h.pass (hsay f rfl)

/-- A frame goes out, or on. -/
theorem desked_pump (h : (s.deskOf asked given forgotten).Kept)
    (hheeds : ∀ q ∈ s.queue.head?, q.hooked = true → ∀ id, answerId q.frame = some id → id ∉ forgotten)
    (hpump : s.pump C = some s') : (s'.deskOf asked given forgotten).Kept := by
  unfold pump at hpump
  split at hpump
  · cases hpump
  · next q rest hqueue =>
    split at hpump
    · next hhooked =>
      obtain rfl := Option.some.inj hpump
      have hown : queuedIds false s.queue = queuedIds false rest := by simp [hqueue, queuedIds, hhooked]
      have hhead : queuedIds true s.queue = (answerId q.frame).toList ++ queuedIds true rest := by
        cases hanswer : answerId q.frame <;> simp [hqueue, queuedIds, hhooked, hanswer]
      have hsub : (queuedIds true rest).Sublist (queuedIds true s.queue) :=
        hhead.symm ▸ List.sublist_append_right _ _
      have hsub' : (queuedIds false rest).Sublist (queuedIds false s.queue) := hown.symm ▸ .refl _
      have hrest : (({ s with queue := rest } : ToolSeam W).deskOf asked given forgotten).Kept := h.withdraw hsub' hsub
      have hdue : ∀ id, answerId q.frame = some id →
          AnswerDesk.Due (({ s with queue := rest } : ToolSeam W).deskOf asked given forgotten) id := by
        intro id hid
        have hmem : id ∈ queuedIds true s.queue := hhead.symm ▸ List.mem_append_left _ (by simp [hid])
        obtain ⟨hwritten, hgiven⟩ := h.heard id hmem
        refine ⟨(h.given id hgiven).1, ?_, ?_⟩
        · rintro ⟨-, hnot | hstill⟩
          · exact hnot hwritten
          · have hnodup : ((answerId q.frame).toList ++ queuedIds true rest).Nodup := hhead ▸ h.queued
            rw [hid] at hnodup
            exact (List.nodup_cons.1 hnodup).1 hstill
        · rcases h.pending id ⟨hgiven, .inr hmem⟩ with hunsaid | hflying | hknown | hforgotten
          · exact .inl ⟨fun hi => hunsaid.silent ((hsub'.append_left _).subset hi), hunsaid.left⟩
          · exact .inr (.inl hflying)
          · exact .inr (.inr hknown)
          · exact absurd hforgotten (hheeds q (by simp [hqueue]) hhooked id hid)
      obtain ⟨hkept, hsay⟩ := desked_outbound (C := C) hrest q.frame hdue
      exact desked_pass hkept hsay
    · next hown =>
      have hown : q.hooked = false := by simpa using hown
      obtain rfl := Option.some.inj hpump
      have hhead : queuedIds false s.queue = (answerId q.frame).toList ++ queuedIds false rest := by
        cases hanswer : answerId q.frame <;> simp [hqueue, queuedIds, hown, hanswer]
      have hhooked : queuedIds true s.queue = queuedIds true rest := by simp [hqueue, queuedIds, hown]
      have hpost := h.post (f := q.frame) hhead
      simp only [deskOf, hhooked] at hpost ⊢
      exact hpost

/-! ## What comes in -/

theorem desk_joinSession (declared : Option AuditCapability) (name : Str) :
    (s.joinSession declared name).deskOf asked given forgotten = s.deskOf asked given forgotten := by
  have hfound : (s.findSession declared name).deskOf asked given forgotten = s.deskOf asked given forgotten := by
    unfold findSession
    dsimp only
    split <;> rfl
  unfold joinSession
  dsimp only
  split
  · exact hfound
  · exact hfound

theorem desked_openCall (h : (s.deskOf asked given forgotten).Kept) {id : RequestId}
    (hid : (s.deskOf asked given forgotten).Fresh id) (params : Members) (ownSessionId : Str) :
    ((s.openCall C id params ownSessionId).deskOf asked (given ++ [id]) forgotten).Kept := by
  unfold openCall
  dsimp only
  have hjoined : ((sessionNamed W params).elim s fun name => s.joinSession (s.declaredBy C params) name).deskOf asked given
      forgotten = s.deskOf asked given forgotten := by
    cases sessionNamed W params with
    | none => rfl
    | some name => exact desk_joinSession _ name
  generalize (sessionNamed W params).elim s (fun name => s.joinSession (s.declaredBy C params) name) = joined at hjoined ⊢
  rw [← hjoined] at h hid
  have hopen := h.open hid (isModern C.modernVersions params)
  have hcalls := Function.comp_update ToolCall.desk joined.calls joined.callCount
  simp only [enrol, deskOf, hcalls]
  exact hopen

theorem desk_acceptRetry (id : RequestId) (params : Members) (c : Nat) (r : OpenRound) :
    (s.acceptRetry id params c r).deskOf asked given forgotten = (s.deskOf asked given forgotten).setCall c
      { (s.calls c).desk with round := none, currentId := some id, ids := (s.calls c).ids.insert id } := by
  unfold acceptRetry
  rw [desk_updateCall]
  rfl

theorem desked_say (h : (s.deskOf asked given forgotten).Kept) {frame : Frame}
    (hsay : ∀ id, answerId frame = some id → (s.deskOf asked given forgotten).Sayable id) :
    ((s.sendFrame frame).deskOf asked given forgotten).Kept := by
  rw [desk_sendFrame]
  cases hanswer : answerId frame with
  | none => simpa [deskOf] using h
  | some id => exact h.say (hsay id hanswer)

theorem desked_retry (h : (s.deskOf asked given forgotten).Kept) {id : RequestId}
    (hid : (s.deskOf asked given forgotten).Fresh id) (params : Members) (token : Str) :
    ((s.retry id params token).deskOf asked given forgotten).Kept := by
  unfold retry
  split
  · refine desked_say (s := { s with refused := s.refused ++ [(token, s.inbox.length)] }) h fun i hi => ?_
    obtain rfl := Option.some.inj hi
    exact AnswerDesk.Fresh.sayable h hid
  · next c r hround =>
    obtain ⟨hr, -, hlive⟩ := h.round token c r hround
    have hmodern : (s.calls c).modern = true := by
      by_contra hlegacy
      have hnone := (h.legacy c (Bool.eq_false_iff.2 hlegacy) hlive).2.1
      exact absurd (hr.symm.trans hnone) (by simp)
    have hresume := h.resumeOn hid hround
    have haccepted : (({ s with
        rounds := s.rounds.pop token
        resumed := s.resumed ++ [(token, s.inbox.length)] } : ToolSeam W).acceptRetry id params c r).deskOf asked given
          forgotten = { (s.deskOf asked given forgotten).setCall c { (s.calls c).desk with
            round := none, currentId := some id, ids := (s.calls c).ids.insert id } with
            rounds := s.rounds.pop token } := desk_acceptRetry id params c r
    have hkept := haccepted.symm ▸ hresume
    have hcall := congrArg (fun b : AnswerDesk => b.calls c) haccepted
    generalize ({ s with
        rounds := s.rounds.pop token
        resumed := s.resumed ++ [(token, s.inbox.length)] } : ToolSeam W).acceptRetry id params c r = t at hkept hcall ⊢
    have hself : (t.calls c).desk = { (s.calls c).desk with
        round := none, currentId := some id, ids := (s.calls c).ids.insert id } :=
      hcall.trans (Function.update_self _ _ _)
    dsimp only
    split
    · next frame hfinal =>
      have hfinished : (t.calls c).finished = true := hkept.parked c (by simp [deskOf, ToolCall.desk, hfinal])
      have hfinish := desked_finalFrame hkept (c := c) ((congrArg AnswerCall.modern hself).trans hmodern) hfinished
        ((congrArg AnswerCall.ended hself).trans hlive) (congrArg AnswerCall.round hself) frame
      unfold deliverFinal
      generalize t.finalFrame frame c = sent at hfinish
      obtain ⟨after, sent⟩ := sent
      cases sent with
      | none => exact hfinish.1
      | some f => exact desked_say hfinish.1 (hfinish.2 f rfl)
    · exact hkept

/-- The ids of the requests that the session is given with one frame. -/
def asks (forward : Option Frame) : List RequestId := forward.toList.filterMap askedId

/-- A call that is in flight or waits is one that is not over. -/
theorem desked_open (h : (s.deskOf asked given forgotten).Kept) {c : Nat}
    (hc : c ∈ s.inFlight.values ++ s.waiting.values) :
    (s.calls c).ended = false ∧ (s.calls c).originalId ∈ (s.calls c).ids := by
  have hlive : (s.calls c).ended = false := by
    rcases List.mem_append.1 hc with hc | hc
    · obtain ⟨id, hget⟩ := Dict.exists_get_of_mem_values hc
      exact (h.inFlight id c hget).2.2
    · obtain ⟨id, hget⟩ := Dict.exists_get_of_mem_values hc
      exact (h.waiting id c hget).2.2
  exact ⟨hlive, h.original c (h.begun c hlive)⟩

theorem desked_cancel (h : (s.deskOf asked given forgotten).Kept) (params : Option Members)
    (hheeds : ∀ c, ((get (params.getD []) REQUEST_ID).bind RequestId.ofJson).bind s.callNamed = some c →
      ∀ id ∈ queuedIds false s.queue, id ∉ (s.calls c).ids) :
    ((s.cancel params).1.deskOf asked given forgotten).Kept ∧ asks (s.cancel params).2 = [] := by
  unfold cancel
  dsimp only
  split
  · exact ⟨h, rfl⟩
  · next c hcall =>
    obtain ⟨target, -, hnamed⟩ := Option.bind_eq_some_iff.1 hcall
    obtain ⟨hlive, hmem⟩ := desked_open h (List.mem_of_find?_eq_some hnamed)
    have hx : AnswerDesk.Later (s.calls c).desk ((s.calls c).drop.cancel s.out.length).desk :=
      ⟨rfl, rfl, rfl, fun _ hid => hid, fun _ => rfl, fun hover => absurd (hlive.symm.trans hover) (by simp), nofun, nofun⟩
    have hgone : ∀ place, ((s.calls c).drop.cancel s.out.length).desk.cancelledAt = some place →
        (s.calls c).desk.cancelledAt = some place ∨ place = s.out.length ∧
          ∀ id ∈ queuedIds false s.queue, id ∉ ((s.calls c).drop.cancel s.out.length).desk.ids := fun place hplace =>
      .inr ⟨(Option.some.inj hplace).symm, hheeds c hcall⟩
    have hdesk : ((s.endCall c).updateCall c (·.cancel s.out.length)).deskOf asked given forgotten =
        { (s.deskOf asked given forgotten).setCall c ((s.calls c).drop.cancel s.out.length).desk with
          inFlight := s.inFlight.pop (s.calls c).originalId
          waiting := s.waiting.pop (s.calls c).originalId
          rounds := (s.calls c).round.elim s.rounds fun r => s.rounds.pop r.token } := by
      have hend : (s.endCall c).deskOf asked given forgotten = _ := desk_endCall c
      have hself : ((s.endCall c).calls c).desk = (s.calls c).drop.desk :=
        (congrArg (fun b : AnswerDesk => b.calls c) hend).trans (Function.update_self _ _ _)
      have hcancel : (((s.endCall c).calls c).cancel s.out.length).desk = ((s.calls c).drop.cancel s.out.length).desk :=
        congrArg (fun d : AnswerCall => { d with cancelledAt := some s.out.length }) hself
      rw [desk_updateCall, hcancel, hend]
      simp only [AnswerDesk.setCall, Function.update_idem]
    split
    · next hfinished =>
      refine ⟨?_, rfl⟩
      rw [hdesk]
      exact h.endCall hx rfl hmem (.inl hfinished) hgone fun _ _ => .inr hfinished
    · refine ⟨?_, rfl⟩
      have hknown : (((s.deskOf asked given forgotten).cancelled.set (s.calls c).originalId c).get
          (s.calls c).originalId).isSome := by simp
      have hkept := (h.remember (c := c) hmem).endCall hx rfl hmem (.inr (.inr (.inl hknown))) hgone fun _ _ => .inl hknown
      have hcancelled : ((s.endCall c).updateCall c (·.cancel s.out.length)).cancelled = s.cancelled :=
        congrArg AnswerDesk.cancelled hdesk
      have hall : ({ (s.endCall c).updateCall c (·.cancel s.out.length) with
          cancelled := ((s.endCall c).updateCall c (·.cancel s.out.length)).cancelled.set (s.calls c).originalId c } :
            ToolSeam W).deskOf asked given forgotten =
          { ((s.endCall c).updateCall c (·.cancel s.out.length)).deskOf asked given forgotten with
            cancelled := s.cancelled.set (s.calls c).originalId c } := by
        rw [hcancelled]
        rfl
      rw [hall, hdesk]
      exact hkept

theorem desked_answerAttempt (h : (s.deskOf asked given forgotten).Kept) {id : RequestId} {frame : Frame}
    (hframe : askedId frame = none) : ((s.answerAttempt id frame).1.deskOf asked given forgotten).Kept ∧
      asks (s.answerAttempt id frame).2 = [] := by
  unfold answerAttempt
  split
  · split
    · exact ⟨h, rfl⟩
    · exact ⟨h, rfl⟩
  · exact ⟨h, by simp [asks, hframe]⟩

theorem desked_inbound (h : (s.deskOf asked given forgotten).Kept) {frame : Frame}
    (hnew : ∀ id, askedId frame = some id → id ∉ asked)
    (hheeds : ∀ params, frame = .notification CANCELLED_METHOD params → ∀ c,
      ((get (params.getD []) REQUEST_ID).bind RequestId.ofJson).bind s.callNamed = some c →
        ∀ id ∈ queuedIds false s.queue, id ∉ (s.calls c).ids) (ownSessionId : Str) :
    ((s.inbound C frame ownSessionId).1.deskOf (asked ++ (askedId frame).toList)
      (given ++ asks (s.inbound C frame ownSessionId).2) forgotten).Kept := by
  have hquiet : ∀ r : ToolSeam W × Option Frame, (r.1.deskOf asked given forgotten).Kept ∧ asks r.2 = [] →
      (r.1.deskOf (asked ++ []) (given ++ asks r.2) forgotten).Kept := by
    rintro r ⟨hkept, hnone⟩
    rwa [hnone, List.append_nil, List.append_nil]
  cases frame with
  | request id method params =>
    obtain ⟨hheard, hid⟩ := h.hear (hnew id rfl)
    simp only [inbound]
    split
    · exact hheard.greet hid
    · split
      · unfold takeCall
        split
        · next token _ =>
          have hretry : ((s.retry id (params.getD []) token).deskOf (asked ++ [id]) given forgotten).Kept :=
            desked_retry hheard hid (params.getD []) token
          simpa [asks, askedId] using hretry
        · have hopen : ((s.openCall C id (params.getD []) ownSessionId).deskOf (asked ++ [id]) (given ++ [id])
              forgotten).Kept := desked_openCall hheard hid (params.getD []) ownSessionId
          exact hopen
      · exact hheard.give hid
  | notification method params =>
    simp only [inbound]
    split
    · next hmethod =>
      obtain rfl := eq_of_beq hmethod
      exact hquiet _ (desked_cancel h params (hheeds params rfl))
    · exact hquiet (s, _) ⟨h, rfl⟩
  | response id result => exact hquiet _ (desked_answerAttempt h rfl)
  | error id code message =>
    cases id with
    | none => exact hquiet (s, _) ⟨h, rfl⟩
    | some id => exact hquiet _ (desked_answerAttempt h rfl)

/-! ## What the handlers and the tasks do -/

theorem desked_buffer (h : (s.deskOf asked given forgotten).Kept) {c : Nat} {x : ToolCall}
    (hx : x.desk = { (s.calls c).desk with idle := x.buffered.isEmpty }) (hmodern : (s.calls c).modern = true) :
    ((s.deskOf asked given forgotten).setCall c x.desk).Kept := by
  rw [hx]
  refine h.mend ⟨rfl, rfl, rfl, fun _ hid => hid, fun hover => hover, fun _ => rfl, h.parked c, ?_⟩ rfl rfl rfl rfl
  intro hlegacy
  exact absurd (hmodern.symm.trans hlegacy) (by simp)

theorem desked_sendAttempt (h : (s.deskOf asked given forgotten).Kept) (event : Event) (c : Nat) :
    ((s.sendAttempt event c).deskOf asked given forgotten).Kept := by
  unfold sendAttempt
  dsimp only
  split
  · exact h
  · split
    · next hmodern =>
      rw [desk_updateCall]
      exact desked_buffer h rfl hmodern
    · exact desked_say (s := { s with
        attempts := _, attemptCount := _, nextId := _, pending := _ }) h fun _ hid => by cases hid

theorem desk_answered (call : ToolCall) (r : AttemptResponse W) (id : Str) : (call.answered r id).desk = call.desk := by
  unfold ToolCall.answered
  split
  · split <;> rfl
  · rfl

theorem desked_resume (h : (s.deskOf asked given forgotten).Kept) (a : Nat) :
    ((s.resume a).deskOf asked given forgotten).Kept := by
  unfold resume
  dsimp only
  rw [desk_updateCall_same _ _ (·.answered _ _) (desk_answered _ _ _)]
  exact h

theorem desked_sendFails (h : (s.deskOf asked given forgotten).Kept) (a : Nat) (id : RequestId) :
    ((s.sendFails a id).deskOf asked given forgotten).Kept := by
  have hsub : ∀ hooked, (queuedIds hooked (s.queue.filter fun q =>
      q != ⟨.request id ATTEMPT_METHOD (some (s.attempts a).event), false⟩)).Sublist (queuedIds hooked s.queue) :=
    fun hooked => (List.filter_sublist.filter _).filterMap _
  exact h.withdraw (hsub false) (hsub true)

theorem desked_sendOutcome (h : (s.deskOf asked given forgotten).Kept) (event : Event) (c : Nat) :
    ((s.sendOutcome event c).deskOf asked given forgotten).Kept := by
  have hleft : (s.updateCall c (·.concluded (idText W event))).deskOf asked given forgotten =
      s.deskOf asked given forgotten := desk_updateCall_same s c _ rfl
  have hkept := hleft.symm ▸ h
  unfold sendOutcome
  dsimp only
  split
  · exact hkept
  · split
    · next hmodern =>
      rw [desk_updateCall]
      refine desked_buffer hkept rfl ?_
      exact (congrArg ToolCall.modern (Function.update_self c _ s.calls)).trans hmodern
    · exact desked_say hkept fun _ hid => by cases hid

theorem desked_endRound (h : (s.deskOf asked given forgotten).Kept) (token : Str) (c : Nat) :
    ((s.endRound token c).deskOf asked given forgotten).Kept := by
  have hbegun : (s.updateCall c .beginRound).deskOf asked given forgotten = s.deskOf asked given forgotten :=
    desk_updateCall_same s c .beginRound rfl
  unfold endRound
  dsimp only
  split
  · exact hbegun.symm ▸ h
  · next id hcurrent =>
    split
    · exact hbegun.symm ▸ h
    · next hstands =>
      simp only [Bool.or_eq_true, not_or, Bool.not_eq_true, Option.isSome_eq_false_iff, Option.isNone_iff_eq_none]
        at hstands
      obtain ⟨⟨hlive, hround⟩, hbuffered⟩ := hstands
      have hmodern : (s.calls c).modern = true := by
        by_contra hlegacy
        have hidle := (h.legacy c (Bool.eq_false_iff.2 hlegacy) hlive).2.2
        exact absurd (hbuffered.symm.trans hidle) (by simp)
      obtain ⟨hkept, hsay⟩ := h.sendRound token (s.calls c).bufferedAwaiting hlive hmodern hround hcurrent
      have hdesk : ∀ issued : List IssuedRound, ({ (s.updateCall c .beginRound).updateCall c (·.sendRound token) with
          rounds := s.rounds.set token (c, ⟨token, (s.calls c).bufferedAwaiting⟩), issued } : ToolSeam W).deskOf asked
            given forgotten = { (s.deskOf asked given forgotten).setCall c { (s.calls c).desk with
              idle := true, round := some ⟨token, (s.calls c).bufferedAwaiting⟩, currentId := none } with
              rounds := s.rounds.set token (c, ⟨token, (s.calls c).bufferedAwaiting⟩) } := by
        intro issued
        have hcalls := Function.comp_update ToolCall.desk s.calls c ((s.calls c).beginRound.sendRound token)
        simp only [deskOf, updateCall, AnswerDesk.setCall, Function.update_idem, Function.update_self, hcalls]
        rfl
      refine desked_say ((hdesk _).symm ▸ hkept) fun i hi => ?_
      obtain rfl := Option.some.inj hi
      rw [hdesk]
      exact hsay

/-! ## The close -/

/-- The calls still to be ended: where nothing is known of their late answers, that is on record. -/
structure Closing (forgotten : List RequestId) (s : ToolSeam W) (todo : List Nat) : Prop where
  inFlight : ∀ id c, s.inFlight.get id = some c → c ∈ todo
  waiting : ∀ id c, s.waiting.get id = some c → c ∈ todo
  cancelled : ∀ id c, s.cancelled.get id = some c → id ∈ forgotten
  known : ∀ c ∈ todo, (s.calls c).originalId ∈ (s.calls c).ids ∧ ((s.calls c).finished = true ∨
    (s.calls c).currentId = some (s.calls c).originalId ∨ (s.calls c).originalId ∈ forgotten)

theorem Closing.step {c : Nat} {todo : List Nat} (h : (s.deskOf asked given forgotten).Kept)
    (hclosing : Closing forgotten s (c :: todo)) : Closing forgotten (s.endCall c) todo := by
  have hdesk : (s.endCall c).deskOf asked given forgotten = _ := desk_endCall c
  have hinFlight : (s.endCall c).inFlight = s.inFlight.pop (s.calls c).originalId := congrArg AnswerDesk.inFlight hdesk
  have hwaiting : (s.endCall c).waiting = s.waiting.pop (s.calls c).originalId := congrArg AnswerDesk.waiting hdesk
  have hcancelled : (s.endCall c).cancelled = s.cancelled := congrArg AnswerDesk.cancelled hdesk
  have hcall : ∀ d, ((s.endCall c).calls d).desk = (s.calls d).desk ∨
      ((s.endCall c).calls d).desk = { (s.calls d).desk with finished := true, ended := true, parked := false } := by
    intro d
    have hd : ((s.endCall c).calls d).desk =
        Function.update (ToolCall.desk ∘ s.calls) c (s.calls c).drop.desk d := congrArg (fun b : AnswerDesk => b.calls d) hdesk
    by_cases hdc : d = c
    · subst hdc
      exact .inr (hd.trans (Function.update_self _ _ _))
    · exact .inl (hd.trans (Function.update_of_ne hdc _ _))
  refine ⟨fun id d hget => ?_, fun id d hget => ?_, fun id d hget => ?_, fun d hd => ?_⟩
  · rw [hinFlight, Dict.get_pop] at hget
    split at hget
    · cases hget
    · next hne =>
      rcases List.mem_cons.1 (hclosing.inFlight id d hget) with rfl | hd
      · exact absurd (beq_iff_eq.2 (h.inFlight id d hget).1.symm) hne
      · exact hd
  · rw [hwaiting, Dict.get_pop] at hget
    split at hget
    · cases hget
    · next hne =>
      rcases List.mem_cons.1 (hclosing.waiting id d hget) with rfl | hd
      · exact absurd (beq_iff_eq.2 (h.waiting id d hget).1.symm) hne
      · exact hd
  · rw [hcancelled] at hget
    exact hclosing.cancelled id d hget
  · obtain ⟨hmem, hknown⟩ := hclosing.known d (List.mem_cons_of_mem _ hd)
    rcases hcall d with hsame | hdropped
    · have horiginal : ((s.endCall c).calls d).originalId = (s.calls d).originalId := congrArg AnswerCall.originalId hsame
      have hids : ((s.endCall c).calls d).ids = (s.calls d).ids := congrArg AnswerCall.ids hsame
      have hcurrent : ((s.endCall c).calls d).currentId = (s.calls d).currentId := congrArg AnswerCall.currentId hsame
      have hfinished : ((s.endCall c).calls d).finished = (s.calls d).finished := congrArg AnswerCall.finished hsame
      rw [horiginal, hids, hcurrent, hfinished]
      exact ⟨hmem, hknown⟩
    · have horiginal : ((s.endCall c).calls d).originalId = (s.calls d).originalId :=
        congrArg AnswerCall.originalId hdropped
      have hids : ((s.endCall c).calls d).ids = (s.calls d).ids := congrArg AnswerCall.ids hdropped
      rw [horiginal, hids]
      exact ⟨hmem, .inl (congrArg AnswerCall.finished hdropped)⟩

theorem desked_endCalls {todo : List Nat} (h : (s.deskOf asked given forgotten).Kept)
    (hclosing : Closing forgotten s todo) :
    ((todo.foldl (fun s c => s.endCall c) s).deskOf asked given forgotten).Kept ∧
      Closing forgotten (todo.foldl (fun s c => s.endCall c) s) [] := by
  induction todo generalizing s with
  | nil => exact ⟨h, hclosing⟩
  | cons c todo ih =>
    obtain ⟨hmem, hknown⟩ := hclosing.known c (List.mem_cons_self ..)
    exact ih (desked_endCall h hmem hknown) (hclosing.step h)

theorem desked_close (h : (s.deskOf asked given forgotten).Kept) :
    (s.close.deskOf asked given (forgotten ++ s.answeredBefore)).Kept := by
  have hgrown : (s.deskOf asked given (forgotten ++ s.answeredBefore)).Kept := by
    refine { h with pending := fun id hid => ?_ }
    rcases h.pending id hid with hunsaid | hflying | hknown | hforgotten
    · exact .inl ⟨hunsaid.silent, hunsaid.left⟩
    · exact .inr (.inl hflying)
    · exact .inr (.inr (.inl hknown))
    · exact .inr (.inr (.inr (List.mem_append_left _ hforgotten)))
  have hclosing : Closing (forgotten ++ s.answeredBefore)
      ({ s.settle (unanswered s.pending.values) with pending := .empty } : ToolSeam W)
      (s.inFlight.values ++ s.waiting.values) := by
    have hvalue : ∀ {d : Dict RequestId Nat} {id c}, d.get id = some c → c ∈ d.values := fun hget =>
      List.mem_map.2 ⟨_, Dict.get_eq_some.1 hget, rfl⟩
    refine ⟨fun id c hget => List.mem_append_left _ (hvalue hget), fun id c hget => List.mem_append_right _ (hvalue hget),
      fun id c hget => ?_, fun c hc => ⟨(desked_open h hc).2, ?_⟩⟩
    · exact List.mem_append_right _ (List.mem_append_right _ (List.mem_map.2 ⟨_, Dict.get_eq_some.1 hget, rfl⟩))
    · rcases List.mem_append.1 hc with hc | hc
      · obtain ⟨id, hget⟩ := Dict.exists_get_of_mem_values hc
        obtain ⟨horiginal, -, -⟩ := h.inFlight id c hget
        by_cases hcurrent : (s.calls c).currentId = some id
        · have horiginal : (s.calls c).originalId = id := horiginal
          exact .inr (.inl (hcurrent.trans (congrArg some horiginal.symm)))
        · refine .inr (.inr (List.mem_append_right _ (List.mem_append_left _ (List.mem_map.2 ⟨(id, c), ?_, ?_⟩))))
          · exact List.mem_filter.2 ⟨Dict.get_eq_some.1 hget, by simpa using hcurrent⟩
          · exact horiginal.symm
      · obtain ⟨id, hget⟩ := Dict.exists_get_of_mem_values hc
        exact .inl (h.waiting id c hget).2.1
  obtain ⟨hended, hleft⟩ := desked_endCalls (s := { s.settle (unanswered s.pending.values) with pending := .empty })
    hgrown hclosing
  unfold close
  dsimp only
  generalize (s.inFlight.values ++ s.waiting.values).foldl (fun s c => s.endCall c)
    ({ s.settle (unanswered s.pending.values) with pending := .empty } : ToolSeam W) = ended at hended hleft
  have hnone : ∀ {d : Dict RequestId Nat}, (∀ id c, d.get id = some c → c ∈ ([] : List Nat)) → ∀ id, d.get id = none := by
    intro d hall id
    cases hget : d.get id with
    | none => rfl
    | some c => cases hall id c hget
  have hshut := hended.shut (ended.rounds.values.map Prod.fst).contains (hnone hleft.inFlight) (hnone hleft.waiting)
    hleft.cancelled
  have hcalls : (ToolCall.desk ∘ fun c => if (ended.rounds.values.map Prod.fst).contains c then (ended.calls c).close
      else ended.calls c) = fun c => if (ended.rounds.values.map Prod.fst).contains c then
        { (ended.calls c).desk with ended := true } else (ended.calls c).desk := by
    funext c
    simp only [Function.comp_apply]
    split <;> rfl
  simp only [deskOf, hcalls]
  exact hshut

/-! ## Runs -/

/-- The peer puts an id of its own on every request; the session answers a request it was given, and once. -/
def assumes (s : ToolSeam W) : Act → Bool
  | .inbound frame _ => (askedId frame).all fun id => !(s.inbox.filterMap askedId).contains id
  | .write frame stale => !stale && (answerId frame).all fun id =>
      (s.toSession.filterMap askedId).contains id && !s.written.contains id
  | _ => true

/-- The seam still knows of a call when its answer comes, and has none of its own queued when a cancellation does. -/
def heeds (s : ToolSeam W) : Act → Bool
  | .inbound (.notification method params) _ =>
    method != CANCELLED_METHOD || (((get (params.getD []) REQUEST_ID).bind RequestId.ofJson).bind s.callNamed).all fun c =>
      (queuedIds false s.queue).all fun id => !(s.calls c).ids.contains id
  | .pump => s.queue.head?.all fun q => !q.hooked || (answerId q.frame).all fun id => !s.forgotten.contains id
  | _ => true

/-- One answer at most goes out on each id, and none on an id of a call after its cancellation was taken in. -/
structure AnsweredOnce (s : ToolSeam W) : Prop where
  once : (s.out.filterMap answerId).Nodup
  withheld : ∀ c place, (s.calls c).cancelledAt = some place →
    ∀ f ∈ s.out.drop place, ∀ id, answerId f = some id → id ∉ (s.calls c).ids

def desk (s : ToolSeam W) : AnswerDesk :=
  s.deskOf (s.inbox.filterMap askedId) (s.toSession.filterMap askedId) s.forgotten

theorem desked_start : (start : ToolSeam W).desk.Kept := by
  constructor <;> simp [desk, start, deskOf, AnswerDesk.answered, queuedIds, ToolCall.desk, noCall, AnswerDesk.Awaits]

theorem desked_write (h : (s.deskOf asked given forgotten).Kept) {frame : Frame}
    (hid : ∀ id, answerId frame = some id → id ∈ given ∧ id ∉ s.written) :
    (({ s with written := s.written ++ (answerId frame).toList, queue := s.queue ++ [⟨frame, true⟩] } :
      ToolSeam W).deskOf asked given forgotten).Kept := by
  have hone : queuedIds true [⟨frame, true⟩] = (answerId frame).toList := by
    cases hanswer : answerId frame <;> simp [queuedIds, hanswer]
  have hhooked : queuedIds true (s.queue ++ [⟨frame, true⟩]) = queuedIds true s.queue ++ (answerId frame).toList := by
    rw [← hone, queuedIds, List.filter_append, List.filterMap_append]
    rfl
  have hown : queuedIds false (s.queue ++ [⟨frame, true⟩]) = queuedIds false s.queue := by simp [queuedIds]
  simp only [deskOf, hhooked, hown]
  cases hanswer : answerId frame with
  | none => simpa [deskOf] using h
  | some id => exact h.write (hid id hanswer).1 (hid id hanswer).2

/-- Nothing came in, went to the session or was forgotten. -/
theorem desked_quiet (hhistory : s'.history = s.history)
    (h : (s'.deskOf (s.inbox.filterMap askedId) (s.toSession.filterMap askedId) s.forgotten).Kept) : s'.desk.Kept := by
  have hinbox : s'.inbox = s.inbox := congrArg History.inbox hhistory
  have htoSession : s'.toSession = s.toSession := congrArg History.toSession hhistory
  have hforgotten : s'.forgotten = s.forgotten := congrArg History.forgotten hhistory
  unfold desk
  rwa [hinbox, htoSession, hforgotten]

/-- A frame has come in, and what the session is given of it is on its way. -/
theorem desked_take {r : ToolSeam W × Option Frame} {frame : Frame} (hinbox : r.1.inbox = s.inbox)
    (htoSession : r.1.toSession = s.toSession) (hforgotten : r.1.forgotten = s.forgotten)
    (h : (r.1.deskOf (s.inbox.filterMap askedId ++ (askedId frame).toList)
      (s.toSession.filterMap askedId ++ asks r.2) s.forgotten).Kept) :
    ({ r.1 with inbox := r.1.inbox ++ [frame], toSession := r.1.toSession ++ r.2.toList } : ToolSeam W).desk.Kept := by
  have hone : [frame].filterMap askedId = (askedId frame).toList := by
    cases hasked : askedId frame <;> simp [hasked]
  unfold desk
  dsimp only
  rw [hinbox, htoSession, hforgotten, List.filterMap_append, List.filterMap_append, hone]
  exact h

theorem desked_step {a : Act} (h : s.desk.Kept) (hassumes : s.assumes a = true) (hheeds : s.heeds a = true)
    (hstep : s.step C a = some s') : s'.desk.Kept := by
  cases a with
  | inbound frame ownSessionId =>
    obtain rfl := Option.some.inj hstep
    have hnew : ∀ id, askedId frame = some id → id ∉ s.inbox.filterMap askedId := by
      intro id hid
      simpa [assumes, hid] using hassumes
    have hkept := desked_inbound (C := C) h hnew ?_ ownSessionId
    · obtain ⟨hinbox, htoSession, -, hforgotten⟩ := inbound_same (C := C) (s := s) frame ownSessionId
      exact desked_take hinbox htoSession hforgotten hkept
    · rintro params rfl c hc id hid hmem
      have hnone : (queuedIds false s.queue).all fun id => !(s.calls c).ids.contains id := by
        simpa [heeds, hc] using hheeds
      simpa [hmem] using List.all_eq_true.1 hnone id hid
  | negotiate c offered =>
    obtain ⟨_, hstep⟩ := Option.ite_none_right_eq_some.1 hstep
    obtain ⟨_, hstep⟩ := Option.ite_none_right_eq_some.1 hstep
    obtain rfl := Option.some.inj hstep
    refine desked_quiet rfl ?_
    rw [desk_updateCall_same s c (·.negotiate offered) rfl]
    exact h
  | attempt c event =>
    obtain ⟨_, hstep⟩ := Option.ite_none_right_eq_some.1 hstep
    obtain rfl := Option.some.inj hstep
    exact desked_quiet (history_sendAttempt event c) (desked_sendAttempt h event c)
  | resume a =>
    obtain ⟨_, hstep⟩ := Option.ite_none_right_eq_some.1 hstep
    obtain rfl := Option.some.inj hstep
    exact desked_quiet rfl (desked_resume h a)
  | sendFails a =>
    obtain ⟨_, hstep⟩ := Option.ite_none_right_eq_some.1 hstep
    obtain ⟨id, _, rfl⟩ := Option.map_eq_some_iff.1 hstep
    exact desked_quiet rfl (desked_sendFails h a id)
  | outcome c event =>
    obtain ⟨_, hstep⟩ := Option.ite_none_right_eq_some.1 hstep
    obtain rfl := Option.some.inj hstep
    exact desked_quiet (history_sendOutcome event c) (desked_sendOutcome h event c)
  | endRound c secret =>
    obtain ⟨_, hstep⟩ := Option.ite_none_right_eq_some.1 hstep
    obtain rfl := Option.some.inj hstep
    obtain ⟨issued, hhistory, -⟩ := history_endRound (s := s) (roundToken C secret) c
    have hinbox : (s.endRound (roundToken C secret) c).inbox = s.inbox := congrArg History.inbox hhistory
    have htoSession : (s.endRound (roundToken C secret) c).toSession = s.toSession := congrArg History.toSession hhistory
    have hforgotten : (s.endRound (roundToken C secret) c).forgotten = s.forgotten := congrArg History.forgotten hhistory
    unfold desk
    rw [hinbox, htoSession, hforgotten]
    exact desked_endRound h _ c
  | write frame stale =>
    obtain ⟨hstale, hwritten⟩ := Bool.and_eq_true_iff.1 hassumes
    obtain rfl : stale = false := by simpa using hstale
    obtain rfl := Option.some.inj hstep
    refine desked_quiet rfl (desked_write h fun id hid => ?_)
    simpa [hid] using hwritten
  | withdraw place =>
    simp only [step] at hstep
    split at hstep
    · cases hstep
    · obtain rfl := Option.some.inj hstep
      have hsub : ∀ hooked, (queuedIds hooked (s.queue.eraseIdx place)).Sublist (queuedIds hooked s.queue) :=
        fun hooked => ((List.eraseIdx_sublist _ _).filter _).filterMap _
      exact desked_quiet rfl (h.withdraw (hsub false) (hsub true))
  | pump =>
    have hkept := desked_pump (C := C) h ?_ hstep
    · refine desked_quiet ?_ hkept
      simp only [step, pump] at hstep
      split at hstep
      · cases hstep
      · next q rest _ =>
        split at hstep
        · obtain rfl := Option.some.inj hstep
          exact history_outbound (s := { s with queue := rest }) q.frame
        · obtain rfl := Option.some.inj hstep
          rfl
    · intro q hq hhooked id hid
      have hq : s.queue.head? = some q := hq
      simpa [heeds, hq, hhooked, hid] using hheeds
  | forget id =>
    obtain rfl := Option.some.inj hstep
    refine h.forget id (fun i hi => ?_) fun _ hknown => ?_
    · change i ∈ if (s.cancelled.get id).isSome then s.forgotten ++ [id] else s.forgotten
      split
      · exact List.mem_append_left _ hi
      · exact hi
    · change id ∈ if (s.cancelled.get id).isSome then s.forgotten ++ [id] else s.forgotten
      have hknown : (s.cancelled.get id).isSome = true := hknown
      rw [if_pos hknown]
      exact List.mem_append_right _ (List.mem_singleton_self id)
  | close =>
    obtain rfl := Option.some.inj hstep
    have hhistory := history_close (s := s)
    have hinbox : s.close.inbox = s.inbox := congrArg History.inbox hhistory
    have htoSession : s.close.toSession = s.toSession := congrArg History.toSession hhistory
    unfold desk
    rw [hinbox, htoSession]
    exact desked_close h

/-- In every run whose acts are such, each request is answered once at most and a cancelled call no more. -/
theorem answered_once (h : Run C (fun s a => s.assumes a && s.heeds a) s) : s.AnsweredOnce := by
  have hkept : s.desk.Kept := by
    induction h with
    | refl => exact desked_start
    | tail _ hstep ih =>
      obtain ⟨a, ha, hstep⟩ := hstep
      obtain ⟨hassumes, hheeds⟩ := Bool.and_eq_true_iff.1 ha
      exact desked_step ih hassumes hheeds hstep
  refine ⟨hkept.once.sublist (List.sublist_append_left _ _), fun c place hplace f hf id hid => ?_⟩
  obtain ⟨-, -, hnone⟩ := hkept.gone c place hplace
  exact hnone id (List.mem_append_left _ (List.mem_filterMap.2 ⟨f, hf, hid⟩))

/-- A cancellation of this request. -/
def sampleCancel (id : Int) : Act :=
  .inbound (.notification CANCELLED_METHOD (some [(REQUEST_ID, (RequestId.int id).toJson)])) []

/-- A round answers the request, its call is cancelled, and the session answers all the same. -/
def sampleCancelled : List Act :=
  [sampleOpening 1, .negotiate 0 sampleSeam.declares, .attempt 0 sampleAttempt, .endRound 0 (lit "one"), .pump,
    sampleCancel 1, .write (.response (.int 1) []) false, .pump]

theorem answered_once_cancelled : ∃ s : ToolSeam reference,
    start.steps sampleSeam (fun s a => s.assumes a && s.heeds a) sampleCancelled = some s ∧
      s.out.length = 1 ∧ (s.calls 0).cancelledAt = some 1 ∧ s.AnsweredOnce := by
  have hrun : ((start : ToolSeam reference).steps sampleSeam (fun s a => s.assumes a && s.heeds a) sampleCancelled).map
      (fun s => (s.out.length, (s.calls 0).cancelledAt)) = some (1, some 1) := by decide
  obtain ⟨s, hs, hall⟩ := Option.map_eq_some_iff.1 hrun
  obtain ⟨hout, hcancelled⟩ : s.out.length = 1 ∧ (s.calls 0).cancelledAt = some 1 := by simpa using hall
  exact ⟨s, hs, hout, hcancelled, answered_once (run_of_steps hs)⟩

/-- The same, where the bound after the cancellation has passed before the session answers. -/
def sampleForgotten : List Act :=
  [sampleOpening 1, .negotiate 0 sampleSeam.declares, .attempt 0 sampleAttempt, .endRound 0 (lit "one"), .pump,
    sampleCancel 1, .forget (.int 1), .write (.response (.int 1) []) false, .pump]

/-- The late answer is a second one on its id, and goes out after the cancellation. -/
theorem late_answer_goes_out : ∃ s : ToolSeam reference, Run sampleSeam (fun s a => s.assumes a) s ∧
    s.out.filterMap answerId = [.int 1, .int 1] ∧ (s.calls 0).cancelledAt = some 1 ∧
      (s.calls 0).ids.contains (.int 1) = true ∧ ¬ s.AnsweredOnce := by
  have hrun : ((start : ToolSeam reference).steps sampleSeam (fun s a => s.assumes a) sampleForgotten).map
      (fun s => (s.out.filterMap answerId, (s.calls 0).cancelledAt, (s.calls 0).ids.contains (.int 1))) =
        some ([.int 1, .int 1], some 1, true) := by decide
  obtain ⟨s, hs, hall⟩ := Option.map_eq_some_iff.1 hrun
  obtain ⟨hout, hcancelled, hids⟩ : s.out.filterMap answerId = [.int 1, .int 1] ∧ (s.calls 0).cancelledAt = some 1 ∧
      (s.calls 0).ids.contains (.int 1) = true := by simpa using hall
  refine ⟨s, run_of_steps hs, hout, hcancelled, hids, fun h => ?_⟩
  have honce := h.once
  rw [hout] at honce
  exact absurd honce (by decide)

end ToolSeam

end AuditableMcp
